import TypeAtlas.ClassFile.Bytes

namespace TypeAtlas.Deflate

/-!
# Compressed data

Compressed data is a sequence of blocks of bits, read from the lowest bit of
each byte up. A block holds plain bytes, or symbols of a prefix code that stand
for bytes and for copies of what was written before. A prefix code is given by
the lengths of its code words alone: shorter words come first, and words of one
length in the order of their symbols.
-/

/-! ## Bits -/

/-- The bits that are left: those of the byte at hand, then whole bytes. -/
structure Bits where
  bytes : List UInt8
  atHand : Nat := 0
  count : Nat := 0
  deriving Repr

/-- A step that reads bits. -/
abbrev Inflate :=
  StateT Bits Option

/-- One bit. -/
def bit : Inflate Nat := do
  let source ← get
  match source.count, source.bytes with
  | 0, [] => failure
  | 0, byte :: rest =>
      set (⟨rest, byte.toNat / 2, 7⟩ : Bits)
      return byte.toNat % 2
  | count + 1, bytes =>
      set (⟨bytes, source.atHand / 2, count⟩ : Bits)
      return source.atHand % 2

/-- A number of a given width, its lowest bit first. -/
def bits : Nat → Inflate Nat
  | 0 => return 0
  | width + 1 => do
      let low ← bit
      let high ← bits width
      return low + 2 * high

/-! ## Prefix codes -/

/-- A prefix code: the number of words of each length, and all symbols. -/
structure Code where
  counts : List Nat
  symbols : Array Nat
  deriving Repr

namespace Code

/-- No code word is longer. -/
def maxLength : Nat :=
  15

/-- The code in which each symbol has a word of the given length. -/
def ofLengths (lengths : List Nat) : Code :=
  let groups := (List.range maxLength).map fun length =>
    (lengths.zipIdx.filter (·.1 == length + 1)).map (·.2)
  ⟨groups.map List.length, groups.flatten.toArray⟩

/--
Read a symbol, one bit for each length: `word` is what was read so far, `first`
the first word of the length and `index` the place of its symbol.
-/
def readFrom
    (symbols : Array Nat)
    (word first index : Nat) :
    List Nat → Inflate Nat
  | [] => failure
  | count :: counts => do
      let word := word + (← bit)
      if word < first + count then
        match symbols[index + (word - first)]? with
        | some symbol => return symbol
        | none => failure
      else
        readFrom symbols (2 * word) (2 * (first + count)) (index + count) counts

/-- Read a symbol. -/
def read (code : Code) : Inflate Nat :=
  readFrom code.symbols 0 0 0 code.counts

end Code

/-! ## Copies -/

/-- The least number of each symbol and the width of what is added to it. -/
abbrev Scale :=
  List (Nat × Nat)

/-- The lengths of copies. -/
def lengths : Scale :=
  [(3, 0), (4, 0), (5, 0), (6, 0), (7, 0), (8, 0), (9, 0), (10, 0),
    (11, 1), (13, 1), (15, 1), (17, 1), (19, 2), (23, 2), (27, 2), (31, 2),
    (35, 3), (43, 3), (51, 3), (59, 3), (67, 4), (83, 4), (99, 4), (115, 4),
    (131, 5), (163, 5), (195, 5), (227, 5), (258, 0)]

/-- How far back copies start. -/
def distances : Scale :=
  [(1, 0), (2, 0), (3, 0), (4, 0), (5, 1), (7, 1), (9, 2), (13, 2),
    (17, 3), (25, 3), (33, 4), (49, 4), (65, 5), (97, 5), (129, 6), (193, 6),
    (257, 7), (385, 7), (513, 8), (769, 8), (1025, 9), (1537, 9),
    (2049, 10), (3073, 10), (4097, 11), (6145, 11), (8193, 12), (12289, 12),
    (16385, 13), (24577, 13)]

/-- Read the number behind a symbol of a scale. -/
def onScale
    (scale : Scale)
    (symbol : Nat) :
    Inflate Nat :=
  match scale[symbol]? with
  | some (base, width) => do return base + (← bits width)
  | none => failure

/-- Copy bytes from a distance back; a copy may run into itself. -/
def copy
    (distance : Nat) :
    Nat → Array UInt8 → Option (Array UInt8)
  | 0, out => some out
  | length + 1, out =>
      if distance ≤ out.size then
        match out[out.size - distance]? with
        | some byte => copy distance length (out.push byte)
        | none => none
      else
        none

/-! ## Blocks -/

/-- Read symbols up to the end of a block. Each takes a bit, of `fuel` in all. -/
def symbols
    (literals back : Code) :
    Nat → Array UInt8 → Inflate (Array UInt8)
  | 0, _ => failure
  | fuel + 1, out => do
      let symbol ← literals.read
      if symbol < 256 then
        symbols literals back fuel (out.push (UInt8.ofNat symbol))
      else if symbol = 256 then
        return out
      else
        let length ← onScale lengths (symbol - 257)
        let distance ← onScale distances (← back.read)
        match copy distance length out with
        | some out => symbols literals back fuel out
        | none => failure

/-- Read a block of plain bytes, which starts at a whole byte. -/
def plain (out : Array UInt8) : Inflate (Array UInt8) := do
  modify fun source => ⟨source.bytes, 0, 0⟩
  let length ← bits 16
  let check ← bits 16
  let source ← get
  match ClassFile.splitBytes? length source.bytes with
  | some (content, rest) =>
      if length + check = 0xFFFF then
        set (⟨rest, 0, 0⟩ : Bits)
        return content.foldl Array.push out
      else
        failure
  | none => failure

/-- The code of literals and lengths that needs no description. -/
def fixedLiterals : Code :=
  Code.ofLengths
    (List.replicate 144 8 ++ List.replicate 112 9
      ++ List.replicate 24 7 ++ List.replicate 8 8)

/-- The code of distances that needs no description. -/
def fixedDistances : Code :=
  Code.ofLengths (List.replicate 30 5)

/-- The order in which the code of code lengths is described. -/
def lengthOrder : List Nat :=
  [16, 17, 18, 0, 8, 7, 9, 6, 10, 5, 11, 4, 12, 3, 13, 2, 14, 1, 15]

/-- Read code lengths, some of which are repeated, until all are known. -/
def codeLengths
    (code : Code)
    (total : Nat) :
    Nat → List Nat → Inflate (List Nat)
  | 0, _ => failure
  | fuel + 1, known => do
      if known.length = total then
        return known
      let symbol ← code.read
      let more ←
        match symbol with
        | 16 =>
            match known.getLast? with
            | some last => do pure (List.replicate (3 + (← bits 2)) last)
            | none => failure
        | 17 => do pure (List.replicate (3 + (← bits 3)) 0)
        | 18 => do pure (List.replicate (11 + (← bits 7)) 0)
        | length => pure [length]
      if known.length + more.length ≤ total then
        codeLengths code total fuel (known ++ more)
      else
        failure

/-- Read a number of code lengths of three bits each. -/
def shortLengths : Nat → Inflate (List Nat)
  | 0 => return []
  | count + 1 => do
      let first ← bits 3
      let rest ← shortLengths count
      return first :: rest

/-- Read the description of the codes of a block. -/
def describedCodes : Inflate (Code × Code) := do
  let literalCount := 257 + (← bits 5)
  let distanceCount := 1 + (← bits 5)
  let described ← shortLengths (4 + (← bits 4))
  let given := lengthOrder.zip described
  let code := Code.ofLengths
    ((List.range 19).map fun symbol => (given.lookup symbol).getD 0)
  let total := literalCount + distanceCount
  let all ← codeLengths code total (total + 1) []
  return (Code.ofLengths (all.take literalCount),
    Code.ofLengths (all.drop literalCount))

/-- Read blocks up to the last one. -/
def blocks
    (size : Nat) :
    Nat → Array UInt8 → Inflate (Array UInt8)
  | 0, _ => failure
  | fuel + 1, out => do
      let isLast ← bit
      let out ←
        match ← bits 2 with
        | 0 => plain out
        | 1 => symbols fixedLiterals fixedDistances size out
        | 2 => do
            let (literals, back) ← describedCodes
            symbols literals back size out
        | _ => failure
      if isLast = 1 then
        return out
      else
        blocks size fuel out

/-- The content of compressed bytes. -/
def inflate? (bytes : List UInt8) : Option (List UInt8) :=
  let size := 8 * bytes.length + 1
  match blocks size size #[] ⟨bytes, 0, 0⟩ with
  | some (out, _) => some out.toList
  | none => none

end TypeAtlas.Deflate
