import TypeAtlas.Descriptor.Basic
import TypeAtlas.Text.Utf8

namespace TypeAtlas

/-!
# Reading descriptors

A type is read from the front of a list of characters and the rest is handed
on, so a method descriptor is read type after type. Every failure is one of
five faults, and the message quotes the whole text.
-/

namespace Descriptor

/-- Why a text is not a descriptor. -/
inductive Fault where
  | unexpectedEnd
  | expected (c : Char)
  | unexpectedTag (c : Char)
  | unterminated
  | trailing
  deriving Repr, DecidableEq

/-- A fault together with the text that was read. -/
structure Malformed where
  source : String
  fault : Fault
  deriving Repr, DecidableEq

/-- The wording of a fault. Trailing text is reported by the text alone. -/
def Malformed.message (malformed : Malformed) : String :=
  let within (reason : String) : String :=
    s!"malformed descriptor: {reason} in '{malformed.source}'"
  match malformed.fault with
  | .unexpectedEnd => within "unexpected end"
  | .expected c => within s!"expected '{c}'"
  | .unexpectedTag c =>
      within s!"unexpected descriptor tag '{Text.leadByte c}'"
  | .unterminated => within "unterminated reference descriptor"
  | .trailing => s!"malformed descriptor: {malformed.source}"

/-- Read a class name up to its semicolon. -/
def scanObject (cs : List Char) : Except Fault (Descriptor × List Char) :=
  let name := cs.takeWhile (· != ';')
  match cs.dropWhile (· != ';') with
  | [] => .error .unterminated
  | _ :: rest =>
      if name.isEmpty then
        .error .unterminated
      else
        .ok (.object (TypeName.ofInternal (String.ofList name)), rest)

/-- Read a type that is not an array. -/
def scanElement : List Char → Except Fault (Descriptor × List Char)
  | [] => .error .unexpectedEnd
  | c :: rest =>
      match BaseType.ofTag? c with
      | some type => .ok (.base type, rest)
      | none =>
          if c = 'L' then
            scanObject rest
          else
            .error (.unexpectedTag c)

/-- Read a type: its array dimensions, then what they are of. -/
def scan (cs : List Char) : Except Fault (Descriptor × List Char) := do
  let dimensions := (cs.takeWhile (· == '[')).length
  let (element, rest) ← scanElement (cs.dropWhile (· == '['))
  return (if dimensions = 0 then element else .array element dimensions, rest)

/-- Reading a class name leaves less than there was. -/
theorem scanObject_rest_lt
    {cs rest : List Char}
    {type : Descriptor}
    (scanned : scanObject cs = .ok (type, rest)) :
    rest.length < cs.length := by
  have whole : (cs.dropWhile (· != ';')).length ≤ cs.length :=
    (List.dropWhile_suffix _).length_le
  unfold scanObject at scanned
  split at scanned
  · simp at scanned
  · rename_i semicolon tail shape
    rw [shape] at whole
    dsimp only at scanned
    split at scanned
    · simp at scanned
    · obtain ⟨-, rfl⟩ := Prod.mk.inj (Except.ok.inj scanned)
      simp only [List.length_cons] at whole
      omega

/-- Reading a type that is not an array leaves less than there was. -/
theorem scanElement_rest_lt
    {cs rest : List Char}
    {type : Descriptor}
    (scanned : scanElement cs = .ok (type, rest)) :
    rest.length < cs.length := by
  unfold scanElement at scanned
  split at scanned
  · simp at scanned
  · rename_i c tail
    split at scanned
    · obtain ⟨-, rfl⟩ := Prod.mk.inj (Except.ok.inj scanned)
      simp
    · split at scanned
      · have := scanObject_rest_lt scanned
        simp only [List.length_cons]
        omega
      · simp at scanned

/-- Reading a type leaves less than there was. -/
theorem scan_rest_lt
    {cs rest : List Char}
    {type : Descriptor}
    (scanned : scan cs = .ok (type, rest)) :
    rest.length < cs.length := by
  have whole : (cs.dropWhile (· == '[')).length ≤ cs.length :=
    (List.dropWhile_suffix _).length_le
  unfold scan at scanned
  cases inner : scanElement (cs.dropWhile (· == '[')) with
  | error fault =>
      rw [inner] at scanned
      cases scanned
  | ok read =>
      rw [inner] at scanned
      obtain ⟨-, rfl⟩ := Prod.mk.inj (Except.ok.inj scanned)
      have := scanElement_rest_lt inner
      omega

/-- Read a text that is one type and nothing else. -/
def parse (text : String) : Except Malformed Descriptor :=
  match scan text.toList with
  | .error fault => .error ⟨text, fault⟩
  | .ok (type, []) => .ok type
  | .ok (_, _ :: _) => .error ⟨text, .trailing⟩

/-- Read the type of a class literal, where `V` stands for no type. -/
def parseResult (text : String) : Except Malformed (Option Descriptor) :=
  if text = "V" then
    .ok none
  else
    (parse text).map some

end Descriptor

namespace MethodDescriptor

/-- Read parameter types up to the closing bracket, which is consumed. -/
def scanParameters
    (cs : List Char) :
    Except Descriptor.Fault (List Descriptor × List Char) :=
  match cs with
  | [] => .error .unexpectedEnd
  | ')' :: rest => .ok ([], rest)
  | c :: tail =>
      match _scanned : Descriptor.scan (c :: tail) with
      | .error fault => .error fault
      | .ok (type, rest) =>
          match scanParameters rest with
          | .error fault => .error fault
          | .ok (types, rest) => .ok (type :: types, rest)
termination_by cs.length
decreasing_by exact Descriptor.scan_rest_lt _scanned

/-- Read the return type. -/
def scanResult :
    List Char → Except Descriptor.Fault (Option Descriptor × List Char)
  | [] => .error .unexpectedEnd
  | 'V' :: rest => .ok (none, rest)
  | cs => do
      let (type, rest) ← Descriptor.scan cs
      return (some type, rest)

/-- Read a method descriptor from the front of a list of characters. -/
def scan :
    List Char → Except Descriptor.Fault (MethodDescriptor × List Char)
  | [] => .error .unexpectedEnd
  | '(' :: rest => do
      let (parameters, rest) ← scanParameters rest
      let (result, rest) ← scanResult rest
      return (⟨parameters, result⟩, rest)
  | _ => .error (.expected '(')

/-- Read a text that is one method descriptor and nothing else. -/
def parse (text : String) : Except Descriptor.Malformed MethodDescriptor :=
  match scan text.toList with
  | .error fault => .error ⟨text, fault⟩
  | .ok (method, []) => .ok method
  | .ok (_, _ :: _) => .error ⟨text, .trailing⟩

end MethodDescriptor

end TypeAtlas
