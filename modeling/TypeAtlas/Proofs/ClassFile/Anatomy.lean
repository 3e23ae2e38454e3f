import Mathlib.Logic.ExistsUnique
import TypeAtlas.Proofs.ClassFile.Delimiting
import TypeAtlas.Proofs.ClassFile.Layout

namespace TypeAtlas.ClassFile

/-!
# The anatomy of class files

A class file is a row of parts: numbers, the constant table, and counted lists
of members and attributes. This module writes the parts down without a look at
what they mean. Every byte string that can be decoded is made up of such parts,
in one way only.
-/

/-! ## Parts -/

/-- An attribute as it is stored: the index of its name, and its content. -/
structure AttributePart where
  nameIndex : UInt16
  content : Bytes
  deriving Repr, DecidableEq

namespace AttributePart

def bytes (part : AttributePart) : Bytes :=
  writeU2 part.nameIndex ++
    (writeU4 (UInt32.ofNat part.content.length) ++ part.content)

/-- The length of the content has room in its field. -/
def Fits (part : AttributePart) : Prop :=
  part.content.length < UInt32.size

instance (part : AttributePart) : Decidable part.Fits :=
  inferInstanceAs (Decidable (_ < _))

end AttributePart

/-- A list of parts, preceded by its length. -/
def countedBytes
    (bytes : α → Bytes)
    (parts : List α) :
    Bytes :=
  count16 parts ++ parts.flatMap bytes

/-- The length of a list has room in its field. -/
structure FitsCounted
    (Fits : α → Prop)
    (parts : List α) :
    Prop where
  count : parts.length ≤ 65535
  each : ∀ part ∈ parts, Fits part

/-- A field or a method as it is stored, its texts by their indexes. -/
structure MemberPart where
  access : UInt16
  nameIndex : UInt16
  descriptorIndex : UInt16
  attributes : List AttributePart
  deriving Repr, DecidableEq

namespace MemberPart

def bytes (part : MemberPart) : Bytes :=
  writeU2 part.access ++
    (writeU2 part.nameIndex ++
      (writeU2 part.descriptorIndex ++
        countedBytes AttributePart.bytes part.attributes))

def Fits (part : MemberPart) : Prop :=
  FitsCounted AttributePart.Fits part.attributes

end MemberPart

/-- A class as it is stored. The constant table is kept as its bytes. -/
structure ClassParts where
  minorVersion : UInt16
  majorVersion : UInt16
  constants : Bytes
  access : UInt16
  thisClass : UInt16
  superClass : UInt16
  interfaces : List UInt16
  fields : List MemberPart
  methods : List MemberPart
  attributes : List AttributePart
  deriving Repr, DecidableEq

namespace ClassParts

/-- The bytes that follow the constant table. -/
def bodyBytes (parts : ClassParts) : Bytes :=
  writeU2 parts.access ++
    (writeU2 parts.thisClass ++
      (writeU2 parts.superClass ++
        (countedBytes writeU2 parts.interfaces ++
          (countedBytes MemberPart.bytes parts.fields ++
            (countedBytes MemberPart.bytes parts.methods ++
              countedBytes AttributePart.bytes parts.attributes)))))

/-- The bytes that follow the first four, which are the same in every file. -/
def laterBytes (parts : ClassParts) : Bytes :=
  writeU2 parts.minorVersion ++
    (writeU2 parts.majorVersion ++ (parts.constants ++ parts.bodyBytes))

def bytes (parts : ClassParts) : Bytes :=
  writeU4 magic ++ parts.laterBytes

/-- The parts of a class with a given constant table fit the format. -/
structure Fits
    (parts : ClassParts)
    (pool : ConstantPool) :
    Prop where
  constants : Reads ConstantPool.read parts.constants pool
  interfaces : parts.interfaces.length ≤ 65535
  fields : FitsCounted MemberPart.Fits parts.fields
  methods : FitsCounted MemberPart.Fits parts.methods
  attributes : FitsCounted AttributePart.Fits parts.attributes

end ClassParts

/-! ## One way at most -/

/-- What is read off the front of the same bytes is the same. -/
theorem Reads.append_inj
    {read : Read α}
    {bytes other rest more : Bytes}
    {value another : α}
    (reads : Reads read bytes value)
    (also : Reads read other another)
    (same : bytes ++ rest = other ++ more) :
    value = another ∧ bytes = other ∧ rest = more := by
  have result := reads rest
  rw [same, also more] at result
  obtain ⟨rfl, rfl⟩ := Prod.mk.inj (Except.ok.inj result)
  exact ⟨rfl, List.append_cancel_right same, rfl⟩

/-- Parts that are told by their bytes, whatever comes after. -/
def Told
    (bytes : α → Bytes)
    (Fits : α → Prop) :
    Prop :=
  ∀ part other rest more,
    Fits part → Fits other → bytes part ++ rest = bytes other ++ more →
      part = other ∧ rest = more

/-- Two bytes tell their number. -/
theorem told_u2 :
    Told writeU2 fun _ => True := by
  intro value other rest more _ _ same
  obtain ⟨rfl, -, rfl⟩ := (reads_u2 value).append_inj (reads_u2 other) same
  exact ⟨rfl, rfl⟩

/-- Parts in a row are told if each of them is. -/
theorem told_flatMap
    {bytes : α → Bytes}
    {Fits : α → Prop}
    (told : Told bytes Fits)
    {parts others : List α}
    {rest more : Bytes}
    (length : parts.length = others.length)
    (fits : ∀ part ∈ parts, Fits part)
    (alsoFits : ∀ part ∈ others, Fits part)
    (same : parts.flatMap bytes ++ rest = others.flatMap bytes ++ more) :
    parts = others ∧ rest = more := by
  induction parts generalizing others with
  | nil =>
      obtain rfl := List.eq_nil_of_length_eq_zero length.symm
      exact ⟨rfl, same⟩
  | cons part parts inductionHypothesis =>
      cases others with
      | nil =>
          cases length
      | cons other others =>
          rw [List.forall_mem_cons] at fits alsoFits
          rw [List.flatMap_cons, List.flatMap_cons, List.append_assoc,
            List.append_assoc] at same
          obtain ⟨rfl, left⟩ := told _ _ _ _ fits.1 alsoFits.1 same
          obtain ⟨rfl, rfl⟩ := inductionHypothesis (Nat.succ.inj length) fits.2
            alsoFits.2 left
          exact ⟨rfl, rfl⟩

/-- The length in front of a list tells where it ends. -/
theorem told_counted
    {bytes : α → Bytes}
    {Fits : α → Prop}
    (told : Told bytes Fits) :
    Told (countedBytes bytes) (FitsCounted Fits) := by
  intro parts others rest more fits alsoFits same
  rw [countedBytes, countedBytes, List.append_assoc, List.append_assoc] at same
  obtain ⟨count, left⟩ := told_u2 _ _ _ _ trivial trivial same
  have length : parts.length = others.length := by
    rw [← toNat_count16 fits.count, count, toNat_count16 alsoFits.count]
  exact told_flatMap told length fits.each alsoFits.each left

/-- An attribute is told by its name, length and content. -/
theorem told_attribute :
    Told AttributePart.bytes AttributePart.Fits := by
  rintro ⟨nameIndex, content⟩ ⟨otherIndex, otherContent⟩ rest more fits alsoFits
    same
  simp only [AttributePart.bytes, List.append_assoc] at same
  obtain ⟨rfl, left⟩ := told_u2 _ _ _ _ trivial trivial same
  obtain ⟨count, -, left⟩ := (reads_u4 _).append_inj (reads_u4 _) left
  have length : content.length = otherContent.length := by
    have numbers := congrArg UInt32.toNat count
    rwa [UInt32.toNat_ofNat', UInt32.toNat_ofNat', Nat.mod_eq_of_lt fits,
      Nat.mod_eq_of_lt alsoFits] at numbers
  obtain ⟨rfl, rfl⟩ := List.append_inj left length
  exact ⟨rfl, rfl⟩

/-- A member is told by its head and its attributes. -/
theorem told_member :
    Told MemberPart.bytes MemberPart.Fits := by
  rintro ⟨_, _, _, attributes⟩ ⟨_, _, _, others⟩ rest more fits alsoFits same
  simp only [MemberPart.bytes, List.append_assoc] at same
  obtain ⟨rfl, afterAccess⟩ := told_u2 _ _ _ _ trivial trivial same
  obtain ⟨rfl, afterName⟩ := told_u2 _ _ _ _ trivial trivial afterAccess
  obtain ⟨rfl, afterDescriptor⟩ := told_u2 _ _ _ _ trivial trivial afterName
  obtain ⟨rfl, rfl⟩ :=
    told_counted told_attribute _ _ _ _ fits alsoFits afterDescriptor
  exact ⟨rfl, rfl⟩

/-- The parts of a class are told by their bytes. -/
theorem ClassParts.Fits.told
    {parts others : ClassParts}
    {pool other : ConstantPool}
    {rest more : Bytes}
    (fits : parts.Fits pool)
    (alsoFits : others.Fits other)
    (same : parts.bytes ++ rest = others.bytes ++ more) :
    parts = others ∧ pool = other ∧ rest = more := by
  obtain ⟨_, _, _, _, _, _, _, _, _, _⟩ := parts
  obtain ⟨_, _, _, _, _, _, _, _, _, _⟩ := others
  simp only [bytes, laterBytes, bodyBytes, List.append_assoc] at same
  have afterMagic := List.append_cancel_left same
  obtain ⟨rfl, afterMinor⟩ := told_u2 _ _ _ _ trivial trivial afterMagic
  obtain ⟨rfl, afterMajor⟩ := told_u2 _ _ _ _ trivial trivial afterMinor
  obtain ⟨rfl, rfl, afterConstants⟩ :=
    fits.constants.append_inj alsoFits.constants afterMajor
  obtain ⟨rfl, afterAccess⟩ := told_u2 _ _ _ _ trivial trivial afterConstants
  obtain ⟨rfl, afterThis⟩ := told_u2 _ _ _ _ trivial trivial afterAccess
  obtain ⟨rfl, afterSuper⟩ := told_u2 _ _ _ _ trivial trivial afterThis
  obtain ⟨rfl, afterInterfaces⟩ :=
    told_counted told_u2 _ _ _ _ ⟨fits.interfaces, fun _ _ => trivial⟩
      ⟨alsoFits.interfaces, fun _ _ => trivial⟩ afterSuper
  obtain ⟨rfl, afterFields⟩ :=
    told_counted told_member _ _ _ _ fits.fields alsoFits.fields afterInterfaces
  obtain ⟨rfl, afterMethods⟩ :=
    told_counted told_member _ _ _ _ fits.methods alsoFits.methods afterFields
  obtain ⟨rfl, rfl⟩ :=
    told_counted told_attribute _ _ _ _ fits.attributes alsoFits.attributes
      afterMethods
  exact ⟨rfl, rfl, rfl⟩

/-! ## One way at least -/

/-- Two bytes are those of the number they are joined to. -/
theorem writeU2_join
    (a b : UInt8) :
    writeU2 (a.toUInt16 <<< 8 ||| b.toUInt16) = [a, b] := by
  have firstSmall := a.toNat_lt
  have secondSmall := b.toNat_lt
  have first : (a.toUInt16 <<< 8).toNat = a.toNat <<< 8 := by
    simp [Nat.shiftLeft_eq]
    omega
  have number :
      (a.toUInt16 <<< 8 ||| b.toUInt16).toNat = a.toNat * 256 + b.toNat := by
    rw [UInt16.toNat_or, first, UInt8.toNat_toUInt16,
      ← Nat.shiftLeft_add_eq_or_of_lt secondSmall, Nat.shiftLeft_eq]
  simp only [writeU2, List.cons.injEq, ← UInt8.toNat_inj,
    UInt16.toNat_toUInt8, UInt16.toNat_shiftRight, number, and_true]
  simp
  omega

/-- Four bytes are those of the number they are joined to. -/
theorem writeU4_join
    (a b c d : UInt8) :
    writeU4
        (a.toUInt32 <<< 24 ||| b.toUInt32 <<< 16 ||| c.toUInt32 <<< 8 |||
          d.toUInt32) =
      [a, b, c, d] := by
  have firstSmall := a.toNat_lt
  have secondSmall := b.toNat_lt
  have thirdSmall := c.toNat_lt
  have fourthSmall := d.toNat_lt
  have first : (a.toUInt32 <<< 24).toNat = a.toNat <<< 24 := by
    simp [Nat.shiftLeft_eq]
    omega
  have second : (b.toUInt32 <<< 16).toNat = b.toNat <<< 16 := by
    simp [Nat.shiftLeft_eq]
    omega
  have third : (c.toUInt32 <<< 8).toNat = c.toNat <<< 8 := by
    simp [Nat.shiftLeft_eq]
    omega
  have upper :
      a.toNat <<< 24 ||| b.toNat <<< 16 = (a.toNat * 256 + b.toNat) <<< 16 := by
    rw [← Nat.shiftLeft_add_eq_or_of_lt]
    all_goals omega
  have middle :
      (a.toNat * 256 + b.toNat) <<< 16 ||| c.toNat <<< 8 =
        ((a.toNat * 256 + b.toNat) * 256 + c.toNat) <<< 8 := by
    rw [← Nat.shiftLeft_add_eq_or_of_lt]
    all_goals omega
  have number :
      (a.toUInt32 <<< 24 ||| b.toUInt32 <<< 16 ||| c.toUInt32 <<< 8 |||
          d.toUInt32).toNat =
        ((a.toNat * 256 + b.toNat) * 256 + c.toNat) * 256 + d.toNat := by
    rw [UInt32.toNat_or, UInt32.toNat_or, UInt32.toNat_or, first, second, third,
      UInt8.toNat_toUInt32, upper, middle,
      ← Nat.shiftLeft_add_eq_or_of_lt fourthSmall, Nat.shiftLeft_eq]
  simp only [writeU4, List.cons.injEq, ← UInt8.toNat_inj,
    UInt32.toNat_toUInt8, UInt32.toNat_shiftRight, number, and_true]
  simp
  omega

/-- Two bytes were read where a number was read. -/
theorem writeU2_of_readU2
    {bytes rest : Bytes}
    {value : UInt16}
    (succeeded : readU2.run bytes = .ok (value, rest)) :
    bytes = writeU2 value ++ rest := by
  match bytes with
  | [] | [_] =>
      cases succeeded
  | a :: b :: tail =>
      cases succeeded
      rw [writeU2_join]
      rfl

/-- Four bytes were read where a number was read. -/
theorem writeU4_of_readU4
    {bytes rest : Bytes}
    {value : UInt32}
    (succeeded : readU4.run bytes = .ok (value, rest)) :
    bytes = writeU4 value ++ rest := by
  match bytes with
  | [] | [_] | [_, _] | [_, _, _] =>
      cases succeeded
  | a :: b :: c :: d :: tail =>
      cases succeeded
      rw [writeU4_join]
      rfl

/-- Whenever a reader succeeds, it has taken a part off the front. -/
def TakesPart
    (read : Read α)
    (bytes : β → Bytes)
    (Fits : β → Prop) :
    Prop :=
  ∀ given value rest,
    read.run given = .ok (value, rest) →
      ∃ part, Fits part ∧ given = bytes part ++ rest

/-- A number in two bytes is taken as a part. -/
theorem takesPart_u2 :
    TakesPart readU2 writeU2 fun _ => True :=
  fun _ value _ succeeded => ⟨value, trivial, writeU2_of_readU2 succeeded⟩

/-- A run of parts is taken part by part. -/
theorem takesPart_many
    {step : Read α}
    {bytes : β → Bytes}
    {Fits : β → Prop}
    (each : TakesPart step bytes Fits)
    (count : Nat) :
    TakesPart (readMany step count) (List.flatMap bytes)
      fun parts => parts.length = count ∧ ∀ part ∈ parts, Fits part := by
  induction count with
  | zero =>
      intro given items rest succeeded
      cases succeeded
      exact ⟨[], ⟨rfl, by simp⟩, rfl⟩
  | succ count inductionHypothesis =>
      intro given items rest succeeded
      obtain ⟨first, middle, read, succeeded⟩ := exists_of_run_bind succeeded
      obtain ⟨others, final, readMore, succeeded⟩ :=
        exists_of_run_bind succeeded
      cases succeeded
      obtain ⟨part, fits, rfl⟩ := each _ _ _ read
      obtain ⟨parts, ⟨rfl, fitsMore⟩, rfl⟩ := inductionHypothesis _ _ _ readMore
      refine ⟨part :: parts, ⟨rfl, ?_⟩, ?_⟩
      · exact List.forall_mem_cons.mpr ⟨fits, fitsMore⟩
      · rw [List.flatMap_cons, List.append_assoc]

/-- A list that is preceded by its length. -/
theorem takesPart_counted
    {step : Read α}
    {bytes : β → Bytes}
    {Fits : β → Prop}
    (each : TakesPart step bytes Fits) :
    TakesPart
      (do
        let count ← readU2
        readMany step count.toNat)
      (countedBytes bytes) (FitsCounted Fits) := by
  intro given items rest succeeded
  obtain ⟨count, _, readCount, readItems⟩ := exists_of_run_bind succeeded
  obtain ⟨parts, ⟨length, fits⟩, rfl⟩ :=
    takesPart_many each count.toNat _ _ _ readItems
  have small := count.toNat_lt
  refine ⟨parts, ⟨by omega, fits⟩, ?_⟩
  rw [writeU2_of_readU2 readCount, countedBytes, count16, length,
    UInt16.ofNat_toNat, List.append_assoc]

/-- A list that is preceded by its length, and what follows it. -/
theorem exists_of_run_counted
    {step : Read α}
    {bytes : β → Bytes}
    {Fits : β → Prop}
    {next : List α → Read γ}
    {given rest : Bytes}
    {value : γ}
    (each : TakesPart step bytes Fits)
    (succeeded :
      (do
        let count ← readU2
        let items ← readMany step count.toNat
        next items : Read γ).run given = .ok (value, rest)) :
    ∃ parts items middle,
      FitsCounted Fits parts ∧
        given = countedBytes bytes parts ++ middle ∧
        (next items).run middle = .ok (value, rest) := by
  rw [← bind_assoc] at succeeded
  obtain ⟨items, middle, readItems, ended⟩ := exists_of_run_bind succeeded
  obtain ⟨parts, fits, whole⟩ := takesPart_counted each _ _ _ readItems
  exact ⟨parts, items, middle, fits, whole, ended⟩

/-- Bytes were taken off the front where bytes were read. -/
theorem append_of_readBytes
    {count : Nat}
    {bytes front rest : Bytes}
    (succeeded : (readBytes count).run bytes = .ok (front, rest)) :
    bytes = front ++ rest ∧ front.length = count := by
  change readBytes count bytes = _ at succeeded
  unfold readBytes at succeeded
  split at succeeded
  · next split =>
      obtain rfl := Except.ok.inj succeeded
      exact append_of_splitBytes? split
  · cases succeeded

/-- An attribute is taken as a part. -/
theorem takesPart_plain
    (pool : ConstantPool) :
    TakesPart (readPlain pool) AttributePart.bytes AttributePart.Fits := by
  intro given plain rest succeeded
  obtain ⟨nameIndex, _, readName, afterName⟩ := exists_of_run_bind succeeded
  obtain ⟨length, _, readLength, afterLength⟩ := exists_of_run_bind afterName
  obtain ⟨content, _, readContent, afterContent⟩ :=
    exists_of_run_bind afterLength
  obtain ⟨name, _, readText, ended⟩ := exists_of_run_bind afterContent
  cases ended
  have stays := pool.still_get _ nameIndex _ _ _ readText
  obtain ⟨whole, count⟩ := append_of_readBytes readContent
  refine ⟨⟨nameIndex, content⟩, ?_, ?_⟩
  · rw [AttributePart.Fits, count]
    exact length.toNat_lt
  · rw [writeU2_of_readU2 readName, writeU4_of_readU4 readLength, whole, ← stays]
    simp only [AttributePart.bytes, count, UInt32.ofNat_toNat, List.append_assoc]

/-- Attributes behind their count are taken as parts. -/
theorem takesPart_plains
    (pool : ConstantPool) :
    TakesPart (readPlains pool) (countedBytes AttributePart.bytes)
      (FitsCounted AttributePart.Fits) :=
  takesPart_counted (takesPart_plain pool)

/-- A member is taken as a part, with its attributes. -/
theorem takesPart_plainMember
    (pool : ConstantPool) :
    TakesPart (readPlainMember pool) MemberPart.bytes MemberPart.Fits := by
  intro given plains rest succeeded
  obtain ⟨access, _, readAccess, afterAccess⟩ := exists_of_run_bind succeeded
  obtain ⟨nameIndex, _, readName, afterName⟩ := exists_of_run_bind afterAccess
  obtain ⟨descriptorIndex, _, readDescriptor, afterDescriptor⟩ :=
    exists_of_run_bind afterName
  obtain ⟨attributes, fits, rfl⟩ := takesPart_plains pool _ _ _ afterDescriptor
  refine ⟨⟨access, nameIndex, descriptorIndex, attributes⟩, fits, ?_⟩
  rw [writeU2_of_readU2 readAccess, writeU2_of_readU2 readName,
    writeU2_of_readU2 readDescriptor]
  simp only [MemberPart.bytes, List.append_assoc]

/-- What is taken apart is made up of parts, whatever its first four bytes. -/
theorem exists_parts_of_readLayout
    {given rest : Bytes}
    {layout : Layout}
    (succeeded : readLayout.run given = .ok (layout, rest)) :
    ∃ start parts,
      ClassParts.Fits parts layout.pool ∧
        given = writeU4 start ++ (parts.laterBytes ++ rest) := by
  obtain ⟨start, _, readStart, afterStart⟩ := exists_of_run_bind succeeded
  obtain ⟨minorVersion, _, readMinor, afterMinor⟩ :=
    exists_of_run_bind afterStart
  obtain ⟨majorVersion, _, readMajor, afterMajor⟩ :=
    exists_of_run_bind afterMinor
  obtain ⟨pool, _, readPool, afterPool⟩ := exists_of_run_bind afterMajor
  obtain ⟨constants, rfl, consumed⟩ :=
    ConstantPool.selfDelimiting_read _ _ _ readPool
  obtain ⟨access, _, readAccess, afterAccess⟩ := exists_of_run_bind afterPool
  obtain ⟨thisClass, _, readThis, afterThis⟩ := exists_of_run_bind afterAccess
  obtain ⟨superClass, _, readSuper, afterSuper⟩ := exists_of_run_bind afterThis
  obtain ⟨interfaces, _, _, fitInterfaces, rfl, afterInterfaces⟩ :=
    exists_of_run_counted takesPart_u2 afterSuper
  obtain ⟨fields, _, _, fitFields, rfl, afterFields⟩ :=
    exists_of_run_counted (takesPart_plainMember pool) afterInterfaces
  obtain ⟨methods, _, _, fitMethods, rfl, afterMethods⟩ :=
    exists_of_run_counted (takesPart_plainMember pool) afterFields
  obtain ⟨_, _, readAttributes, ended⟩ := exists_of_run_bind afterMethods
  obtain ⟨attributes, fitAttributes, rfl⟩ :=
    takesPart_plains pool _ _ _ readAttributes
  cases ended
  refine ⟨start,
    ⟨minorVersion, majorVersion, constants, access, thisClass, superClass,
      interfaces, fields, methods, attributes⟩,
    ⟨consumed.reads, fitInterfaces.count, fitFields, fitMethods,
      fitAttributes⟩, ?_⟩
  rw [writeU4_of_readU4 readStart, writeU2_of_readU2 readMinor,
    writeU2_of_readU2 readMajor, writeU2_of_readU2 readAccess,
    writeU2_of_readU2 readThis, writeU2_of_readU2 readSuper]
  simp only [ClassParts.laterBytes, ClassParts.bodyBytes, List.append_assoc]

/-- A file that can be decoded starts as every class file does. -/
theorem start_eq_magic
    {start : UInt32}
    {more rest : Bytes}
    {decl : ClassDecl}
    (succeeded : readClass.run (writeU4 start ++ more) = .ok (decl, rest)) :
    start = magic := by
  obtain ⟨_, _, readStart, afterStart⟩ := exists_of_run_bind succeeded
  rw [reads_u4 start more] at readStart
  cases readStart
  dsimp only at afterStart
  split at afterStart
  · assumption
  · cases afterStart

/-- A byte string, the parts of the class it starts with, and what follows. -/
structure IsMadeUpOf
    (bytes : Bytes)
    (parts : ClassParts)
    (pool : ConstantPool)
    (rest : Bytes) :
    Prop where
  fits : parts.Fits pool
  whole : bytes = parts.bytes ++ rest

/-- A byte string that can be decoded is made up of parts, in one way. -/
theorem existsUnique_parts_of_decode
    {bytes : Bytes}
    {decl : ClassDecl}
    (decoded : decode bytes = .ok decl) :
    ∃! whole : ClassParts × ConstantPool × Bytes,
      IsMadeUpOf bytes whole.1 whole.2.1 whole.2.2 := by
  unfold decode at decoded
  cases read : readClass.run bytes with
  | error fault =>
      rw [read] at decoded
      cases decoded
  | ok result =>
      obtain ⟨_, rest⟩ := result
      obtain ⟨layout, taken, -⟩ := readClass_alongside _ _ _ read
      obtain ⟨start, parts, fits, rfl⟩ := exists_parts_of_readLayout taken
      obtain rfl := start_eq_magic read
      refine ⟨(parts, layout.pool, rest), ⟨fits, ?_⟩, ?_⟩
      · rw [ClassParts.bytes, List.append_assoc]
      · rintro ⟨others, other, more⟩ ⟨alsoFits, whole⟩
        rw [← List.append_assoc] at whole
        obtain ⟨rfl, rfl, rfl⟩ := alsoFits.told fits whole.symm
        rfl

end TypeAtlas.ClassFile
