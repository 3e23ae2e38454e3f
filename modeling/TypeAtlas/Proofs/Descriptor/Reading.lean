import Mathlib.Data.List.Forall2
import Mathlib.Data.List.TakeWhile
import TypeAtlas.Descriptor.Parser

namespace TypeAtlas

/-!
# What descriptors are read from

A descriptor that can be read has been written by a simple rule: a run of
square brackets, then a tag, or a class name between `L` and a semicolon. This
module writes the rule down as a relation between texts and types, for methods
too, and says that reading keeps to it.
-/

/-- A tag stands for one primitive type. -/
theorem BaseType.tag_of_ofTag?
    {c : Char}
    {type : BaseType}
    (tagged : BaseType.ofTag? c = some type) :
    type.tag = c := by
  have found := List.find?_some tagged
  simpa using found

/-- Two readings one after the other. -/
theorem exists_of_bind_eq_ok
    {first : Except ε α}
    {next : α → Except ε β}
    {answer : β}
    (read : (first >>= next) = .ok answer) :
    ∃ value, first = .ok value ∧ next value = .ok answer := by
  cases first with
  | error fault =>
      cases read
  | ok value =>
      exact ⟨value, rfl, read⟩

namespace Descriptor

/-! ## Types -/

/-- The text of a type that is not an array. -/
inductive WritesElement : List Char → Descriptor → Prop where
  | base (type : BaseType) :
      WritesElement [type.tag] (.base type)
  | object
      {name : List Char} :
      name ≠ [] →
      ';' ∉ name →
      WritesElement ('L' :: name ++ [';'])
        (.object (TypeName.ofInternal (String.ofList name)))

/-- The text of a type, with one bracket for each dimension of an array. -/
inductive Writes : List Char → Descriptor → Prop where
  | element
      {text : List Char}
      {type : Descriptor} :
      WritesElement text type →
      Writes text type
  | array
      {text : List Char}
      {type : Descriptor}
      {dimensions : Nat} :
      dimensions ≠ 0 →
      WritesElement text type →
      Writes (List.replicate dimensions '[' ++ text) (.array type dimensions)

/-- What is read behind an L is written as a class type. -/
theorem scanObject_writes
    {cs rest : List Char}
    {type : Descriptor}
    (scanned : scanObject cs = .ok (type, rest)) :
    ∃ text, 'L' :: cs = text ++ rest ∧ WritesElement text type := by
  have whole := List.takeWhile_append_dropWhile (p := (· != ';')) (l := cs)
  have ended : ';' ∉ cs.takeWhile (· != ';') := by
    intro member
    simpa using List.mem_takeWhile_imp member
  have stopped := List.head?_dropWhile_not (· != ';') cs
  unfold scanObject at scanned
  cases left : cs.dropWhile (· != ';') with
  | nil =>
      simp [left] at scanned
  | cons c tail =>
      obtain rfl : c = ';' := by simpa [left] using stopped
      by_cases empty : cs.takeWhile (· != ';') = []
      · simp [left, empty] at scanned
      · simp only [left, List.isEmpty_iff, empty, if_false, Except.ok.injEq,
          Prod.mk.injEq] at scanned
        obtain ⟨rfl, rfl⟩ := scanned
        refine ⟨_, ?_, .object empty ended⟩
        rw [left] at whole
        simp [whole]

/-- What is read as an element is written as one. -/
theorem scanElement_writes
    {cs rest : List Char}
    {type : Descriptor}
    (scanned : scanElement cs = .ok (type, rest)) :
    ∃ text, cs = text ++ rest ∧ WritesElement text type := by
  cases cs with
  | nil =>
      simp [scanElement] at scanned
  | cons c tail =>
      unfold scanElement at scanned
      cases tagged : BaseType.ofTag? c with
      | some base =>
          simp only [tagged, Except.ok.injEq, Prod.mk.injEq] at scanned
          obtain ⟨rfl, rfl⟩ := scanned
          refine ⟨[base.tag], ?_, .base base⟩
          rw [BaseType.tag_of_ofTag? tagged, List.singleton_append]
      | none =>
          simp only [tagged] at scanned
          split at scanned
          · next isClass =>
              subst isClass
              exact scanObject_writes scanned
          · simp at scanned

/-- What is read as a type is the text of that type. -/
theorem scan_writes
    {cs rest : List Char}
    {type : Descriptor}
    (scanned : scan cs = .ok (type, rest)) :
    ∃ text, cs = text ++ rest ∧ Writes text type := by
  let brackets := cs.takeWhile (· == '[')
  have whole : brackets ++ cs.dropWhile (· == '[') = cs :=
    List.takeWhile_append_dropWhile
  have bracket :
      brackets = List.replicate brackets.length '[' := by
    refine List.eq_replicate_of_mem fun c member => ?_
    simpa using List.mem_takeWhile_imp member
  obtain ⟨⟨element, left⟩, inner, last⟩ := exists_of_bind_eq_ok scanned
  obtain ⟨shape, rfl⟩ := Prod.mk.inj (Except.ok.inj last)
  obtain ⟨text, split, written⟩ := scanElement_writes inner
  rw [split] at whole
  by_cases flat : brackets.length = 0
  · rw [List.eq_nil_of_length_eq_zero flat, List.nil_append] at whole
    refine ⟨text, whole.symm, ?_⟩
    rw [← shape, if_pos flat]
    exact .element written
  · refine ⟨brackets ++ text, ?_, ?_⟩
    · rw [List.append_assoc, whole]
    · rw [← shape, if_neg flat, bracket]
      exact .array flat written

/-- A text that parses as a descriptor is written as that descriptor. -/
theorem parse_writes
    {text : String}
    {type : Descriptor}
    (parsed : parse text = .ok type) :
    Writes text.toList type := by
  unfold parse at parsed
  split at parsed
  · simp at parsed
  · next read scanned =>
      obtain ⟨written, split, writes⟩ := scan_writes scanned
      obtain rfl : read = type := by simpa using parsed
      rwa [split, List.append_nil]
  · simp at parsed

end Descriptor

namespace MethodDescriptor

/-! ## Methods -/

/-- The text of a result, where `V` stands for none. -/
inductive WritesResult : List Char → Option Descriptor → Prop where
  | none :
      WritesResult ['V'] none
  | some
      {text : List Char}
      {type : Descriptor} :
      type.Writes text →
      WritesResult text (some type)

/-- The text of a method: the types of its parameters, then its result. -/
inductive Writes : List Char → MethodDescriptor → Prop where
  | method
      {texts : List (List Char)}
      {result : List Char}
      {type : MethodDescriptor} :
      List.Forall₂ Descriptor.Writes texts type.parameters →
      WritesResult result type.result →
      Writes ('(' :: texts.flatten ++ ')' :: result) type

/-- What is read as parameters is written as types, one behind the other. -/
theorem scanParameters_writes
    {cs rest : List Char}
    {types : List Descriptor}
    (scanned : scanParameters cs = .ok (types, rest)) :
    ∃ texts,
      cs = texts.flatten ++ ')' :: rest ∧
        List.Forall₂ Descriptor.Writes texts types := by
  fun_induction scanParameters cs generalizing types rest with
  | case1 =>
      simp at scanned
  | case2 tail =>
      obtain ⟨rfl, rfl⟩ := Prod.mk.inj (Except.ok.inj scanned)
      exact ⟨[], rfl, .nil⟩
  | case3 | case4 =>
      simp at scanned
  | case5 c tail _ type left scannedFirst more further read
      inductionHypothesis =>
      obtain ⟨rfl, rfl⟩ := Prod.mk.inj (Except.ok.inj scanned)
      obtain ⟨text, split, written⟩ := Descriptor.scan_writes scannedFirst
      obtain ⟨texts, splitRest, writtenRest⟩ := inductionHypothesis read
      refine ⟨text :: texts, ?_, .cons written writtenRest⟩
      rw [split, splitRest, List.flatten_cons, List.append_assoc]

/-- What is read as a result is written as a type or as V. -/
theorem scanResult_writes
    {cs rest : List Char}
    {result : Option Descriptor}
    (scanned : scanResult cs = .ok (result, rest)) :
    ∃ text, cs = text ++ rest ∧ WritesResult text result := by
  unfold scanResult at scanned
  split at scanned
  · simp at scanned
  · obtain ⟨rfl, rfl⟩ := Prod.mk.inj (Except.ok.inj scanned)
    exact ⟨['V'], rfl, .none⟩
  · obtain ⟨⟨type, left⟩, inner, last⟩ := exists_of_bind_eq_ok scanned
    obtain ⟨rfl, rfl⟩ := Prod.mk.inj (Except.ok.inj last)
    obtain ⟨text, split, written⟩ := Descriptor.scan_writes inner
    exact ⟨text, split, .some written⟩

/-- What is read as a method descriptor is written as one. -/
theorem scan_writes
    {cs rest : List Char}
    {type : MethodDescriptor}
    (scanned : scan cs = .ok (type, rest)) :
    ∃ text, cs = text ++ rest ∧ Writes text type := by
  unfold scan at scanned
  split at scanned
  · simp at scanned
  · next tail =>
      obtain ⟨⟨parameters, left⟩, inner, later⟩ := exists_of_bind_eq_ok scanned
      obtain ⟨⟨result, further⟩, last, made⟩ := exists_of_bind_eq_ok later
      obtain ⟨rfl, rfl⟩ := Prod.mk.inj (Except.ok.inj made)
      obtain ⟨texts, split, written⟩ := scanParameters_writes inner
      obtain ⟨text, splitLast, writtenLast⟩ := scanResult_writes last
      refine ⟨_, ?_, .method written writtenLast⟩
      simp [split, splitLast]
  · simp at scanned

/-- What is read as the type of a method is the text of it. -/
theorem parse_writes
    {text : String}
    {type : MethodDescriptor}
    (parsed : parse text = .ok type) :
    Writes text.toList type := by
  unfold parse at parsed
  split at parsed
  · simp at parsed
  · next read scanned =>
      obtain ⟨written, split, writes⟩ := scan_writes scanned
      obtain rfl : read = type := by simpa using parsed
      rwa [split, List.append_nil]
  · simp at parsed

end MethodDescriptor

end TypeAtlas
