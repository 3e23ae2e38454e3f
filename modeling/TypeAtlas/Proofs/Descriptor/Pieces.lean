import TypeAtlas.Proofs.Descriptor.Printing

namespace TypeAtlas

/-!
# Taking method descriptors apart

A method descriptor is put together from the texts of types, with nothing
between them, although a class name may hold brackets, tags and a `V` of its
own. It can be taken apart in one way only: no text of a type is the beginning
of another, and none begins with the bracket that closes the parameters. So the
reader, which takes type after type off the front, finds the pieces that the
descriptor was put together from.
-/

namespace Descriptor

/-- No type can be read from a closing bracket on. -/
theorem scan_close
    (rest : List Char) :
    scan (')' :: rest) = .error (.unexpectedTag ')') :=
  rfl

/-- Neither from the letter that stands for no result. -/
theorem scan_void
    (rest : List Char) :
    scan ('V' :: rest) = .error (.unexpectedTag 'V') :=
  rfl

/-- No text of a type is the beginning of the text of another type. -/
theorem Writes.append_inj
    {text other rest more : List Char}
    {type another : Descriptor}
    (written : Writes text type)
    (also : Writes other another)
    (same : text ++ rest = other ++ more) :
    text = other ∧ rest = more := by
  have scanned := written.scan_append rest
  rw [same, also.scan_append more] at scanned
  obtain ⟨-, rfl⟩ := Prod.mk.inj (Except.ok.inj scanned)
  exact ⟨List.append_cancel_right same, rfl⟩

theorem Writes.append_ne_close
    {text : List Char}
    {type : Descriptor}
    (written : Writes text type)
    (rest more : List Char) :
    text ++ rest ≠ ')' :: more := by
  intro same
  have scanned := written.scan_append rest
  rw [same, scan_close] at scanned
  cases scanned

end Descriptor

namespace MethodDescriptor

/-! ## Reading what is written -/

/-- A type is taken off the front of the parameters. -/
theorem scanParameters_of_scan
    {cs left rest : List Char}
    {type : Descriptor}
    {types : List Descriptor}
    (scanned : Descriptor.scan cs = .ok (type, left))
    (following : scanParameters left = .ok (types, rest)) :
    scanParameters cs = .ok (type :: types, rest) := by
  fun_cases scanParameters cs with
  | case1 =>
      cases scanned
  | case2 tail =>
      rw [Descriptor.scan_close] at scanned
      cases scanned
  | case3 c tail _ fault failed =>
      rw [failed] at scanned
      cases scanned
  | case4 c tail _ first after found fault failed =>
      rw [found] at scanned
      cases scanned
      rw [failed] at following
      cases following
  | case5 c tail _ first after found others final read =>
      rw [found] at scanned
      cases scanned
      rw [read] at following
      cases following
      rfl

theorem scanParameters_append
    {texts : List (List Char)}
    {types : List Descriptor}
    (written : List.Forall₂ Descriptor.Writes texts types)
    (rest : List Char) :
    scanParameters (texts.flatten ++ ')' :: rest) = .ok (types, rest) := by
  induction written with
  | nil =>
      simp [scanParameters]
  | cons first _ inductionHypothesis =>
      rw [List.flatten_cons, List.append_assoc]
      exact scanParameters_of_scan (first.scan_append _) inductionHypothesis

theorem scanResult_append
    {text : List Char}
    {result : Option Descriptor}
    (written : WritesResult text result)
    (rest : List Char) :
    scanResult (text ++ rest) = .ok (result, rest) := by
  cases written with
  | none =>
      rfl
  | some written =>
      have scanned := written.scan_append rest
      unfold scanResult
      split
      · next empty =>
          rw [empty] at scanned
          cases scanned
      · next isVoid =>
          rw [isVoid, Descriptor.scan_void] at scanned
          cases scanned
      · rw [scanned]
        rfl

/-- The texts that can be read, and what they are read as. -/
theorem parse_eq_ok_iff
    {text : String}
    {method : MethodDescriptor} :
    parse text = .ok method ↔ Writes text.toList method := by
  refine ⟨parse_writes, fun written => ?_⟩
  generalize shape : text.toList = cs at written
  cases written with
  | @method texts result _ parameters ending =>
      have ended := scanResult_append ending []
      rw [List.append_nil] at ended
      have scanned : scan text.toList = .ok (method, []) := by
        simp only [shape, List.cons_append, scan,
          scanParameters_append parameters, bind, Except.bind, ended]
        rfl
      simp [parse, scanned]

/-! ## Pieces -/

/-- The texts of the parameters and of the result. -/
structure Pieces where
  parameters : List String
  result : String
  deriving Repr, DecidableEq

namespace Pieces

/-- The pieces put together. -/
def text (pieces : Pieces) : String :=
  "(" ++ String.join pieces.parameters ++ ")" ++ pieces.result

/--
Every piece can be read as the type that the method has in its place, where `V`
is the piece of a method without a result.
-/
structure AreOf
    (pieces : Pieces)
    (method : MethodDescriptor) :
    Prop where
  parameters :
    List.Forall₂ (fun piece type => Descriptor.parse piece = .ok type)
      pieces.parameters method.parameters
  result :
    pieces.result = "V" ∧ method.result = none ∨
      ∃ type,
        Descriptor.parse pieces.result = .ok type ∧ method.result = some type

theorem toList_text
    (pieces : Pieces) :
    pieces.text.toList =
      '(' :: (pieces.parameters.map String.toList).flatten ++
        ')' :: pieces.result.toList := by
  simp [text, String.toList_join, List.flatMap_def]

/-- Each parameter of a method is written as its piece. -/
theorem AreOf.writes_parameters
    {pieces : Pieces}
    {method : MethodDescriptor}
    (areOf : pieces.AreOf method) :
    List.Forall₂ Descriptor.Writes (pieces.parameters.map String.toList)
      method.parameters := by
  rw [List.forall₂_map_left_iff]
  exact areOf.parameters.imp fun _ _ => Descriptor.parse_eq_ok_iff.mp

theorem AreOf.writes
    {pieces : Pieces}
    {method : MethodDescriptor}
    (areOf : pieces.AreOf method) :
    Writes pieces.text.toList method := by
  rw [toList_text]
  refine .method areOf.writes_parameters ?_
  rcases areOf.result with ⟨isVoid, none⟩ | ⟨type, parsed, some⟩
  · rw [isVoid, none]
    exact .none
  · rw [some]
    exact .some (Descriptor.parse_eq_ok_iff.mp parsed)

/-- What is written of a method is put together from pieces. -/
theorem exists_of_writes
    {cs : List Char}
    {method : MethodDescriptor}
    (written : Writes cs method) :
    ∃ pieces : Pieces, pieces.text.toList = cs ∧ pieces.AreOf method := by
  cases written with
  | @method texts result _ parameters ending =>
      have same : (texts.map String.ofList).map String.toList = texts := by
        simp
      refine ⟨⟨texts.map String.ofList, String.ofList result⟩, ?_, ?_, ?_⟩
      · rw [toList_text, same, String.toList_ofList]
      · rw [List.forall₂_map_left_iff]
        refine parameters.imp fun text type written => ?_
        rwa [Descriptor.parse_eq_ok_iff, String.toList_ofList]
      · generalize outcome : method.result = found at ending
        cases ending with
        | none =>
            exact .inl ⟨rfl, rfl⟩
        | @some _ type written =>
            refine .inr ⟨type, ?_, rfl⟩
            rwa [Descriptor.parse_eq_ok_iff, String.toList_ofList]

/-- Parameters that are put together end at the same bracket. -/
theorem flatten_inj
    {texts others : List (List Char)}
    {types moreTypes : List Descriptor}
    {rest more : List Char}
    (written : List.Forall₂ Descriptor.Writes texts types)
    (also : List.Forall₂ Descriptor.Writes others moreTypes)
    (same : texts.flatten ++ ')' :: rest = others.flatten ++ ')' :: more) :
    texts = others ∧ rest = more := by
  induction written generalizing others moreTypes with
  | nil =>
      cases also with
      | nil =>
          exact ⟨rfl, List.tail_eq_of_cons_eq same⟩
      | cons first _ =>
          rw [List.flatten_cons, List.append_assoc] at same
          exact absurd same.symm (first.append_ne_close _ _)
  | cons first _ inductionHypothesis =>
      rw [List.flatten_cons, List.append_assoc] at same
      cases also with
      | nil =>
          exact absurd same (first.append_ne_close _ _)
      | cons second moreAlso =>
          rw [List.flatten_cons, List.append_assoc] at same
          obtain ⟨rfl, left⟩ := first.append_inj second same
          obtain ⟨rfl, rfl⟩ := inductionHypothesis moreAlso left
          exact ⟨rfl, rfl⟩

/-- A text is put together from one list of pieces at most. -/
theorem AreOf.unique
    {pieces others : Pieces}
    {method another : MethodDescriptor}
    (areOf : pieces.AreOf method)
    (also : others.AreOf another)
    (same : pieces.text = others.text) :
    pieces = others := by
  have together := congrArg String.toList same
  rw [toList_text, toList_text, List.cons_append, List.cons_append,
    List.cons.injEq] at together
  obtain ⟨parameters, result⟩ :=
    flatten_inj areOf.writes_parameters also.writes_parameters together.2
  obtain ⟨_, _⟩ := pieces
  obtain ⟨_, _⟩ := others
  rw [Pieces.mk.injEq]
  exact ⟨List.map_injective_iff.mpr (fun _ _ => String.toList_inj.mp) parameters,
    String.toList_inj.mp result⟩

end Pieces

/--
A text is read as a method exactly if it can be taken apart into pieces that
are read as the types of the method, and there is no second way to take it
apart into pieces that can be read.
-/
theorem parse_takes_apart
    (text : String) :
    (∀ method,
      parse text = .ok method ↔
        ∃ pieces : Pieces, pieces.text = text ∧ pieces.AreOf method) ∧
      ∀ (pieces others : Pieces) (method another : MethodDescriptor),
        pieces.text = text → pieces.AreOf method →
          others.text = text → others.AreOf another → pieces = others := by
  refine ⟨fun method => ?_, fun pieces others method another => ?_⟩
  · rw [parse_eq_ok_iff]
    constructor
    · intro written
      obtain ⟨pieces, together, areOf⟩ := Pieces.exists_of_writes written
      exact ⟨pieces, String.toList_inj.mp together, areOf⟩
    · rintro ⟨pieces, rfl, areOf⟩
      exact areOf.writes
  · intro together areOf alsoTogether alsoAreOf
    exact areOf.unique alsoAreOf (together.trans alsoTogether.symm)

/-- A method with a class whose name could be a method descriptor itself. -/
def bracketedName : MethodDescriptor :=
  ⟨[.object "()V", .array (.base .int) 1], none⟩

/-- Brackets in a name do not end the parameters. -/
theorem parse_takes_apart_bracketedName :
    parse "(L()V;[I)V" = .ok bracketedName ∧
      ∀ (pieces : Pieces) (method : MethodDescriptor),
        pieces.text = "(L()V;[I)V" → pieces.AreOf method →
          pieces = ⟨["L()V;", "[I"], "V"⟩ := by
  have areOf : Pieces.AreOf ⟨["L()V;", "[I"], "V"⟩ bracketedName :=
    ⟨.cons (by decide +kernel) (.cons (by decide +kernel) .nil),
      .inl ⟨rfl, rfl⟩⟩
  have together :
      Pieces.text ⟨["L()V;", "[I"], "V"⟩ = "(L()V;[I)V" := by
    decide +kernel
  refine ⟨((parse_takes_apart _).1 _).mpr ⟨_, together, areOf⟩, ?_⟩
  intro pieces method alsoTogether alsoAreOf
  exact (parse_takes_apart _).2 _ _ _ _ alsoTogether alsoAreOf together areOf

end MethodDescriptor

end TypeAtlas
