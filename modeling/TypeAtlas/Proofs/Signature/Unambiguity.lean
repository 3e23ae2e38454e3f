import TypeAtlas.Proofs.Signature.Grammar

namespace TypeAtlas.Signature

/-!
# No text is written by two trees

Where two texts are the same, the trees they were written from are. This is
said of a tree in front of any rest of the text, so that it can be used piece
by piece: a piece is told from another by its first character, and ends where
its last character or the first character of what may follow says so.
-/

/-! ## First characters -/

/-- A text begins with one of the given characters. -/
def StartsIn (starts text : List Char) : Prop :=
  ∃ c rest, text = c :: rest ∧ c ∈ starts

namespace StartsIn

/-- A text starts in a character that is put before it. -/
theorem cons
    {starts : List Char}
    {c : Char}
    (member : c ∈ starts)
    (rest : List Char) :
    StartsIn starts (c :: rest) :=
  ⟨c, rest, rfl, member⟩

/-- What is put behind a text does not change its start. -/
theorem append
    {starts text : List Char}
    (begins : StartsIn starts text)
    (rest : List Char) :
    StartsIn starts (text ++ rest) := by
  obtain ⟨c, more, rfl, member⟩ := begins
  exact ⟨c, more ++ rest, rfl, member⟩

/-- A text may start in more characters than it does. -/
theorem mono
    {starts others text : List Char}
    (begins : StartsIn starts text)
    (subset : starts ⊆ others) :
    StartsIn others text := by
  obtain ⟨c, more, same, member⟩ := begins
  exact ⟨c, more, same, subset member⟩

/-- A text does not begin with two characters. -/
theorem disjoint
    {starts others text : List Char}
    (begins : StartsIn starts text)
    (apart : starts.all (· ∉ others)) :
    ¬ StartsIn others text := by
  rintro ⟨c, rest, rfl, other⟩
  obtain ⟨_, _, same, member⟩ := begins
  rw [List.cons.injEq] at same
  exact of_decide_eq_true (List.all_eq_true.mp apart c (same.1 ▸ member)) other

end StartsIn

/-- A name has a first character. -/
theorem Identifier.chars_eq_cons
    (identifier : Identifier stops) :
    identifier.chars = identifier.first :: identifier.chars.tail :=
  (List.cons_head_tail identifier.nonempty).symm

/-- That is no stop character. -/
theorem Identifier.first_notMem
    (identifier : Identifier stops) :
    identifier.first ∉ stops :=
  identifier.free _ (List.head_mem identifier.nonempty)

/-- Class types start in their letter. -/
theorem ClassTree.startsIn
    (tree : ClassTree) :
    StartsIn ['L'] tree.chars := by
  cases tree with
  | named name arguments segments =>
      simp only [chars, List.cons_append]
      exact .cons (by decide) _

/-- Reference types start in one of three characters. -/
theorem ReferenceTree.startsIn
    (tree : ReferenceTree) :
    StartsIn FormalTree.boundStarts tree.chars := by
  cases tree with
  | classType type =>
      rw [chars]
      exact type.startsIn.mono (by decide)
  | typeVariable name =>
      simp only [chars, List.cons_append]
      exact .cons (by decide) _
  | array element =>
      rw [chars]
      exact .cons (by decide) _

/-- The first characters of types. -/
def typeStarts : List Char :=
  BaseType.all.map (·.tag) ++ FormalTree.boundStarts

theorem tag_mem_tags
    (type : BaseType) :
    type.tag ∈ BaseType.all.map (·.tag) := by
  cases type <;> decide

/-- Types start in one of these or in a tag. -/
theorem TypeTree.startsIn
    (tree : TypeTree) :
    StartsIn typeStarts tree.chars := by
  cases tree with
  | base type =>
      rw [chars]
      exact .cons (List.mem_append_left _ (tag_mem_tags type)) []
  | reference type =>
      rw [chars]
      exact type.startsIn.mono (List.subset_append_right _ _)

/-- The classes nested in a class are followed by its end. -/
theorem SegmentTrees.startsIn
    (segments : SegmentTrees)
    (rest : List Char) :
    StartsIn ['.', ';'] (segments.chars ++ ';' :: rest) := by
  cases segments with
  | nil =>
      exact .cons (by decide) rest
  | nested name arguments more =>
      simp only [chars, List.cons_append]
      exact .cons (by decide) _

/-- A class name is followed by one of the characters that end it. -/
theorem BracketTree.startsIn
    (arguments : BracketTree)
    {rest : List Char}
    (begins : StartsIn ['.', ';'] rest) :
    StartsIn classStops (arguments.chars ++ rest) := by
  cases arguments with
  | omitted =>
      exact begins.mono (by decide)
  | given list =>
      simp only [chars, List.cons_append]
      exact .cons (by decide) _

/-! ## No text is written by two trees -/

/-- A name ends where one of its stop characters stands. -/
theorem Identifier.takeWhile_append
    (identifier : Identifier stops)
    {rest : List Char}
    (ends : StartsIn stops rest) :
    (identifier.chars ++ rest).takeWhile (!stops.contains ·) =
      identifier.chars := by
  obtain ⟨c, more, rfl, stop⟩ := ends
  rw [List.takeWhile_append_of_pos, List.takeWhile_cons_of_neg, List.append_nil]
  · simpa using stop
  · intro c member
    simpa using identifier.free c member

/-- Two names with stop characters behind them are told apart. -/
theorem Identifier.eq_of_append_eq
    {a b : Identifier stops}
    {rest others : List Char}
    (ends : StartsIn stops rest)
    (othersEnd : StartsIn stops others)
    (same : a.chars ++ rest = b.chars ++ others) :
    a = b ∧ rest = others := by
  have chars : a.chars = b.chars := by
    rw [← a.takeWhile_append ends, same, b.takeWhile_append othersEnd]
  obtain ⟨aChars, _, _⟩ := a
  obtain ⟨bChars, _, _⟩ := b
  obtain rfl : aChars = bChars := chars
  exact ⟨rfl, List.append_cancel_left same⟩

theorem tag_injective :
    Function.Injective BaseType.tag := by
  intro a b same
  cases a <;> cases b <;> first | rfl | exact absurd same (by decide)

/-- A text does not begin like a text that begins otherwise. -/
theorem StartsIn.ne
    {starts others text other : List Char}
    (begins : StartsIn starts text)
    (otherBegins : StartsIn others other)
    (apart : starts.all (· ∉ others)) :
    text ≠ other := by
  rintro rfl
  exact begins.disjoint apart otherBegins

/-- What is written before an argument is told from the argument. -/
theorem Wildcard.eq_of_append_eq
    {a b : Wildcard}
    {text other : List Char}
    (begins : StartsIn FormalTree.boundStarts text)
    (otherBegins : StartsIn FormalTree.boundStarts other)
    (same : a.chars ++ text = b.chars ++ other) :
    a = b ∧ text = other := by
  cases a <;> cases b <;>
    simp only [chars, List.cons_append, List.nil_append] at same
  case upper.upper | lower.lower =>
      exact ⟨rfl, (List.cons.inj same).2⟩
  case exact.exact =>
      exact ⟨rfl, same⟩
  case upper.lower | lower.upper =>
      exact absurd (List.cons.inj same).1 (by decide)
  case upper.exact | lower.exact =>
      exact absurd same.symm
        (otherBegins.ne (.cons (List.mem_singleton_self _) _) (by decide))
  case exact.upper | exact.lower =>
      exact absurd same
        (begins.ne (.cons (List.mem_singleton_self _) _) (by decide))

/-- An argument begins neither like `*` nor like the closing bracket. -/
theorem Wildcard.startsIn
    (wildcard : Wildcard)
    {text : List Char}
    (begins : StartsIn FormalTree.boundStarts text) :
    StartsIn ('+' :: '-' :: FormalTree.boundStarts)
      (wildcard.chars ++ text) := by
  cases wildcard with
  | upper | lower =>
      exact .cons (by decide) text
  | exact =>
      exact begins.mono (by decide)

mutual

/-- Types are told apart whatever is behind them. -/
theorem TypeTree.eq_of_append_eq
    {a b : TypeTree}
    {rest others : List Char}
    (same : a.chars ++ rest = b.chars ++ others) :
    a = b ∧ rest = others := by
  match a, b with
  | .base a, .base b =>
      simp only [TypeTree.chars, List.singleton_append,
        List.cons.injEq] at same
      exact ⟨congrArg _ (tag_injective same.1), same.2⟩
  | .base a, .reference b =>
      simp only [TypeTree.chars, List.singleton_append] at same
      exact absurd same.symm ((b.startsIn.append _).ne
        (.cons (tag_mem_tags a) rest) (by decide))
  | .reference a, .base b =>
      simp only [TypeTree.chars, List.singleton_append] at same
      exact absurd same ((a.startsIn.append _).ne
        (.cons (tag_mem_tags b) others) (by decide))
  | .reference a, .reference b =>
      simp only [TypeTree.chars] at same
      obtain ⟨rfl, rest⟩ := ReferenceTree.eq_of_append_eq same
      exact ⟨rfl, rest⟩

/-- So are reference types. -/
theorem ReferenceTree.eq_of_append_eq
    {a b : ReferenceTree}
    {rest others : List Char}
    (same : a.chars ++ rest = b.chars ++ others) :
    a = b ∧ rest = others := by
  match a, b with
  | .classType a, .classType b =>
      simp only [ReferenceTree.chars] at same
      obtain ⟨rfl, rest⟩ := ClassTree.eq_of_append_eq same
      exact ⟨rfl, rest⟩
  | .typeVariable a, .typeVariable b =>
      simp only [ReferenceTree.chars, List.cons_append, List.append_assoc,
        List.cons.injEq, true_and, List.nil_append] at same
      obtain ⟨rfl, rest⟩ := Identifier.eq_of_append_eq
        (.cons (by decide) _) (.cons (by decide) _) same
      exact ⟨rfl, (List.cons.inj rest).2⟩
  | .array a, .array b =>
      simp only [ReferenceTree.chars, List.cons_append, List.cons.injEq,
        true_and] at same
      obtain ⟨rfl, rest⟩ := TypeTree.eq_of_append_eq same
      exact ⟨rfl, rest⟩
  | .classType a, .typeVariable _ | .classType a, .array _ =>
      simp only [ReferenceTree.chars, List.cons_append] at same
      exact absurd same ((a.startsIn.append _).ne
        (.cons (List.mem_singleton_self _) _) (by decide))
  | .typeVariable _, .classType b | .array _, .classType b =>
      simp only [ReferenceTree.chars, List.cons_append] at same
      exact absurd same.symm ((b.startsIn.append _).ne
        (.cons (List.mem_singleton_self _) _) (by decide))
  | .typeVariable _, .array _ | .array _, .typeVariable _ =>
      simp only [ReferenceTree.chars, List.cons_append] at same
      exact absurd (List.cons.inj same).1 (by decide)

/-- So are class types. -/
theorem ClassTree.eq_of_append_eq
    {a b : ClassTree}
    {rest others : List Char}
    (same : a.chars ++ rest = b.chars ++ others) :
    a = b ∧ rest = others := by
  match a, b with
  | .named name arguments segments, .named name' arguments' segments' =>
      simp only [ClassTree.chars, List.cons_append, List.append_assoc,
        List.nil_append, List.cons.injEq, true_and] at same
      have ends := segments.startsIn rest
      have othersEnd := segments'.startsIn others
      obtain ⟨rfl, afterName⟩ := Identifier.eq_of_append_eq
        (arguments.startsIn ends) (arguments'.startsIn othersEnd) same
      obtain ⟨rfl, afterBrackets⟩ :=
        BracketTree.eq_of_append_eq ends othersEnd afterName
      obtain ⟨rfl, rest⟩ := SegmentTrees.eq_of_append_eq afterBrackets
      exact ⟨rfl, rest⟩

/-- Type arguments are told apart where a class type goes on or ends. -/
theorem BracketTree.eq_of_append_eq
    {a b : BracketTree}
    {rest others : List Char}
    (ends : StartsIn ['.', ';'] rest)
    (othersEnd : StartsIn ['.', ';'] others)
    (same : a.chars ++ rest = b.chars ++ others) :
    a = b ∧ rest = others := by
  match a, b with
  | .omitted, .omitted =>
      exact ⟨rfl, same⟩
  | .given a, .given b =>
      simp only [BracketTree.chars, List.cons_append, List.append_assoc,
        List.nil_append, List.cons.injEq, true_and] at same
      obtain ⟨rfl, rest⟩ := ArgumentTrees.eq_of_append_eq same
      exact ⟨rfl, rest⟩
  | .omitted, .given _ =>
      simp only [BracketTree.chars, List.nil_append, List.cons_append] at same
      exact absurd same
        (ends.ne (.cons (List.mem_singleton_self _) _) (by decide))
  | .given _, .omitted =>
      simp only [BracketTree.chars, List.nil_append, List.cons_append] at same
      exact absurd same.symm
        (othersEnd.ne (.cons (List.mem_singleton_self _) _) (by decide))

/-- Lists of arguments are told apart by their brackets. -/
theorem ArgumentTrees.eq_of_append_eq
    {a b : ArgumentTrees}
    {rest others : List Char}
    (same : a.chars ++ '>' :: rest = b.chars ++ '>' :: others) :
    a = b ∧ rest = others := by
  match a, b with
  | .nil, .nil =>
      exact ⟨rfl, (List.cons.inj same).2⟩
  | .any a, .any b =>
      simp only [ArgumentTrees.chars, List.cons_append, List.cons.injEq,
        true_and] at same
      obtain ⟨rfl, rest⟩ := ArgumentTrees.eq_of_append_eq same
      exact ⟨rfl, rest⟩
  | .bounded wildcard type a, .bounded wildcard' type' b =>
      simp only [ArgumentTrees.chars, List.append_assoc] at same
      obtain ⟨rfl, afterWildcard⟩ := Wildcard.eq_of_append_eq
        (type.startsIn.append _) (type'.startsIn.append _) same
      obtain ⟨rfl, afterType⟩ := ReferenceTree.eq_of_append_eq afterWildcard
      obtain ⟨rfl, rest⟩ := ArgumentTrees.eq_of_append_eq afterType
      exact ⟨rfl, rest⟩
  | .nil, .any _ | .any _, .nil =>
      simp only [ArgumentTrees.chars, List.cons_append,
        List.nil_append] at same
      exact absurd (List.cons.inj same).1 (by decide)
  | .bounded wildcard type _, .nil | .bounded wildcard type _, .any _ =>
      simp only [ArgumentTrees.chars, List.cons_append, List.nil_append,
        List.append_assoc] at same
      exact absurd same ((wildcard.startsIn (type.startsIn.append _)).ne
        (.cons (List.mem_singleton_self _) _) (by decide))
  | .nil, .bounded wildcard type _ | .any _, .bounded wildcard type _ =>
      simp only [ArgumentTrees.chars, List.cons_append, List.nil_append,
        List.append_assoc] at same
      exact absurd same.symm ((wildcard.startsIn (type.startsIn.append _)).ne
        (.cons (List.mem_singleton_self _) _) (by decide))

/-- Nested segments are told apart by the end of the class type. -/
theorem SegmentTrees.eq_of_append_eq
    {a b : SegmentTrees}
    {rest others : List Char}
    (same : a.chars ++ ';' :: rest = b.chars ++ ';' :: others) :
    a = b ∧ rest = others := by
  match a, b with
  | .nil, .nil =>
      exact ⟨rfl, (List.cons.inj same).2⟩
  | .nested name arguments a, .nested name' arguments' b =>
      simp only [SegmentTrees.chars, List.cons_append, List.append_assoc,
        List.cons.injEq, true_and] at same
      have ends := a.startsIn rest
      have othersEnd := b.startsIn others
      obtain ⟨rfl, afterName⟩ := Identifier.eq_of_append_eq
        (arguments.startsIn ends) (arguments'.startsIn othersEnd) same
      obtain ⟨rfl, afterBrackets⟩ :=
        BracketTree.eq_of_append_eq ends othersEnd afterName
      obtain ⟨rfl, rest⟩ := SegmentTrees.eq_of_append_eq afterBrackets
      exact ⟨rfl, rest⟩
  | .nil, .nested _ _ _ | .nested _ _ _, .nil =>
      simp only [SegmentTrees.chars, List.cons_append,
        List.nil_append] at same
      exact absurd (List.cons.inj same).1 (by decide)

end

/-! ## Rows -/

/-- A row of pieces ends where no piece begins. -/
theorem flatMap_eq_of_append_eq
    {chars : τ → List Char}
    {starts : List Char}
    (begins : ∀ piece, StartsIn starts (chars piece))
    (splits :
      ∀ {a b : τ} {rest others : List Char},
        chars a ++ rest = chars b ++ others → a = b ∧ rest = others)
    {as bs : List τ}
    {rest others : List Char}
    (ends : ¬ StartsIn starts rest)
    (othersEnd : ¬ StartsIn starts others)
    (same : as.flatMap chars ++ rest = bs.flatMap chars ++ others) :
    as = bs ∧ rest = others := by
  induction as generalizing bs with
  | nil =>
      cases bs with
      | nil =>
          exact ⟨rfl, same⟩
      | cons b bs =>
          simp only [List.flatMap_nil, List.nil_append, List.flatMap_cons,
            List.append_assoc] at same
          exact absurd (same ▸ (begins b).append _) ends
  | cons a as inductionHypothesis =>
      simp only [List.flatMap_cons, List.append_assoc] at same
      cases bs with
      | nil =>
          rw [List.flatMap_nil, List.nil_append] at same
          exact absurd (same ▸ (begins a).append _) othersEnd
      | cons b bs =>
          simp only [List.flatMap_cons, List.append_assoc] at same
          obtain ⟨rfl, afterFirst⟩ := splits same
          obtain ⟨rfl, rest⟩ := inductionHypothesis afterFirst
          exact ⟨rfl, rest⟩

/-- A text that is empty starts in nothing. -/
theorem not_startsIn_nil
    (starts : List Char) :
    ¬ StartsIn starts [] := by
  rintro ⟨_, _, blank, _⟩
  simp at blank

/-- A text that begins with another character. -/
theorem not_startsIn_cons
    {starts : List Char}
    {c : Char}
    (absent : c ∉ starts)
    (rest : List Char) :
    ¬ StartsIn starts (c :: rest) :=
  (StartsIn.cons (List.mem_singleton_self c) rest).disjoint (by simpa)

/-- A row of types, each behind the same character. -/
theorem eq_of_marked_append_eq
    {mark : Char}
    {as bs : List ReferenceTree}
    {rest others : List Char}
    (ends : ¬ StartsIn [mark] rest)
    (othersEnd : ¬ StartsIn [mark] others)
    (same :
      as.flatMap (mark :: ·.chars) ++ rest =
        bs.flatMap (mark :: ·.chars) ++ others) :
    as = bs ∧ rest = others := by
  refine flatMap_eq_of_append_eq (fun _ => .cons (List.mem_singleton_self _) _)
    (fun same => ?_) ends othersEnd same
  exact ReferenceTree.eq_of_append_eq (List.cons.inj same).2

namespace FormalTree

/-- A text that the bounds of a type parameter do not run into. -/
structure Ends
    (formal : FormalTree)
    (rest : List Char) :
    Prop where
  noInterface : ¬ StartsIn [':'] rest
  noClass :
    formal.classBound = none → formal.interfaceBounds = [] →
      ¬ StartsIn boundStarts rest

/-- Where there is no class bound, none begins. -/
theorem Ends.not_startsIn
    {formal : FormalTree}
    {rest : List Char}
    (ends : formal.Ends rest)
    (unbounded : formal.classBound = none) :
    ¬ StartsIn boundStarts
      (formal.interfaceBounds.flatMap (':' :: ·.chars) ++ rest) := by
  cases interfaces : formal.interfaceBounds with
  | nil =>
      exact ends.noClass unbounded interfaces
  | cons first more =>
      exact not_startsIn_cons (by decide) _

/-- The bounds of a type parameter are told apart by what may be behind them. -/
theorem bounds_eq_of_append_eq
    {a b : FormalTree}
    {rest others : List Char}
    (ends : a.Ends rest)
    (othersEnd : b.Ends others)
    (same : a.boundChars ++ rest = b.boundChars ++ others) :
    a.classBound = b.classBound ∧
      a.interfaceBounds = b.interfaceBounds ∧
      rest = others := by
  simp only [boundChars, List.append_assoc] at same
  cases bound : a.classBound with
  | none =>
      cases other : b.classBound with
      | none =>
          simp only [bound, other, Option.map_none, Option.getD_none,
            List.nil_append] at same
          exact ⟨rfl, eq_of_marked_append_eq ends.noInterface
            othersEnd.noInterface same⟩
      | some type =>
          simp only [bound, other, Option.map_none, Option.map_some,
            Option.getD_none, Option.getD_some, List.nil_append] at same
          exact absurd (same ▸ type.startsIn.append _)
            (ends.not_startsIn bound)
  | some type =>
      cases other : b.classBound with
      | none =>
          simp only [bound, other, Option.map_none, Option.map_some,
            Option.getD_none, Option.getD_some, List.nil_append] at same
          exact absurd (same ▸ type.startsIn.append _)
            (othersEnd.not_startsIn other)
      | some type' =>
          simp only [bound, other, Option.map_some, Option.getD_some] at same
          obtain ⟨rfl, afterClass⟩ := ReferenceTree.eq_of_append_eq same
          exact ⟨rfl, eq_of_marked_append_eq ends.noInterface
            othersEnd.noInterface afterClass⟩

/-- A row of type parameters begins like the name of the first. -/
theorem flatMap_eq_cons
    (formal : FormalTree)
    (more : List FormalTree) :
    ∃ others,
      (formal :: more).flatMap (·.chars) = formal.name.first :: others := by
  rw [List.flatMap_cons, chars, formal.name.chars_eq_cons]
  exact ⟨_, rfl⟩

/-- What follows a type parameter is not taken for one of its bounds. -/
theorem ends_of_isChain
    {formal : FormalTree}
    {more : List FormalTree}
    (apart : (formal :: more).IsChain MayFollow)
    (rest : List Char) :
    formal.Ends (more.flatMap (·.chars) ++ '>' :: rest) := by
  cases more with
  | nil =>
      exact ⟨not_startsIn_cons (by decide) rest,
        fun _ _ => not_startsIn_cons (by decide) rest⟩
  | cons next more =>
      have follows := (List.isChain_cons_cons.mp apart).1
      obtain ⟨others, first⟩ := flatMap_eq_cons next more
      rw [first]
      exact ⟨not_startsIn_cons next.name.first_notMem _,
        fun noClass noInterface =>
          not_startsIn_cons (follows.2 noClass noInterface) _⟩

/-- Type parameters are told apart by what may be behind them. -/
theorem eq_of_append_eq
    {a b : FormalTree}
    {rest others : List Char}
    (ends : a.Ends rest)
    (othersEnd : b.Ends others)
    (same : a.chars ++ rest = b.chars ++ others) :
    a = b ∧ rest = others := by
  simp only [chars, List.append_assoc, List.cons_append] at same
  obtain ⟨name, afterName⟩ := Identifier.eq_of_append_eq
    (.cons (by decide) _) (.cons (by decide) _) same
  obtain ⟨classBound, interfaceBounds, rest⟩ :=
    bounds_eq_of_append_eq ends othersEnd (List.cons.inj afterName).2
  obtain ⟨_, _, _⟩ := a
  obtain ⟨_, _, _⟩ := b
  exact ⟨by simp_all only, rest⟩

/-- A type parameter behind another is not taken for the closing bracket. -/
theorem row_ne_close
    {formal next : FormalTree}
    {more : List FormalTree}
    (apart : (formal :: next :: more).IsChain MayFollow)
    (rest others : List Char) :
    '>' :: others ≠ (next :: more).flatMap (·.chars) ++ rest := by
  have follows := (List.isChain_cons_cons.mp apart).1
  obtain ⟨_, first⟩ := flatMap_eq_cons next more
  rw [first]
  exact fun same => follows.1 (List.cons.inj same).1.symm

/-- The first of two rows of type parameters is the same. -/
theorem heads_eq_of_append_eq
    {a b : FormalTree}
    {as bs : List FormalTree}
    {rest others : List Char}
    (apart : (a :: as).IsChain MayFollow)
    (othersApart : (b :: bs).IsChain MayFollow)
    (same :
      (a :: as).flatMap (·.chars) ++ '>' :: rest =
        (b :: bs).flatMap (·.chars) ++ '>' :: others) :
    a = b ∧
      as.flatMap (·.chars) ++ '>' :: rest =
        bs.flatMap (·.chars) ++ '>' :: others := by
  refine eq_of_append_eq (ends_of_isChain apart rest)
    (ends_of_isChain othersApart others) ?_
  rw [← List.append_assoc, ← List.append_assoc]
  exact same

/-- Rows of them are told apart if their members may follow each other. -/
theorem rows_eq_of_append_eq
    {a b : FormalTree}
    {as bs : List FormalTree}
    {rest others : List Char}
    (apart : (a :: as).IsChain MayFollow)
    (othersApart : (b :: bs).IsChain MayFollow)
    (same :
      (a :: as).flatMap (·.chars) ++ '>' :: rest =
        (b :: bs).flatMap (·.chars) ++ '>' :: others) :
    a :: as = b :: bs ∧ rest = others := by
  induction as generalizing a b bs with
  | nil =>
      obtain ⟨rfl, afterFirst⟩ := heads_eq_of_append_eq apart othersApart same
      cases bs with
      | nil =>
          exact ⟨rfl, (List.cons.inj afterFirst).2⟩
      | cons next bs =>
          exact absurd afterFirst (row_ne_close othersApart _ rest)
  | cons next as inductionHypothesis =>
      obtain ⟨rfl, afterFirst⟩ := heads_eq_of_append_eq apart othersApart same
      cases bs with
      | nil =>
          exact absurd afterFirst.symm (row_ne_close apart _ others)
      | cons other bs =>
          obtain ⟨rows, rest⟩ := inductionHypothesis
            (List.isChain_cons_cons.mp apart).2
            (List.isChain_cons_cons.mp othersApart).2 afterFirst
          exact ⟨congrArg (a :: ·) rows, rest⟩

end FormalTree

/-! ## Whole signatures -/

/-- So are lists of type parameters, where no other list begins. -/
theorem FormalTrees.eq_of_append_eq
    {a b : FormalTrees}
    {rest others : List Char}
    (ends : ¬ StartsIn ['<'] rest)
    (othersEnd : ¬ StartsIn ['<'] others)
    (same : a.chars ++ rest = b.chars ++ others) :
    a = b ∧ rest = others := by
  obtain ⟨as, apart⟩ := a
  obtain ⟨bs, othersApart⟩ := b
  cases as with
  | nil =>
      cases bs with
      | nil =>
          exact ⟨rfl, same⟩
      | cons b bs =>
          simp only [chars, ↓reduceIte, reduceCtorEq, List.nil_append] at same
          exact absurd (same ▸ .cons (List.mem_singleton_self _) _) ends
  | cons a as =>
      cases bs with
      | nil =>
          simp only [chars, ↓reduceIte, reduceCtorEq, List.nil_append] at same
          exact absurd (same ▸ .cons (List.mem_singleton_self _) _) othersEnd
      | cons b bs =>
          simp only [chars, ↓reduceIte, reduceCtorEq, List.cons_append,
            List.append_assoc, List.nil_append, List.cons.injEq,
            true_and] at same
          obtain ⟨rows, rest⟩ :=
            FormalTree.rows_eq_of_append_eq apart othersApart same
          exact ⟨by simp only [rows], rest⟩

/-- A type is known by its text. -/
theorem TypeTree.chars_injective :
    Function.Injective TypeTree.chars := by
  intro a b same
  have padded : a.chars ++ [] = b.chars ++ [] := by
    rw [same]
  exact (TypeTree.eq_of_append_eq padded).1

/-- A class signature is known by its text. -/
theorem ClassSignature.chars_injective :
    Function.Injective ClassSignature.chars := by
  rintro ⟨formals, superclass, interfaces⟩ ⟨formals', superclass', interfaces'⟩
  intro same
  simp only [chars, List.append_assoc] at same
  obtain ⟨rfl, afterFormals⟩ := FormalTrees.eq_of_append_eq
    ((superclass.startsIn.append _).disjoint (by decide))
    ((superclass'.startsIn.append _).disjoint (by decide)) same
  obtain ⟨rfl, afterSuperclass⟩ := ClassTree.eq_of_append_eq afterFormals
  have padded :
      interfaces.flatMap (·.chars) ++ [] =
        interfaces'.flatMap (·.chars) ++ [] := by
    rw [afterSuperclass]
  obtain ⟨rfl, -⟩ := flatMap_eq_of_append_eq ClassTree.startsIn
    ClassTree.eq_of_append_eq (not_startsIn_nil _) (not_startsIn_nil _) padded
  rfl

/-- The result of a method, and `V` for none, are told apart. -/
theorem eq_of_result_append_eq
    {a b : Option TypeTree}
    {rest others : List Char}
    (same :
      (a.map (·.chars)).getD ['V'] ++ rest =
        (b.map (·.chars)).getD ['V'] ++ others) :
    a = b ∧ rest = others := by
  cases a with
  | none =>
      cases b with
      | none =>
          exact ⟨rfl, (List.cons.inj same).2⟩
      | some b =>
          exact absurd same.symm ((b.startsIn.append others).ne
            (.cons (List.mem_singleton_self _) rest) (by decide))
  | some a =>
      cases b with
      | none =>
          exact absurd same ((a.startsIn.append rest).ne
            (.cons (List.mem_singleton_self _) others) (by decide))
      | some b =>
          obtain ⟨rfl, rest⟩ := TypeTree.eq_of_append_eq same
          exact ⟨rfl, rest⟩

/-- A method signature is known by its text. -/
theorem MethodSignature.chars_injective :
    Function.Injective MethodSignature.chars := by
  rintro ⟨formals, parameters, result, thrown⟩
    ⟨formals', parameters', result', thrown'⟩
  intro same
  simp only [chars, List.append_assoc, List.cons_append] at same
  obtain ⟨rfl, afterFormals⟩ := FormalTrees.eq_of_append_eq
    (not_startsIn_cons (by decide) _) (not_startsIn_cons (by decide) _) same
  obtain ⟨rfl, afterParameters⟩ := flatMap_eq_of_append_eq TypeTree.startsIn
    TypeTree.eq_of_append_eq (not_startsIn_cons (by decide) _)
    (not_startsIn_cons (by decide) _) (List.cons.inj afterFormals).2
  obtain ⟨rfl, afterResult⟩ :=
    eq_of_result_append_eq (List.cons.inj afterParameters).2
  have padded :
      thrown.flatMap ('^' :: ·.chars) ++ [] =
        thrown'.flatMap ('^' :: ·.chars) ++ [] := by
    rw [afterResult]
  obtain ⟨rfl, -⟩ := eq_of_marked_append_eq (not_startsIn_nil _)
    (not_startsIn_nil _) padded
  rfl

end TypeAtlas.Signature
