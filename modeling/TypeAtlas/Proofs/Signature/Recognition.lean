import TypeAtlas.Proofs.Signature.Reading

namespace TypeAtlas.Signature

/-!
# Exactly the grammar is recognized

Every text that a tree is written as is read to its end, with the events of
the tree, and the budget of calls is never used up: a call needs at most two
for every character of its text, and one more if it may hand the text on whole.
With the other direction, reading is another word for the grammar.
-/

/-! ## What a step reads -/

/-- A step reads a text up to a rest, and reports events. -/
def Reads
    (step : Scan α)
    (value : α)
    (text : List Char)
    (events : List Event)
    (rest : List Char) :
    Prop :=
  ∀ cursor : Cursor,
    cursor.rest = text ++ rest →
      ∃ after,
        Succeeds step cursor value after ∧
          after.rest = rest ∧
          after.events = cursor.events ++ events

/-- Readings one behind the other are one reading. -/
theorem Reads.bind
    {first : Scan α}
    {next : α → Scan β}
    {found : α}
    {value : β}
    {text more rest : List Char}
    {events others : List Event}
    (reads : Reads first found text events (more ++ rest))
    (goesOn : Reads (next found) value more others rest) :
    Reads (first >>= next) value (text ++ more) (events ++ others) rest := by
  intro cursor remaining
  rw [List.append_assoc] at remaining
  obtain ⟨between, firstRead, left, told⟩ := reads cursor remaining
  obtain ⟨after, nextRead, ended, alsoTold⟩ := goesOn between left
  refine ⟨after, succeeds_bind.mpr ⟨found, between, firstRead, nextRead⟩,
    ended, ?_⟩
  rw [alsoTold, told, List.append_assoc]

theorem reads_pure
    (value : α)
    (rest : List Char) :
    Reads (pure value) value [] [] rest :=
  fun cursor remaining =>
    ⟨cursor, succeeds_pure.mpr ⟨rfl, rfl⟩, remaining,
      (List.append_nil _).symm⟩

/-- An event is reported without reading. -/
theorem reads_emit
    (event : Event)
    (rest : List Char) :
    Reads (emit event) () [] [event] rest :=
  fun _ remaining => ⟨_, succeeds_emit.mpr rfl, remaining, rfl⟩

/-- A step forward reads the character that it steps over. -/
theorem reads_advance
    (c : Char)
    (rest : List Char) :
    Reads (advance 1) () [c] [] rest := by
  intro cursor remaining
  refine ⟨_, succeeds_advance.mpr rfl, ?_, ?_⟩ <;>
    simp [Cursor.skip, remaining]

/-- The expected character is read. -/
theorem reads_expect
    (c : Char)
    (rest : List Char) :
    Reads (expect c) () [c] [] rest := by
  intro cursor remaining
  refine ⟨_, succeeds_expect.mpr ⟨?_, rfl⟩, ?_, ?_⟩ <;>
    simp [Cursor.skip, remaining]

/-- A name is read up to the stop character behind it. -/
theorem reads_identifier
    {stops : List Char}
    (name : Identifier stops)
    {rest : List Char}
    (ends : StartsIn stops rest) :
    Reads (identifier stops) name.name name.chars [] rest := by
  intro cursor remaining
  refine ⟨_, identifier_complete name ends remaining, ?_, ?_⟩ <;>
    simp [Cursor.skip, remaining]

section

variable
  {value : α}
  {text rest : List Char}
  {events : List Event}

/-- A character that is looked at is read by what comes next. -/
theorem Reads.peek
    {next : Char → Scan α}
    {c : Char}
    {more : List Char}
    (first : text ++ rest = c :: more)
    (goesOn : Reads (next c) value text events rest) :
    Reads (peek >>= next) value text events rest := by
  intro cursor remaining
  obtain ⟨after, read, ended, told⟩ := goesOn cursor remaining
  have looked : Succeeds Signature.peek cursor c cursor := by
    refine succeeds_peek.mpr ⟨?_, rfl⟩
    rw [remaining, first]
    rfl
  exact ⟨after, succeeds_bind.mpr ⟨c, cursor, looked, read⟩, ended, told⟩

/-- What comes next may depend on the cursor. -/
theorem Reads.get
    {next : Cursor → Scan α}
    (goesOn :
      ∀ cursor : Cursor,
        cursor.rest = text ++ rest →
          Reads (next cursor) value text events rest) :
    Reads (get >>= next) value text events rest := by
  intro cursor remaining
  obtain ⟨after, read, ended, told⟩ := goesOn cursor remaining cursor remaining
  exact ⟨after,
    succeeds_bind.mpr
      ⟨cursor, cursor, succeeds_get.mpr ⟨rfl, rfl⟩, read⟩, ended, told⟩

/-- Whether the end is reached depends on all that is left. -/
theorem Reads.atEnd
    {next : Bool → Scan α}
    (goesOn : Reads (next (text ++ rest).isEmpty) value text events rest) :
    Reads (atEnd >>= next) value text events rest := by
  intro cursor remaining
  obtain ⟨after, read, ended, told⟩ := goesOn cursor remaining
  have looked :
      Succeeds Signature.atEnd cursor (text ++ rest).isEmpty cursor :=
    succeeds_atEnd.mpr ⟨by rw [remaining], rfl⟩
  exact ⟨after, succeeds_bind.mpr ⟨_, cursor, looked, read⟩, ended, told⟩

theorem Reads.advance
    {next : Unit → Scan α}
    (c : Char)
    (goesOn : Reads (next ()) value text events rest) :
    Reads (advance 1 >>= next) value (c :: text) events rest :=
  (reads_advance c _).bind goesOn

theorem Reads.expect
    {next : Unit → Scan α}
    (c : Char)
    (goesOn : Reads (next ()) value text events rest) :
    Reads (expect c >>= next) value (c :: text) events rest :=
  (reads_expect c _).bind goesOn

theorem Reads.emit
    {next : Unit → Scan α}
    (event : Event)
    (goesOn : Reads (next ()) value text events rest) :
    Reads (emit event >>= next) value text (event :: events) rest :=
  (reads_emit event _).bind goesOn

theorem Reads.identifier
    {stops : List Char}
    (name : Identifier stops)
    {next : String → Scan α}
    (ends : StartsIn stops (text ++ rest))
    (goesOn : Reads (next name.name) value text events rest) :
    Reads (identifier stops >>= next) value (name.chars ++ text) events rest :=
  (reads_identifier name ends).bind goesOn

end

/-! ## Whatever the grammar has is accepted -/

/-- A primitive type is read by its tag. -/
theorem reads_typeOr_base
    (reference : Scan Unit)
    (type : BaseType)
    (rest : List Char) :
    Reads (typeOr reference) () [type.tag] [.base type.tag] rest := by
  refine .peek rfl ?_
  have tagged : BaseType.ofTag? type.tag = some type := by
    cases type <;> rfl
  simp only [tagged]
  exact .advance _ (reads_emit _ rest)

/-- What has no tag of a primitive type is left to the other reader. -/
theorem reads_typeOr_reference
    {reference : Scan Unit}
    {tree : ReferenceTree}
    {rest : List Char}
    (reads : Reads reference () tree.chars tree.events rest) :
    Reads (typeOr reference) () tree.chars tree.events rest := by
  obtain ⟨c, more, first, start⟩ := tree.startsIn.append rest
  refine .peek first ?_
  have untagged :
      FormalTree.boundStarts.all fun c => (BaseType.ofTag? c).isNone := by
    decide
  have other : BaseType.ofTag? c = none := by
    simpa using List.all_eq_true.mp untagged c start
  simp only [other]
  exact reads

/-- An argument that names a type, with the arguments after it. -/
theorem reads_argument
    {fuel : Nat}
    (wildcard : Wildcard)
    {type : ReferenceTree}
    {more rest : List Char}
    {events : List Event}
    (typed :
      Reads (referenceType fuel) () type.chars type.events (more ++ rest))
    (listed : Reads (argumentList fuel) () more events rest) :
    Reads (argumentList (fuel + 1)) ()
      (wildcard.chars ++ (type.chars ++ more))
      (.argument wildcard :: (type.events ++ events)) rest := by
  rw [argumentList]
  cases wildcard with
  | upper =>
      exact .peek rfl (.advance '+' (.emit _ (typed.bind listed)))
  | lower =>
      exact .peek rfl (.advance '-' (.emit _ (typed.bind listed)))
  | exact =>
      obtain ⟨c, others, first, start⟩ :=
        (type.startsIn.append more).append rest
      refine .peek first ?_
      simp only [FormalTree.boundStarts, List.mem_cons, List.not_mem_nil,
        or_false] at start
      rcases start with rfl | rfl | rfl <;>
        exact .emit _ (typed.bind listed)

mutual

/--
A reference type is read with two calls for every character, and one more.
-/
theorem ReferenceTree.reads
    (tree : ReferenceTree)
    {fuel : Nat}
    (enough : 2 * tree.chars.length + 1 ≤ fuel)
    (rest : List Char) :
    Reads (referenceType fuel) () tree.chars tree.events rest := by
  obtain ⟨fuel, rfl⟩ : ∃ less, fuel = less + 1 := ⟨fuel - 1, by omega⟩
  rw [referenceType]
  match tree with
  | .classType type =>
      simp only [ReferenceTree.chars, ReferenceTree.events] at enough ⊢
      obtain ⟨c, more, first, start⟩ := type.startsIn.append rest
      obtain rfl := List.mem_singleton.mp start
      exact .peek first (type.reads (by omega) rest)
  | .typeVariable name =>
      simp only [ReferenceTree.chars, ReferenceTree.events, List.cons_append]
      refine .peek (List.cons_append ..) (.advance 'T' ?_)
      refine .identifier name (.cons (by decide) _) ?_
      exact .advance ';' (reads_emit _ rest)
  | .array element =>
      simp only [ReferenceTree.chars, ReferenceTree.events,
        List.length_cons] at enough ⊢
      refine .peek rfl (.advance '[' ?_)
      exact .emit _ (element.reads (by omega) rest)

/-- So is a type of any kind. -/
theorem TypeTree.reads
    (tree : TypeTree)
    {fuel : Nat}
    (enough : 2 * tree.chars.length + 1 ≤ fuel)
    (rest : List Char) :
    Reads (typeOr (referenceType fuel)) () tree.chars tree.events rest := by
  match tree with
  | .base type =>
      simp only [TypeTree.chars, TypeTree.events]
      exact reads_typeOr_base _ type rest
  | .reference type =>
      simp only [TypeTree.chars, TypeTree.events] at enough ⊢
      exact reads_typeOr_reference (type.reads enough rest)

/-- A class type gets along with two calls for every character. -/
theorem ClassTree.reads
    (tree : ClassTree)
    {fuel : Nat}
    (enough : 2 * tree.chars.length ≤ fuel)
    (rest : List Char) :
    Reads (classType fuel) () tree.chars tree.events rest := by
  match tree with
  | .named name arguments segments =>
      simp only [ClassTree.chars, ClassTree.events, List.cons_append,
        List.append_assoc, List.length_cons, List.length_append,
        List.length_nil] at enough ⊢
      obtain ⟨fuel, rfl⟩ : ∃ less, fuel = less + 1 := ⟨fuel - 1, by omega⟩
      have ends := segments.startsIn rest
      rw [classType]
      refine .expect 'L' (.identifier name ?_ (.emit _ ?_))
      · simpa using arguments.startsIn ends
      · refine (arguments.reads (by omega) (by simpa using ends)).bind ?_
        refine (segments.reads (by omega) rest).bind ?_
        exact .expect ';' (reads_emit .close rest)

/-- Type arguments are read if there are any. -/
theorem BracketTree.reads
    (tree : BracketTree)
    {fuel : Nat}
    (enough : 2 * tree.chars.length + 1 ≤ fuel)
    {rest : List Char}
    (ends : StartsIn ['.', ';'] rest) :
    Reads (typeArguments fuel) () tree.chars tree.events rest := by
  obtain ⟨fuel, rfl⟩ : ∃ less, fuel = less + 1 := ⟨fuel - 1, by omega⟩
  rw [typeArguments]
  match tree with
  | .omitted =>
      obtain ⟨c, more, first, start⟩ := ends
      have unopened : c ≠ '<' := by
        rintro rfl
        exact absurd start (by decide)
      refine .peek first ?_
      rw [if_neg unopened]
      exact reads_pure () rest
  | .given arguments =>
      simp only [BracketTree.chars, BracketTree.events, List.cons_append,
        List.length_cons, List.length_append, List.length_nil] at enough ⊢
      refine .peek (List.cons_append ..) ?_
      rw [if_pos rfl]
      exact .advance '<' (arguments.reads (by omega) rest)

/-- A list of arguments is read with the bracket that closes it. -/
theorem ArgumentTrees.reads
    (tree : ArgumentTrees)
    {fuel : Nat}
    (enough : 2 * tree.chars.length + 2 ≤ fuel)
    (rest : List Char) :
    Reads (argumentList fuel) () (tree.chars ++ ['>']) tree.events rest := by
  obtain ⟨fuel, rfl⟩ : ∃ less, fuel = less + 1 := ⟨fuel - 1, by omega⟩
  match tree with
  | .nil =>
      rw [argumentList]
      exact .peek rfl (reads_advance '>' rest)
  | .any more =>
      simp only [ArgumentTrees.chars, ArgumentTrees.events,
        List.length_cons, List.cons_append] at enough ⊢
      rw [argumentList]
      exact .peek rfl (.advance '*' (.emit _ (more.reads (by omega) rest)))
  | .bounded wildcard type more =>
      obtain ⟨_, _, first, _⟩ := type.startsIn
      have positive : 0 < type.chars.length := by
        simp [first]
      simp only [ArgumentTrees.chars, ArgumentTrees.events,
        List.length_append, List.append_assoc, List.cons_append] at enough ⊢
      exact reads_argument wildcard (type.reads (by omega) _)
        (more.reads (by omega) rest)

/-- Nested segments are read up to the end of the class type. -/
theorem SegmentTrees.reads
    (tree : SegmentTrees)
    {fuel : Nat}
    (enough : 2 * tree.chars.length + 1 ≤ fuel)
    (rest : List Char) :
    Reads (nestedSegments fuel) () tree.chars tree.events (';' :: rest) := by
  obtain ⟨fuel, rfl⟩ : ∃ less, fuel = less + 1 := ⟨fuel - 1, by omega⟩
  rw [nestedSegments]
  match tree with
  | .nil =>
      refine .peek rfl ?_
      exact reads_pure () (';' :: rest)
  | .nested name arguments more =>
      simp only [SegmentTrees.chars, SegmentTrees.events, List.cons_append,
        List.append_assoc, List.length_cons, List.length_append] at enough ⊢
      have ends := more.startsIn rest
      refine .peek (List.cons_append ..) ?_
      rw [if_pos rfl]
      refine .advance '.' (.identifier name ?_ (.emit _ ?_))
      · simpa using arguments.startsIn ends
      · exact (arguments.reads (by omega) ends).bind
          (more.reads (by omega) rest)

end

/-- Interface bounds are read as long as there is a colon. -/
theorem reads_interfaceBounds
    (bounds : List ReferenceTree)
    {fuel : Nat}
    (enough : 2 * (bounds.flatMap (':' :: ·.chars)).length + 1 ≤ fuel)
    {rest : List Char}
    (given : rest ≠ [])
    (ends : ¬ StartsIn [':'] rest) :
    Reads (interfaceBounds fuel) () (bounds.flatMap (':' :: ·.chars))
      (bounds.flatMap (.interfaceBound :: ·.events)) rest := by
  induction bounds generalizing fuel with
  | nil =>
      obtain ⟨fuel, rfl⟩ : ∃ less, fuel = less + 1 := ⟨fuel - 1, by omega⟩
      obtain ⟨c, more, rfl⟩ := List.exists_cons_of_ne_nil given
      have ended : c ≠ ':' := by
        rintro rfl
        exact ends (.cons (by decide) more)
      rw [interfaceBounds]
      refine .peek rfl ?_
      rw [if_neg ended]
      exact reads_pure () (c :: more)
  | cons type bounds inductionHypothesis =>
      obtain ⟨fuel, rfl⟩ : ∃ less, fuel = less + 1 := ⟨fuel - 1, by omega⟩
      simp only [List.flatMap_cons, List.cons_append, List.length_cons,
        List.length_append] at enough ⊢
      rw [interfaceBounds]
      refine .peek (List.cons_append ..) ?_
      rw [if_pos rfl]
      refine .advance ':' (.emit _ ?_)
      exact (type.reads (by omega) _).bind (inductionHypothesis (by omega))

/-- The bounds of a type parameter, with what is read behind them. -/
theorem FormalTree.reads_bounds
    (formal : FormalTree)
    {fuel : Nat}
    (enough : 2 * formal.boundChars.length + 1 ≤ fuel)
    {text rest : List Char}
    {events : List Event}
    (given : text ++ rest ≠ [])
    (ends : formal.Ends (text ++ rest))
    {next : Scan Unit}
    (goesOn : Reads next () text events rest) :
    Reads
      (do
        let start ← peek
        if ['L', 'T', '['].contains start then
          emit .classBound
          referenceType fuel
        Signature.interfaceBounds fuel
        next)
      () (formal.boundChars ++ text)
      ((formal.classBound.map (.classBound :: ·.events)).getD [] ++
        (formal.interfaceBounds.flatMap (.interfaceBound :: ·.events) ++
          events)) rest := by
  simp only [boundChars, List.append_assoc, List.length_append] at enough ⊢
  have interfaces :
      Reads
        (do
          Signature.interfaceBounds fuel
          next)
        () (formal.interfaceBounds.flatMap (':' :: ·.chars) ++ text)
        (formal.interfaceBounds.flatMap (.interfaceBound :: ·.events) ++
          events) rest :=
    (reads_interfaceBounds _ (by omega) given ends.noInterface).bind goesOn
  cases bound : formal.classBound with
  | none =>
      simp only [Option.map_none, Option.getD_none, List.nil_append]
      obtain ⟨c, others, first⟩ := List.exists_cons_of_ne_nil
        (List.append_ne_nil_of_right_ne_nil
          (formal.interfaceBounds.flatMap (':' :: ·.chars)) given)
      have absent : ¬ ['L', 'T', '['].contains c = true := by
        rw [List.contains_iff_mem]
        exact fun start =>
          ends.not_startsIn bound (first ▸ .cons start others)
      refine .peek ((List.append_assoc ..).trans first) ?_
      rw [if_neg absent]
      exact interfaces
  | some type =>
      simp only [bound, Option.map_some, Option.getD_some,
        List.cons_append] at enough ⊢
      obtain ⟨c, others, first, start⟩ := (type.startsIn.append
        (formal.interfaceBounds.flatMap (':' :: ·.chars) ++ text)).append rest
      have present : ['L', 'T', '['].contains c = true :=
        List.contains_iff_mem.mpr start
      refine .peek first ?_
      rw [if_pos present]
      exact .emit _ ((type.reads (by omega) _).bind interfaces)

/-- One type parameter is read, and then what is left for it to go on with. -/
theorem FormalTree.reads
    (formal : FormalTree)
    {fuel : Nat}
    (enough : 2 * formal.chars.length ≤ fuel)
    {text rest : List Char}
    {told : List Event}
    (given : text ++ rest ≠ [])
    (ends : formal.Ends (text ++ rest))
    (goesOn :
      Reads
        (do
          if (← peek) = '>' then
            advance 1
          else
            formalList fuel)
        () text told rest) :
    Reads (formalList (fuel + 1)) () (formal.chars ++ text)
      (formal.events ++ told) rest := by
  simp only [chars, events, List.append_assoc, List.cons_append,
    List.length_append, List.length_cons] at enough ⊢
  have bounds : 2 * formal.boundChars.length + 1 ≤ fuel := by
    omega
  rw [formalList]
  refine .identifier formal.name (.cons (by decide) _) (.emit _ ?_)
  exact .expect ':' (formal.reads_bounds bounds given ends goesOn)

/-- Type parameters are read with the bracket that closes them. -/
theorem reads_formalList
    (formal : FormalTree)
    (more : List FormalTree)
    (apart : (formal :: more).IsChain FormalTree.MayFollow)
    {fuel : Nat}
    (enough : 2 * ((formal :: more).flatMap (·.chars)).length + 1 ≤ fuel)
    (rest : List Char) :
    Reads (formalList fuel) () ((formal :: more).flatMap (·.chars) ++ ['>'])
      ((formal :: more).flatMap (·.events)) rest := by
  have split : ∀ formal : FormalTree, ∀ more : List FormalTree,
      (formal :: more).flatMap (·.chars) ++ ['>'] =
        formal.chars ++ (more.flatMap (·.chars) ++ ['>']) := by
    simp
  induction more generalizing formal fuel with
  | nil =>
      obtain ⟨fuel, rfl⟩ : ∃ less, fuel = less + 1 := ⟨fuel - 1, by omega⟩
      rw [List.flatMap_cons, List.length_append] at enough
      have ends := FormalTree.ends_of_isChain apart rest
      rw [split]
      refine formal.reads (by omega) (by simp) ends (.peek rfl ?_)
      exact reads_advance '>' rest
  | cons next more inductionHypothesis =>
      obtain ⟨fuel, rfl⟩ : ∃ less, fuel = less + 1 := ⟨fuel - 1, by omega⟩
      rw [List.flatMap_cons, List.length_append] at enough
      have ends := FormalTree.ends_of_isChain apart rest
      obtain ⟨follows, apart⟩ := List.isChain_cons_cons.mp apart
      have positive : 0 < formal.chars.length := by
        simp only [FormalTree.chars, List.length_append, List.length_cons]
        omega
      have tail : Reads (formalList fuel) () _ _ rest :=
        inductionHypothesis next apart (by omega)
      rw [split]
      refine formal.reads (by omega) (by simp) (by simpa using ends) ?_
      obtain ⟨others, first⟩ := FormalTree.flatMap_eq_cons next more
      refine .peek (c := next.name.first) (by rw [first]; rfl) ?_
      rw [if_neg follows.1]
      exact tail

/-- The list of type parameters may be missing. -/
theorem FormalTrees.reads
    (trees : FormalTrees)
    {fuel : Nat}
    (enough : 2 * trees.chars.length + 1 ≤ fuel)
    {rest : List Char}
    (ends : ¬ StartsIn ['<'] rest) :
    Reads (formals fuel) () trees.chars trees.events rest := by
  refine .get fun cursor remaining => ?_
  obtain ⟨all, apart⟩ := trees
  cases all with
  | nil =>
      have unopened : cursor.rest.head? ≠ some '<' := by
        intro opened
        obtain ⟨more, same⟩ := List.head?_eq_some_iff.mp opened
        have begins : rest = '<' :: more := remaining.symm.trans same
        exact ends (begins ▸ .cons (by decide) more)
      rw [if_neg unopened]
      exact reads_pure () rest
  | cons formal more =>
      simp only [chars, events, reduceCtorEq, ↓reduceIte, List.cons_append,
        List.length_cons, List.length_append, List.length_nil]
        at enough remaining ⊢
      rw [if_pos (by rw [remaining]; rfl)]
      exact .advance '<' (reads_formalList formal more apart (by omega) rest)

/-- A row of class types up to the end of the text. -/
theorem reads_interfaces
    (trees : List ClassTree)
    {fuel : Nat}
    (enough : 2 * (trees.flatMap (·.chars)).length + 1 ≤ fuel) :
    Reads (interfaces fuel) () (trees.flatMap (·.chars))
      (trees.flatMap (.interface :: ·.events)) [] := by
  induction trees generalizing fuel with
  | nil =>
      obtain ⟨fuel, rfl⟩ : ∃ less, fuel = less + 1 := ⟨fuel - 1, by omega⟩
      rw [interfaces]
      exact .atEnd (reads_pure () [])
  | cons tree trees inductionHypothesis =>
      obtain ⟨fuel, rfl⟩ : ∃ less, fuel = less + 1 := ⟨fuel - 1, by omega⟩
      obtain ⟨_, _, first, _⟩ := tree.startsIn
      have positive : 0 < tree.chars.length := by
        simp [first]
      simp only [List.flatMap_cons, List.length_append,
        List.cons_append] at enough ⊢
      rw [interfaces]
      refine .atEnd ?_
      rw [if_neg (by simp [first])]
      exact .emit _ ((tree.reads (by omega) _).bind
        (inductionHypothesis (by omega)))

/-- A row of parameters up to the closing bracket. -/
theorem reads_parameters
    (trees : List TypeTree)
    {fuel : Nat}
    (enough : 2 * (trees.flatMap (·.chars)).length + 2 ≤ fuel)
    (rest : List Char) :
    Reads (parameters fuel) () (trees.flatMap (·.chars))
      (trees.flatMap (.parameter :: ·.events)) (')' :: rest) := by
  induction trees generalizing fuel with
  | nil =>
      obtain ⟨fuel, rfl⟩ : ∃ less, fuel = less + 1 := ⟨fuel - 1, by omega⟩
      rw [parameters]
      exact .peek rfl (reads_pure () (')' :: rest))
  | cons tree trees inductionHypothesis =>
      obtain ⟨fuel, rfl⟩ : ∃ less, fuel = less + 1 := ⟨fuel - 1, by omega⟩
      obtain ⟨c, more, first, start⟩ := tree.startsIn
      have positive : 0 < tree.chars.length := by
        simp [first]
      have unclosed : c ≠ ')' := by
        rintro rfl
        exact absurd start (by decide)
      simp only [List.flatMap_cons, List.length_append,
        List.cons_append] at enough ⊢
      rw [parameters]
      refine .peek (c := c) (by rw [first]; rfl) ?_
      rw [if_neg unclosed]
      exact .emit _ ((tree.reads (by omega) _).bind
        (inductionHypothesis (by omega)))

/-- A row of thrown types up to the end of the text. -/
theorem reads_thrownTypes
    (trees : List ReferenceTree)
    {fuel : Nat}
    (enough : 2 * (trees.flatMap ('^' :: ·.chars)).length + 1 ≤ fuel) :
    Reads (thrownTypes fuel) () (trees.flatMap ('^' :: ·.chars))
      (trees.flatMap (.thrown :: ·.events)) [] := by
  induction trees generalizing fuel with
  | nil =>
      obtain ⟨fuel, rfl⟩ : ∃ less, fuel = less + 1 := ⟨fuel - 1, by omega⟩
      rw [thrownTypes]
      exact .atEnd (reads_pure () [])
  | cons tree trees inductionHypothesis =>
      obtain ⟨fuel, rfl⟩ : ∃ less, fuel = less + 1 := ⟨fuel - 1, by omega⟩
      simp only [List.flatMap_cons, List.length_append, List.length_cons,
        List.cons_append] at enough ⊢
      rw [thrownTypes]
      refine .atEnd ?_
      rw [if_neg (by simp)]
      exact .expect '^' (.emit _ ((tree.reads (by omega) _).bind
        (inductionHypothesis (by omega))))

/-- A class signature is read to its end, and told as its tree tells it. -/
theorem ClassSignature.reads
    (tree : ClassSignature)
    {fuel : Nat}
    (enough : 2 * tree.chars.length + 1 ≤ fuel) :
    Reads (classSignature fuel) () tree.chars tree.events [] := by
  simp only [chars, events, List.append_assoc, List.cons_append,
    List.length_append] at enough ⊢
  have ends :
      ¬ StartsIn ['<']
        (tree.superclass.chars ++ tree.interfaces.flatMap (·.chars) ++ []) :=
    ((tree.superclass.startsIn.append _).append _).disjoint (by decide)
  refine (tree.formals.reads (by omega) ends).bind (.emit _ ?_)
  exact (tree.superclass.reads (by omega) _).bind
    (reads_interfaces tree.interfaces (by omega))

/-- A method signature is read to its end, and told as its tree tells it. -/
theorem MethodSignature.reads
    (tree : MethodSignature)
    {fuel : Nat}
    (enough : 2 * tree.chars.length + 1 ≤ fuel) :
    Reads (methodSignature fuel) () tree.chars tree.events [] := by
  simp only [chars, events, List.append_assoc, List.cons_append,
    List.length_append, List.length_cons] at enough ⊢
  refine (tree.formals.reads (by omega)
    (not_startsIn_cons (by decide) _)).bind (.expect '(' ?_)
  refine (reads_parameters tree.parameters (by omega) _).bind ?_
  refine .expect ')' (.emit _ ?_)
  have thrown : Reads (thrownTypes fuel) () _ _ [] :=
    reads_thrownTypes tree.thrown (by omega)
  cases result : tree.result with
  | none =>
      refine .peek rfl ?_
      exact .advance 'V' (.emit _ thrown)
  | some type =>
      simp only [result, Option.map_some, Option.getD_some] at enough ⊢
      obtain ⟨c, more, first, start⟩ := type.startsIn
      have given : c ≠ 'V' := by
        rintro rfl
        exact absurd start (by decide)
      refine .peek (c := c) (by rw [first]; rfl) ?_
      rw [if_neg given]
      exact (type.reads (by omega) _).bind thrown

/-- A field signature is read to its end, and told as its tree tells it. -/
theorem reads_fieldSignature
    (tree : TypeTree)
    {fuel : Nat}
    (enough : 2 * tree.chars.length + 1 ≤ fuel) :
    Reads (fieldSignature fuel) () tree.chars tree.events [] := by
  have whole :
      Reads (fieldSignature fuel) () (tree.chars ++ []) (tree.events ++ []) [] :=
    (tree.reads enough _).bind (.atEnd (reads_pure () []))
  simpa using whole

/-! ## Exactly the grammar -/

/--
Reading accepts the texts of trees and no others, and reports the events of
the tree. The tree is the only one with its text, and its events close every
class type that they open once, after all that is inside it.
-/
structure Recognizes
    (trace : String → Trace)
    (chars : τ → List Char)
    (events : τ → List Event) :
    Prop where
  accepts :
    ∀ text,
      (trace text).malformed? = none ↔
        ∃ tree, String.ofList (chars tree) = text
  reports :
    ∀ tree, (trace (String.ofList (chars tree))).events = events tree
  unique : Function.Injective chars
  closes : ∀ tree, openTypes 0 (events tree) = some 0

/-- A walk that succeeds leaves a trace without a fault. -/
theorem trace_eq
    {walk : Nat → Scan Unit}
    {text : String}
    {after : Cursor}
    (read :
      Succeeds (walk (budget text.toList)) { rest := text.toList } () after) :
    trace walk text = ⟨after.events, none⟩ := by
  have ran :
      (walk (budget text.toList)).run.run { rest := text.toList } =
        (.ok (), after) :=
    read
  simp only [trace, ran]

/-- A text that is accepted was read with success. -/
theorem exists_of_malformed?_eq_none
    {walk : Nat → Scan Unit}
    {text : String}
    (accepted : (trace walk text).malformed? = none) :
    ∃ after,
      Succeeds (walk (budget text.toList)) { rest := text.toList } () after := by
  cases ran :
      Scan.at (walk (budget text.toList)) { rest := text.toList } with
  | mk outcome after =>
      cases outcome with
      | ok value =>
          exact ⟨after, ran⟩
      | error fault =>
          have failed :
              (walk (budget text.toList)).run.run { rest := text.toList } =
                (.error fault, after) :=
            ran
          simp [trace, failed] at accepted

/--
A walk that is sound and complete for trees without ambiguity recognizes them.
-/
theorem Recognizes.of_walk
    {walk : Nat → Scan Unit}
    {chars : τ → List Char}
    {events : τ → List Event}
    (sound :
      ∀ fuel {cursor after : Cursor} {value : Unit},
        Succeeds (walk fuel) cursor value after →
          ∃ tree,
            Between (chars tree) (events tree) cursor after ∧
              after.rest = [])
    (complete :
      ∀ tree {fuel : Nat},
        2 * (chars tree).length + 1 ≤ fuel →
          Reads (walk fuel) () (chars tree) (events tree) [])
    (unique : Function.Injective chars)
    (closes : ∀ tree, openTypes 0 (events tree) = some 0) :
    Recognizes (trace walk) chars events := by
  have read : ∀ tree,
      trace walk (String.ofList (chars tree)) = ⟨events tree, none⟩ := by
    intro tree
    let text := String.ofList (chars tree)
    have enough : 2 * (chars tree).length + 1 ≤ budget text.toList := by
      simp [text, budget]
    obtain ⟨after, read, -, told⟩ :=
      complete tree enough { rest := text.toList } (by simp [text])
    rw [trace_eq read, told]
    rfl
  refine ⟨fun text => ?_, fun tree => ?_, unique, closes⟩
  · constructor
    · intro accepted
      obtain ⟨after, read⟩ := exists_of_malformed?_eq_none accepted
      obtain ⟨tree, passed, ended⟩ := sound _ read
      refine ⟨tree, ?_⟩
      have whole : text.toList = chars tree ++ after.rest := passed.text
      rw [ended, List.append_nil] at whole
      rw [← whole, String.ofList_toList]
    · rintro ⟨tree, rfl⟩
      rw [read]
  · rw [read]

/-- Class signatures are recognized. -/
theorem traceClass_recognizes :
    Recognizes traceClass ClassSignature.chars ClassSignature.events :=
  .of_walk classSignature_sound ClassSignature.reads
    ClassSignature.chars_injective ClassSignature.openTypes_events

/-- Method signatures are recognized. -/
theorem traceMethod_recognizes :
    Recognizes traceMethod MethodSignature.chars MethodSignature.events :=
  .of_walk methodSignature_sound MethodSignature.reads
    MethodSignature.chars_injective MethodSignature.openTypes_events

/-- Field signatures are recognized. -/
theorem traceField_recognizes :
    Recognizes traceField TypeTree.chars TypeTree.events := by
  refine .of_walk fieldSignature_sound reads_fieldSignature
    TypeTree.chars_injective fun tree => ?_
  rw [← List.append_nil tree.events, tree.openTypes_events]
  rfl

/-- Signatures of all three kinds are recognized exactly. -/
theorem traces_recognize :
    Recognizes traceClass ClassSignature.chars ClassSignature.events ∧
      Recognizes traceMethod MethodSignature.chars MethodSignature.events ∧
      Recognizes traceField TypeTree.chars TypeTree.events :=
  ⟨traceClass_recognizes, traceMethod_recognizes, traceField_recognizes⟩

end TypeAtlas.Signature
