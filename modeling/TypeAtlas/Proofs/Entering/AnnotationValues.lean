import Mathlib.Data.List.Nodup
import TypeAtlas.Proofs.Entering.Annotations

namespace TypeAtlas

/-!
# What annotations keep of their values

Values that are met under one name are strung together, but an array takes the
place of all that was met before it. So the last array under a name and what
comes after it are kept, in order, and what came before is lost. Arrays inside
of arrays lose values in the same way, for the items of an array are gathered
as if they had one name.

None of this shows in a declaration that a compiler would accept: names do not
repeat there, and an array holds no arrays. What is read from such a
declaration is its mirror image.
-/

/-! ## Leaves -/

mutual

/-- The values that are no sequences, from left to right. -/
def Value.leaves : Value → List Value
  | .scalar value => [.scalar value]
  | .classLiteral type => [.classLiteral type]
  | .enumConstant type constant => [.enumConstant type constant]
  | .annotated use => [.annotated use]
  | .sequence items => Value.leavesOf items

def Value.leavesOf : List Value → List Value
  | [] => []
  | value :: values => value.leaves ++ Value.leavesOf values

end

def ElementValue.isArray : ElementValue → Bool
  | .array _ => true
  | .scalar _ | .enumConstant _ _ | .classLiteral _ | .annotated _ => false

mutual

/-- The element values that are no arrays, from left to right. -/
def ElementValue.leaves : ElementValue → List ElementValue
  | .scalar value => [.scalar value]
  | .enumConstant descriptor constant => [.enumConstant descriptor constant]
  | .classLiteral descriptor => [.classLiteral descriptor]
  | .annotated decl => [.annotated decl]
  | .array items => ElementValue.leavesOf items

def ElementValue.leavesOf : List ElementValue → List ElementValue
  | [] => []
  | value :: values => value.leaves ++ ElementValue.leavesOf values

end

mutual

/-- The leaves that are left of an element value. -/
def ElementValue.kept : ElementValue → List ElementValue
  | .scalar value => [.scalar value]
  | .enumConstant descriptor constant => [.enumConstant descriptor constant]
  | .classLiteral descriptor => [.classLiteral descriptor]
  | .annotated decl => [.annotated decl]
  | .array items => ElementValue.keptOf items

/-- Of values under one name, those before the last array are lost. -/
def ElementValue.keptOf : List ElementValue → List ElementValue
  | [] => []
  | value :: values =>
      if values.any (·.isArray) then
        ElementValue.keptOf values
      else
        value.kept ++ ElementValue.keptOf values

end

mutual

/-- Whether no leaf of an element value is lost. -/
def ElementValue.keepsAll : ElementValue → Bool
  | .array items => ElementValue.keepsAllOf items
  | .scalar _ | .enumConstant _ _ | .classLiteral _ | .annotated _ => true

/-- What stands before an array has to be without leaves. -/
def ElementValue.keepsAllOf : List ElementValue → Bool
  | [] => true
  | value :: values =>
      (if values.any (·.isArray) then
        value.leaves.isEmpty
      else
        value.keepsAll)
        && ElementValue.keepsAllOf values

end

namespace ElementValue

mutual

/--
What is kept of a value is among the leaves written in it, in their order.
-/
theorem kept_sublist :
    (value : ElementValue) →
      value.kept.Sublist value.leaves
  | .scalar _ | .enumConstant _ _ | .classLiteral _ | .annotated _ => by
      rw [kept, leaves]
  | .array items => by
      rw [kept, leaves]
      exact keptOf_sublist items

/-- What is kept is kept in order. -/
theorem keptOf_sublist :
    (values : List ElementValue) →
      (keptOf values).Sublist (leavesOf values)
  | [] => by
      rw [keptOf, leavesOf]
  | value :: values => by
      rw [keptOf, leavesOf]
      split
      · exact (keptOf_sublist values).trans (List.sublist_append_right _ _)
      · exact (kept_sublist value).append (keptOf_sublist values)

end

mutual

/-- A value is kept whole just when no leaf stands before an array inside it. -/
theorem kept_eq_iff :
    (value : ElementValue) →
      (value.kept = value.leaves ↔ value.keepsAll = true)
  | .scalar _ | .enumConstant _ _ | .classLiteral _ | .annotated _ => by
      simp [kept, leaves, keepsAll]
  | .array items => by
      rw [kept, leaves, keepsAll]
      exact keptOf_eq_iff items

/-- Everything is kept exactly if nothing stands before an array. -/
theorem keptOf_eq_iff :
    (values : List ElementValue) →
      (keptOf values = leavesOf values ↔ keepsAllOf values = true)
  | [] => by
      simp [keptOf, leavesOf, keepsAllOf]
  | value :: values => by
      have first := kept_eq_iff value
      have rest := keptOf_eq_iff values
      have fewerFirst := (kept_sublist value).length_le
      have fewerRest := (keptOf_sublist values).length_le
      rw [keptOf, leavesOf, keepsAllOf]
      split
      · rw [Bool.and_eq_true, List.isEmpty_iff, ← rest]
        constructor
        · intro same
          have lengths := congrArg List.length same
          rw [List.length_append] at lengths
          have empty : value.leaves = [] :=
            List.length_eq_zero_iff.mp (by omega)
          exact ⟨empty, by simpa [empty] using same⟩
        · rintro ⟨empty, same⟩
          rw [empty, same, List.nil_append]
      · rw [Bool.and_eq_true, ← first, ← rest]
        constructor
        · intro same
          have lengths := congrArg List.length same
          rw [List.length_append, List.length_append] at lengths
          exact List.append_inj same (by omega)
        · rintro ⟨sameFirst, sameRest⟩
          rw [sameFirst, sameRest]

end

end ElementValue

/-! ## Gathering -/

/-- What an element value gives by itself. -/
def ElementValue.alone (value : ElementValue) : Value :=
  value.after none

/-- The first value under a key stands for itself. -/
@[simp] theorem Values.gather_none
    (value : Value) :
    gather none value = value :=
  rfl

namespace Value

/-- The leaves of values in a row are those of each of them. -/
theorem leavesOf_append
    (first second : List Value) :
    leavesOf (first ++ second) = leavesOf first ++ leavesOf second := by
  induction first with
  | nil =>
      rfl
  | cons value values inductionHypothesis =>
      rw [List.cons_append, leavesOf, inductionHypothesis, leavesOf,
        List.append_assoc]

/-- A value that is met goes behind all that was met before. -/
theorem leaves_gather
    (before : Option Value)
    (value : Value) :
    (Values.gather before value).leaves =
      leavesOf before.toList ++ value.leaves := by
  cases before with
  | none =>
      rfl
  | some first =>
      cases first <;>
        simp [Values.gather, leaves, leavesOf, leavesOf_append]

/-- Items that are gathered have the leaves of what they are gathered from. -/
theorem leavesOf_itemsOf
    (gathered : Option Value) :
    leavesOf (Values.itemsOf gathered) = leavesOf gathered.toList := by
  cases gathered with
  | none =>
      rfl
  | some value =>
      cases value <;> simp [Values.itemsOf, leaves, leavesOf]

end Value

namespace ElementValue

mutual

/-- An array starts anew, and every other value adds itself. -/
theorem leaves_after
    (before : Option Value) :
    (value : ElementValue) →
      (value.after before).leaves =
        (if value.isArray then [] else Value.leavesOf before.toList)
          ++ value.kept.map alone
  | .scalar _ | .enumConstant _ _ | .classLiteral _ | .annotated _ => by
      simp [isArray, kept, alone, Value.leaves_gather, Value.leaves]
  | .array items => by
      have inner := leaves_gathered none items
      rw [after_array, Value.leaves, Value.leavesOf_itemsOf, inner]
      simp [isArray, kept, Value.leavesOf]

/-- An array among the values starts anew. -/
theorem leaves_gathered
    (before : Option Value) :
    (values : List ElementValue) →
      Value.leavesOf (gathered before values).toList =
        (if values.any (·.isArray) then []
          else Value.leavesOf before.toList)
          ++ (keptOf values).map alone
  | [] => by
      simp [keptOf]
  | value :: values => by
      have first := leaves_after before value
      have rest := leaves_gathered (some (value.after before)) values
      rw [gathered_cons, rest, keptOf, List.any_cons]
      by_cases later : values.any (·.isArray) = true
      · simp [later]
      · simp [later, Value.leavesOf, first]

end

end ElementValue

/-! ## Losing values -/

/-- The element values that are given under a name, as they are met. -/
def AnnotationDecl.given
    (decl : AnnotationDecl)
    (key : String) :
    List ElementValue :=
  (decl.values.filter (·.1 = key)).map Prod.snd

namespace Values

/-- Replacing the value of a key leaves the values of other keys. -/
theorem lookup_replaced
    (values : Values)
    (key other : String)
    (value : Value) :
    (values.map fun (k, v) => if k = key then (k, value) else (k, v)).lookup
        other =
      (values.lookup other).map fun known =>
        if other = key then value else known := by
  induction values with
  | nil =>
      rfl
  | cons pair values inductionHypothesis =>
      obtain ⟨name, known⟩ := pair
      have head :
          (if name = key then (name, value) else (name, known)) =
            (name, if name = key then value else known) := by
        split <;> rfl
      rw [List.map_cons, List.lookup_cons, head, List.lookup_cons,
        inductionHypothesis]
      by_cases here : other = name
      · simp [here]
      · have skipped : (other == name) = false := by simpa using here
        simp [skipped]

/-- A value that is inserted is found under its key, and under no other. -/
theorem lookup_insert
    (values : Values)
    (key other : String)
    (value : Value) :
    (values.insert key value).lookup other =
      if other = key then some value else values.lookup other := by
  unfold insert
  by_cases same : other = key
  · subst same
    cases found : values.lookup other with
    | none =>
        simp [List.lookup_append, found]
    | some known =>
        simp [lookup_replaced, found]
  · have skipped : (other == key) = false := by simpa using same
    split
    · simp [lookup_replaced, same]
    · simp [List.lookup_append, List.lookup_cons, skipped]

/-- What stands under a name is gathered from what is given under it. -/
theorem lookup_taking
    (values : Values)
    (pairs : List (String × ElementValue))
    (key : String) :
    (values.taking pairs).lookup key =
      ElementValue.gathered (values.lookup key)
        ((pairs.filter (·.1 = key)).map Prod.snd) := by
  induction pairs generalizing values with
  | nil =>
      simp
  | cons pair pairs inductionHypothesis =>
      obtain ⟨other, value⟩ := pair
      rw [taking_cons, inductionHypothesis, lookup_insert]
      by_cases here : other = key
      · simp [here]
      · simp [here, Ne.symm here]

end Values

/--
What is stored of the values given under a name: their leaves in order, less
those before the last array at each level. All of them are stored exactly if
no leaf stands before an array.
-/
structure ElementValue.Stored
    (given : List ElementValue)
    (stored : List Value) :
    Prop where
  kept : stored = (keptOf given).map alone
  inOrder : stored.Sublist ((leavesOf given).map alone)
  complete_iff :
    stored = (leavesOf given).map alone ↔ keepsAllOf given = true

/-- Values given under one name are stored with the leaves kept of them. -/
theorem ElementValue.stored_gathered
    (given : List ElementValue) :
    Stored given (Value.leavesOf (gathered none given).toList) := by
  have stored :
      Value.leavesOf (gathered none given).toList =
        (keptOf given).map alone := by
    simp [leaves_gathered, Value.leavesOf]
  refine ⟨stored, ?_, ?_⟩
  · rw [stored]
    exact (keptOf_sublist given).map alone
  · rw [stored, ← keptOf_eq_iff]
    constructor
    · intro same
      have lengths := congrArg List.length same
      rw [List.length_map, List.length_map] at lengths
      exact (keptOf_sublist given).eq_of_length lengths
    · intro same
      rw [same]

/--
An annotation stores under each name, and an element keeps of its default,
exactly what is left of the values once every array has taken the place of
those before it.
-/
theorem Filing.stores_leaves
    (store : Store) :
    (∀ (decl : AnnotationDecl) (key : String),
      ElementValue.Stored (decl.given key)
        (Value.leavesOf
          (((takeUse decl).run store).1.values.lookup key).toList)) ∧
      ∀ value : ElementValue,
        ElementValue.Stored [value]
          ((takeDefault value).run store).1.leaves := by
  constructor
  · intro decl key
    rw [(takeUse_hinting decl).notes store]
    have values : decl.use.values = Values.taking [] decl.values := by
      rw [decl.use_eq]
    have found := Values.lookup_taking [] decl.values key
    rw [← AnnotationDecl.use, values, found]
    exact ElementValue.stored_gathered _
  · intro value
    rw [takeDefault, (takeValue_hinting none value).notes store,
      ← ElementValue.after]
    have stored := ElementValue.stored_gathered [value]
    simpa [Value.leavesOf] using stored

/-- A number before an array is lost, under a name as well as in an array. -/
theorem Filing.loses_number_before_array :
    let one := ElementValue.scalar (.int 1)
    let two := ElementValue.scalar (.int 2)
    let decl : AnnotationDecl :=
      { descriptor := "Lc/A;", values := [("v", one), ("v", .array [two])] }
    let default := ElementValue.array [.array [one], .array [two]]
    let taken := ((takeUse decl).run {}).1
    (ElementValue.leavesOf (decl.given "v")).map ElementValue.alone =
        [.scalar (.int 1), .scalar (.int 2)] ∧
      Value.leavesOf (taken.values.lookup "v").toList =
        [.scalar (.int 2)] ∧
      default.leaves.map ElementValue.alone =
        [.scalar (.int 1), .scalar (.int 2)] ∧
      ((takeDefault default).run {}).1.leaves = [.scalar (.int 2)] := by
  refine ⟨rfl, rfl, rfl, rfl⟩

/-! ## Mirror images -/

mutual

/-- An element value, with the types that it names in place of descriptors. -/
def ElementValue.image : ElementValue → Value
  | .scalar value => .scalar value
  | .enumConstant descriptor constant =>
      .enumConstant (Origin.enumConstant descriptor).reference constant
  | .classLiteral descriptor =>
      .classLiteral (Origin.classLiteral descriptor).reference
  | .annotated decl => .annotated decl.image
  | .array items => .sequence (ElementValue.images items)

def ElementValue.images : List ElementValue → List Value
  | [] => []
  | item :: items => item.image :: ElementValue.images items

/-- An annotation, with the types that it names in place of descriptors. -/
def AnnotationDecl.image : AnnotationDecl → AnnotationUse
  | ⟨descriptor, _, values⟩ =>
      { type := (Origin.annotationType descriptor).reference
        values := AnnotationDecl.imagePairs values }

def AnnotationDecl.imagePairs : List (String × ElementValue) → Values
  | [] => []
  | (key, value) :: pairs =>
      (key, value.image) :: AnnotationDecl.imagePairs pairs

end

mutual

/-- Whether a compiler would accept an element value. -/
def ElementValue.isLegal : ElementValue → Bool
  | .scalar _ | .enumConstant _ _ | .classLiteral _ => true
  | .annotated decl => decl.isLegal
  | .array items => ElementValue.areLegal items

/-- The items of an array are no arrays. -/
def ElementValue.areLegal : List ElementValue → Bool
  | [] => true
  | item :: items =>
      !item.isArray && item.isLegal && ElementValue.areLegal items

/-- The names of an annotation's elements do not repeat. -/
def AnnotationDecl.isLegal : AnnotationDecl → Bool
  | ⟨_, _, values⟩ =>
      decide (values.map Prod.fst).Nodup && AnnotationDecl.legalPairs values

def AnnotationDecl.legalPairs : List (String × ElementValue) → Bool
  | [] => true
  | (_, value) :: pairs =>
      value.isLegal && AnnotationDecl.legalPairs pairs

end

namespace Values

/-- What is no sequence becomes one more item. -/
theorem itemsOf_gather
    (before : Option Value)
    {value : Value}
    (single : itemsOf (some value) = [value]) :
    itemsOf (some (gather before value)) = itemsOf before ++ [value] := by
  cases before with
  | none =>
      exact single
  | some first =>
      cases first <;> rfl

/-- A value under a new name goes behind the others. -/
theorem insert_new
    {values : Values}
    {key : String}
    (new : key ∉ values.map Prod.fst)
    (value : Value) :
    values.insert key value = values ++ [(key, value)] ∧
      values.lookup key = none := by
  have unknown : values.lookup key = none := by
    refine List.lookup_eq_none_iff.mpr fun pair member => ?_
    have different : key ≠ pair.1 := by
      rintro rfl
      exact new (List.mem_map_of_mem member)
    simpa using different
  exact ⟨by simp [insert, unknown], unknown⟩

end Values

/-- What is no array is gathered as it is. -/
theorem ElementValue.after_of_leaf
    (before : Option Value)
    {value : ElementValue}
    (isLeaf : value.isArray = false) :
    value.after before = Values.gather before value.alone ∧
      Values.itemsOf (some value.alone) = [value.alone] := by
  cases value with
  | scalar _ | enumConstant _ _ | classLiteral _ | annotated _ =>
      simp [alone, Values.itemsOf]
  | array items =>
      simp [isArray] at isLeaf

mutual

/-- By itself, an element value gives its image. -/
theorem ElementValue.alone_eq_image :
    (value : ElementValue) →
      value.isLegal = true →
        value.alone = value.image
  | .scalar _, _ | .enumConstant _ _, _ | .classLiteral _, _ => by
      simp [ElementValue.alone, ElementValue.image]
  | .annotated decl, legal => by
      rw [ElementValue.isLegal] at legal
      have inner := AnnotationDecl.use_eq_image decl legal
      simp [ElementValue.alone, ElementValue.image, inner]
  | .array items, legal => by
      rw [ElementValue.isLegal] at legal
      have inner := ElementValue.itemsOf_gathered none items legal
      rw [ElementValue.alone, ElementValue.after_array, inner,
        ElementValue.image]
      rfl

/-- Items of a legal array are gathered to their images, in order. -/
theorem ElementValue.itemsOf_gathered
    (before : Option Value) :
    (items : List ElementValue) →
      ElementValue.areLegal items = true →
        Values.itemsOf (ElementValue.gathered before items) =
          Values.itemsOf before ++ ElementValue.images items
  | [], _ => by
      simp [ElementValue.images]
  | item :: items, legal => by
      rw [ElementValue.areLegal, Bool.and_eq_true, Bool.and_eq_true] at legal
      obtain ⟨⟨isLeaf, legalItem⟩, legalItems⟩ := legal
      have first := ElementValue.alone_eq_image item legalItem
      have rest := ElementValue.itemsOf_gathered
        (some (item.after before)) items legalItems
      obtain ⟨gathers, single⟩ :=
        ElementValue.after_of_leaf before (by simpa using isLeaf)
      rw [ElementValue.gathered_cons, rest, gathers,
        Values.itemsOf_gather before single, first, ElementValue.images,
        List.append_assoc]
      rfl

theorem AnnotationDecl.use_eq_image :
    (decl : AnnotationDecl) →
      decl.isLegal = true →
        decl.use = decl.image
  | ⟨descriptor, visible, values⟩, legal => by
      rw [AnnotationDecl.isLegal, Bool.and_eq_true,
        decide_eq_true_eq] at legal
      have inner := Values.taking_eq_images [] values legal.2
        (by simpa using legal.1)
      rw [AnnotationDecl.use_eq, AnnotationDecl.image, inner]
      rfl

/-- Names that are all new are taken in their order. -/
theorem Values.taking_eq_images
    (values : Values) :
    (pairs : List (String × ElementValue)) →
      AnnotationDecl.legalPairs pairs = true →
        (values.map Prod.fst ++ pairs.map Prod.fst).Nodup →
          values.taking pairs = values ++ AnnotationDecl.imagePairs pairs
  | [], _, _ => by
      simp [AnnotationDecl.imagePairs]
  | (key, value) :: pairs, legal, distinct => by
      rw [AnnotationDecl.legalPairs, Bool.and_eq_true] at legal
      have first := ElementValue.alone_eq_image value legal.1
      have new : key ∉ values.map Prod.fst := by
        intro known
        exact List.disjoint_of_nodup_append distinct known (by simp)
      obtain ⟨appended, unknown⟩ := Values.insert_new new value.image
      have rest := Values.taking_eq_images (values ++ [(key, value.image)])
        pairs legal.2 (by simpa using distinct)
      rw [Values.taking_cons, unknown, ← ElementValue.alone, first, appended,
        rest, AnnotationDecl.imagePairs, List.append_assoc]
      rfl

end

/-! ## Mentioning -/

namespace Entry

/-- Of several mentions, the first that names a category counts. -/
theorem afterMention_afterMention
    (name : TypeName)
    (first second : Option Category)
    (before : Option Entry) :
    afterMention name second (some (afterMention name first before)) =
      afterMention name (first <|> second) before := by
  cases before with
  | none =>
      cases first <;> cases second <;>
        simp [afterMention, ofName, fileUnder]
  | some entry =>
      cases first with
      | none =>
          rfl
      | some category =>
          by_cases filed : entry.pool.isSome = true <;> cases second <;>
            simp [afterMention, filed, fileUnder]

end Entry

/-- The category of the first mention of a name that names one. -/
def hintedAs
    (hints : List Hint)
    (name : TypeName) :
    Option Category :=
  (hints.filter (·.1 = name)).findSome? Prod.snd

/--
The first category that a name is mentioned with is the one it is hinted at.
-/
theorem hintedAs_cons
    (mentioned name : TypeName)
    (category : Option Category)
    (hints : List Hint) :
    hintedAs ((mentioned, category) :: hints) name =
      if mentioned = name then category <|> hintedAs hints name
      else hintedAs hints name := by
  by_cases here : mentioned = name
  · cases category <;> simp [hintedAs, here]
  · simp [hintedAs, here]

/-- A name that is not mentioned is not hinted at. -/
theorem hintedAs_of_unmentioned
    {hints : List Hint}
    {name : TypeName}
    (unmentioned : name ∉ hints.map Prod.fst) :
    hintedAs hints name = none := by
  have none : hints.filter (·.1 = name) = [] := by
    refine List.filter_eq_nil_iff.mpr fun hint member => ?_
    simp only [decide_eq_true_eq]
    rintro rfl
    exact unmentioned (List.mem_map_of_mem member)
  rw [hintedAs, none, List.findSome?_nil]

/-- What is found after mentions, from what was found before. -/
theorem Store.find?_replay_mentions
    (store : Store)
    {hints : List Hint}
    (tracked : TypeName.root ∉ hints.map Prod.fst)
    (name : TypeName) :
    (store.replay (mentions hints)).find? name =
      if name ∈ hints.map Prod.fst then
        some (Entry.afterMention name (hintedAs hints name)
          (store.find? name))
      else
        store.find? name := by
  induction hints generalizing store with
  | nil =>
      simp [mentions]
  | cons hint hints inductionHypothesis =>
      obtain ⟨mentioned, category⟩ := hint
      rw [List.map_cons, List.mem_cons, not_or] at tracked
      have rest := inductionHypothesis (store.mention mentioned category)
        tracked.2
      have notRoot : mentioned ≠ TypeName.root := Ne.symm tracked.1
      refine rest.trans ?_
      rw [hintedAs_cons, find?_mention]
      simp only [List.map_cons, List.mem_cons]
      by_cases here : name = mentioned
      · subst here
        by_cases again : name ∈ hints.map Prod.fst
        · simp [again, notRoot, Entry.afterMention_afterMention]
        · simp [again, notRoot, hintedAs_of_unmentioned again]
      · have elsewhere : mentioned ≠ name := Ne.symm here
        by_cases later : name ∈ hints.map Prod.fst <;>
          simp [here, elsewhere, later]

/-- What the types that an annotation names are mentioned as. -/
def AnnotationDecl.hints (decl : AnnotationDecl) : List Hint :=
  decl.origins.flatMap (·.hints)

/-- No annotation hints at the root type. -/
theorem AnnotationDecl.root_not_mem_hints
    (decl : AnnotationDecl) :
    TypeName.root ∉ decl.hints.map Prod.fst := by
  intro member
  obtain ⟨hint, inHints, isRoot⟩ := List.mem_map.mp member
  obtain ⟨origin, -, inOrigin⟩ := List.mem_flatMap.mp inHints
  exact origin.root_not_mem_hints (List.mem_map.mpr ⟨hint, inOrigin, isRoot⟩)

/--
An annotation with everything in it: arrays of one item and of none, an enum
constant, a nested annotation, and class literals of every kind.
-/
def AnnotationDecl.tagged : AnnotationDecl :=
  { descriptor := "Lc/Tagged;"
    values :=
      [("names", .array [.scalar (.text "one")]),
        ("none", .array []),
        ("mode", .enumConstant "Lc/Mode;" "FAST"),
        ("inner", .annotated
          { descriptor := "Lc/Inner;"
            values := [("names", .classLiteral "Lc/Mode;")] }),
        ("types", .array
          [.classLiteral "V", .classLiteral "[I", .classLiteral "Lc/Other;",
            .classLiteral "Ljava/lang/Object;", .classLiteral "?"])] }

end TypeAtlas
