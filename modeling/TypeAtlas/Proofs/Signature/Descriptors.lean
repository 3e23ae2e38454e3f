import TypeAtlas.Proofs.Descriptor.Reading
import TypeAtlas.Proofs.Entering.MemberModels
import TypeAtlas.Proofs.Signature.Translation

namespace TypeAtlas

/-!
# Descriptors as signatures

The text of a descriptor is the text of a signature as well, if no class name
in it has a character by which a signature ends class names. The tree of that
signature has neither arguments nor nested classes nor type variables, so all
that it says is what the descriptor says: a class under some dimensions, or
nothing where the descriptor has a primitive type or the root type.
-/

namespace Descriptor

/--
A text of a descriptor without the characters that end a class name in a
signature, but not in a descriptor. Only class names can have them.
-/
def IsPlain (text : List Char) : Prop :=
  '<' ∉ text ∧ '.' ∉ text

instance (text : List Char) : Decidable (IsPlain text) :=
  inferInstanceAs (Decidable (_ ∧ _))

/-- Part of a plain text is plain. -/
theorem IsPlain.mono
    {part text : List Char}
    (plain : IsPlain text)
    (subset : part ⊆ text) :
    IsPlain part :=
  ⟨fun member => plain.1 (subset member), fun member => plain.2 (subset member)⟩

/-- What a signature has to say of a type that it gives no arguments. -/
def generic? (type : Descriptor) : Option Generic :=
  if (Origin.element type).reference.tracked then some type.raw else none

/-- A type without a generic reading stands for itself. -/
theorem getD_generic?
    (type : Descriptor) :
    type.generic?.getD type.raw = type.raw := by
  unfold generic?
  split <;> rfl

/-- What a signature leaves open, the descriptor says. -/
theorem generic?_or_raw
    (type : Option Descriptor) :
    (type.bind generic? <|> type.map (·.raw)) = type.map (·.raw) := by
  cases type with
  | none =>
      rfl
  | some type =>
      simp only [Option.bind_some, Option.map_some, generic?]
      split <;> rfl

/-- An array says the same as what it is of, under its own dimensions. -/
theorem generic?_array
    (type : Descriptor)
    (dimensions : Nat) :
    (array type dimensions).generic? =
      type.generic?.map (·.withDimensions dimensions) := by
  have same :
      (Origin.element (array type dimensions)).reference =
        (Origin.element type).reference :=
    rfl
  unfold generic?
  rw [same]
  split <;> rfl

/-- What is not an array has no dimensions. -/
theorem WritesElement.dimensions_eq
    {text : List Char}
    {type : Descriptor}
    (written : WritesElement text type) :
    type.dimensions = 0 := by
  cases written <;> rfl

end Descriptor

namespace Signature

/-! ## Types -/

/-- A tree that says of a type what the descriptor says. -/
structure TypeTree.Spells
    (tree : TypeTree)
    (type : Descriptor) :
    Prop where
  translate :
    ∀ scope dimensions,
      tree.translate scope dimensions =
        type.generic?.map fun generic =>
          generic.withDimensions (dimensions + generic.dimensions)
  mentions : tree.mentions none = (Origin.element type).hints

/-- The tree of a class that is only named. -/
theorem ClassTree.spells_named
    (name : Identifier classStops) :
    (TypeTree.reference (.classType (.named name .omitted .nil))).Spells
      (.object (TypeName.ofInternal name.name)) := by
  have root : TypeName.root = "java.lang.Object" :=
    rfl
  constructor
  · intro scope dimensions
    simp only [TypeTree.translate, ReferenceTree.translate,
      ClassTree.translate, SegmentTrees.innermost, BracketTree.translate,
      ← root]
    by_cases isRoot : TypeName.ofInternal name.name = TypeName.root
    · simp [isRoot, Descriptor.generic?, Origin.reference,
        Descriptor.objectName?, Descriptor.element, Reference.toType]
    · simp [isRoot, Descriptor.generic?, Descriptor.raw, Origin.reference,
        Descriptor.objectName?, Descriptor.element, Reference.toType,
        Descriptor.dimensions, Generic.withDimensions, Generic.ofReference]
  · simp only [TypeTree.mentions, ReferenceTree.mentions, ClassTree.mentions,
      BracketTree.mentions, SegmentTrees.mentions, ← root]
    by_cases isRoot : TypeName.ofInternal name.name = TypeName.root
    · simp [isRoot, Origin.hints, Origin.reference, Descriptor.objectName?,
        Descriptor.element, Reference.toType]
    · simp [isRoot, Origin.hints, Origin.reference, Origin.hint?,
        Descriptor.objectName?, Descriptor.element, Reference.toType]

/-- A primitive type is spelled in both ways alike. -/
theorem TypeTree.spells_base
    (type : BaseType) :
    (TypeTree.base type).Spells (.base type) :=
  ⟨fun _ _ => rfl, rfl⟩

/-- The tree of an array of types. -/
def TypeTree.under : Nat → TypeTree → TypeTree
  | 0, tree => tree
  | dimensions + 1, tree => .reference (.array (tree.under dimensions))

/-- Brackets go before the type they are about. -/
theorem TypeTree.chars_under
    (dimensions : Nat)
    (tree : TypeTree) :
    (tree.under dimensions).chars =
      List.replicate dimensions '[' ++ tree.chars := by
  induction dimensions with
  | zero =>
      rfl
  | succ dimensions inductionHypothesis =>
      simp [under, TypeTree.chars, ReferenceTree.chars, inductionHypothesis,
        List.replicate_succ]

/-- Brackets mention nothing. -/
theorem TypeTree.mentions_under
    (dimensions : Nat)
    (tree : TypeTree)
    (hint : Option Category) :
    (tree.under dimensions).mentions hint = tree.mentions hint := by
  induction dimensions with
  | zero =>
      rfl
  | succ dimensions inductionHypothesis =>
      simpa [under, TypeTree.mentions, ReferenceTree.mentions] using
        inductionHypothesis

/-- Brackets add to the dimensions of the type. -/
theorem TypeTree.translate_under
    (dimensions outer : Nat)
    (tree : TypeTree)
    (scope : Scope) :
    (tree.under dimensions).translate scope outer =
      tree.translate scope (outer + dimensions) := by
  induction dimensions generalizing outer with
  | zero =>
      rfl
  | succ dimensions inductionHypothesis =>
      simp only [under, TypeTree.translate, ReferenceTree.translate,
        inductionHypothesis]
      congr 1
      omega

/-- An array of what a tree spells. -/
theorem TypeTree.Spells.under
    {tree : TypeTree}
    {type : Descriptor}
    (spells : tree.Spells type)
    (flat : type.dimensions = 0)
    (dimensions : Nat) :
    (tree.under dimensions).Spells (.array type dimensions) := by
  constructor
  · intro scope outer
    rw [tree.translate_under, spells.translate, Descriptor.generic?_array,
      Option.map_map]
    unfold Descriptor.generic?
    split
    · simp [Descriptor.raw, flat, Generic.withDimensions]
    · rfl
  · rw [tree.mentions_under, spells.mentions]
    rfl

/-- A plain text of a type is the text of a tree that spells it. -/
theorem exists_tree_of_writesElement
    {text : List Char}
    {type : Descriptor}
    (written : Descriptor.WritesElement text type)
    (plain : Descriptor.IsPlain text) :
    ∃ tree : TypeTree, tree.chars = text ∧ tree.Spells type := by
  cases written with
  | base type =>
      exact ⟨.base type, rfl, TypeTree.spells_base type⟩
  | @object name nonempty ended =>
      have free : ∀ c ∈ name, c ∉ classStops := by
        intro c member stop
        have inText : c ∈ 'L' :: name ++ [';'] := by simp [member]
        simp only [classStops, List.mem_cons, List.not_mem_nil,
          or_false] at stop
        rcases stop with rfl | rfl | rfl
        · exact plain.1 inText
        · exact plain.2 inText
        · exact ended member
      refine ⟨_, ?_, ClassTree.spells_named ⟨name, nonempty, free⟩⟩
      simp [TypeTree.chars, ReferenceTree.chars, ClassTree.chars,
        BracketTree.chars, SegmentTrees.chars]

/-- Every plain descriptor is the text of a tree that says the same. -/
theorem exists_tree_of_writes
    {text : List Char}
    {type : Descriptor}
    (written : Descriptor.Writes text type)
    (plain : Descriptor.IsPlain text) :
    ∃ tree : TypeTree, tree.chars = text ∧ tree.Spells type := by
  cases written with
  | element written =>
      exact exists_tree_of_writesElement written plain
  | @array text type dimensions _ written =>
      obtain ⟨tree, rfl, spells⟩ := exists_tree_of_writesElement written
        (plain.mono fun _ member => List.mem_append_right _ member)
      exact ⟨tree.under dimensions, tree.chars_under dimensions,
        spells.under written.dimensions_eq dimensions⟩

/-- So are descriptors in a row. -/
theorem exists_trees_of_writes
    {texts : List (List Char)}
    {types : List Descriptor}
    (written : List.Forall₂ Descriptor.Writes texts types)
    (plain : Descriptor.IsPlain texts.flatten) :
    ∃ trees : List TypeTree,
      trees.flatMap (·.chars) = texts.flatten ∧
        List.Forall₂ TypeTree.Spells trees types := by
  induction written with
  | nil =>
      exact ⟨[], rfl, .nil⟩
  | cons first _ inductionHypothesis =>
      rw [List.flatten_cons] at plain
      obtain ⟨tree, rfl, spells⟩ := exists_tree_of_writes first
        (plain.mono fun _ member => List.mem_append_left _ member)
      obtain ⟨trees, rest, spellsRest⟩ := inductionHypothesis
        (plain.mono fun _ member => List.mem_append_right _ member)
      refine ⟨tree :: trees, ?_, .cons spells spellsRest⟩
      rw [List.flatMap_cons, List.flatten_cons, rest]

/-! ## Methods -/

end Signature

/-- The names of classes in a method descriptor, as they are mentioned. -/
def MethodDescriptor.hints (type : MethodDescriptor) : List Hint :=
  (type.parameters ++ type.result.toList).flatMap
    fun type => (Origin.element type).hints

/-- What the text of a method descriptor says as a signature. -/
def MethodDescriptor.generics (type : MethodDescriptor) : MethodGenerics :=
  ⟨type.parameters.map (·.generic?), type.result.bind (·.generic?), []⟩

namespace Signature

/-- A method signature that says of a method what the descriptor says. -/
structure MethodSignature.Spells
    (tree : MethodSignature)
    (type : MethodDescriptor) :
    Prop where
  translate : ∀ inherited, tree.translate inherited = type.generics
  mentions : tree.mentions = type.hints

/-- The type itself, at the outermost. -/
theorem TypeTree.Spells.translate_zero
    {tree : TypeTree}
    {type : Descriptor}
    (spells : tree.Spells type)
    (scope : Scope) :
    tree.translate scope 0 = type.generic? := by
  rw [spells.translate]
  cases type.generic? with
  | none =>
      rfl
  | some generic =>
      obtain ⟨_, _, _, _⟩ := generic
      simp [Generic.withDimensions]

/-- Trees that say the same as descriptors translate to their types. -/
theorem map_translate_of_spells
    {trees : List TypeTree}
    {types : List Descriptor}
    (spells : List.Forall₂ TypeTree.Spells trees types)
    (scope : Scope) :
    trees.map (·.translate scope 0) = types.map (·.generic?) := by
  induction spells with
  | nil =>
      rfl
  | cons first _ inductionHypothesis =>
      rw [List.map_cons, List.map_cons, first.translate_zero,
        inductionHypothesis]

/-- Trees that say the same as descriptors mention the same names. -/
theorem flatMap_mentions_of_spells
    {trees : List TypeTree}
    {types : List Descriptor}
    (spells : List.Forall₂ TypeTree.Spells trees types) :
    trees.flatMap (·.mentions none) =
      types.flatMap fun type => (Origin.element type).hints := by
  induction spells with
  | nil =>
      rfl
  | cons first _ inductionHypothesis =>
      rw [List.flatMap_cons, List.flatMap_cons, first.mentions,
        inductionHypothesis]

/-- A signature without type parameters and thrown types. -/
def MethodSignature.ofTypes
    (parameters : List TypeTree)
    (result : Option TypeTree) :
    MethodSignature :=
  ⟨⟨[], .nil⟩, parameters, result, []⟩

/-- A method signature without formals says the same as the descriptor. -/
theorem MethodSignature.spells_ofTypes
    {parameters : List TypeTree}
    {types : List Descriptor}
    (spells : List.Forall₂ TypeTree.Spells parameters types)
    {result : Option TypeTree}
    {raw : Option Descriptor}
    (resultSpells : Option.Rel TypeTree.Spells result raw) :
    (ofTypes parameters result).Spells ⟨types, raw⟩ := by
  constructor
  · intro inherited
    cases resultSpells with
    | none =>
        simp [ofTypes, translate, map_translate_of_spells spells,
          MethodDescriptor.generics]
    | some spellsResult =>
        simp [ofTypes, translate, map_translate_of_spells spells,
          MethodDescriptor.generics, spellsResult.translate_zero]
  · cases resultSpells with
    | none =>
        simp [ofTypes, mentions, flatMap_mentions_of_spells spells,
          MethodDescriptor.hints, FormalTrees.mentions]
    | some spellsResult =>
        simp [ofTypes, mentions, flatMap_mentions_of_spells spells,
          MethodDescriptor.hints, FormalTrees.mentions, spellsResult.mentions]

/-- The result of a plain method descriptor is the text of a tree, or void. -/
theorem exists_result_of_writes
    {text : List Char}
    {raw : Option Descriptor}
    (written : MethodDescriptor.WritesResult text raw)
    (plain : Descriptor.IsPlain text) :
    ∃ tree : Option TypeTree,
      (tree.map (·.chars)).getD ['V'] = text ∧
        Option.Rel TypeTree.Spells tree raw := by
  cases written with
  | none =>
      exact ⟨none, rfl, .none⟩
  | some written =>
      obtain ⟨tree, rfl, spells⟩ := exists_tree_of_writes written plain
      exact ⟨some tree, rfl, .some spells⟩

/-- A plain text of a method is the text of a tree that spells it. -/
theorem exists_signature_of_writes
    {text : List Char}
    {type : MethodDescriptor}
    (written : type.Writes text)
    (plain : Descriptor.IsPlain text) :
    ∃ tree : MethodSignature, tree.chars = text ∧ tree.Spells type := by
  cases written with
  | @method texts result _ writtenParameters writtenResult =>
      have within : texts.flatten ⊆ '(' :: texts.flatten ++ ')' :: result :=
        fun _ member => List.mem_cons_of_mem _ (List.mem_append_left _ member)
      have withinResult : result ⊆ '(' :: texts.flatten ++ ')' :: result :=
        fun _ member => List.mem_append_right _ (List.mem_cons_of_mem _ member)
      obtain ⟨parameters, same, spells⟩ :=
        exists_trees_of_writes writtenParameters (plain.mono within)
      obtain ⟨tree, sameResult, resultSpells⟩ :=
        exists_result_of_writes writtenResult (plain.mono withinResult)
      refine ⟨_, ?_, MethodSignature.spells_ofTypes spells resultSpells⟩
      simp [MethodSignature.ofTypes, MethodSignature.chars, FormalTrees.chars,
        same, sameResult]

end Signature

/-! ## Resolving -/

/-- Names that are mentioned one by one are mentioned by a script. -/
theorem Store.mentionAll_eq_replay
    (store : Store)
    (hints : List Hint) :
    store.mentionAll hints = store.replay (mentions hints) := by
  simp [mentionAll, replay, mentions, List.foldl_map, Change.apply]

/-- The text of a tree is traced as its events. -/
theorem Signature.Recognizes.trace_chars
    {trace : String → Signature.Trace}
    {chars : τ → List Char}
    {events : τ → List Signature.Event}
    (recognizes : Signature.Recognizes trace chars events)
    {tree : τ}
    {text : String}
    (written : chars tree = text.toList) :
    trace text = ⟨events tree, none⟩ := by
  have same : String.ofList (chars tree) = text := by
    rw [written, String.ofList_toList]
  have accepted : (trace text).malformed? = none :=
    (recognizes.accepts text).mpr ⟨tree, same⟩
  rw [← recognizes.reports tree, same, ← accepted]

namespace Filing

/-- The descriptor of a field, resolved as its signature. -/
theorem resolveField_descriptor
    {text : String}
    {type : Descriptor}
    (parsed : Descriptor.parse text = .ok type)
    (plain : Descriptor.IsPlain text.toList)
    (formals : Formals) :
    Notes (resolveField formals text) type.generic?
      (Origin.element type).hints := by
  obtain ⟨tree, written, spells⟩ :=
    Signature.exists_tree_of_writes (Descriptor.parse_writes parsed) plain
  have traced := Signature.traceField_recognizes.trace_chars written
  intro store
  rw [Signature.run_resolveField tree traced, spells.translate_zero,
    spells.mentions, Store.mentionAll_eq_replay]

/-- The descriptor of a method, resolved as its signature. -/
theorem resolveMethod_descriptor
    {text : String}
    {type : MethodDescriptor}
    (parsed : MethodDescriptor.parse text = .ok type)
    (plain : Descriptor.IsPlain text.toList)
    (formals : Formals) :
    Notes (resolveMethod formals text) (some type.generics) type.hints := by
  obtain ⟨tree, written, spells⟩ :=
    Signature.exists_signature_of_writes (MethodDescriptor.parse_writes parsed)
      plain
  have traced := Signature.traceMethod_recognizes.trace_chars written
  intro store
  rw [Signature.run_resolveMethod tree traced, spells.translate,
    spells.mentions, Store.mentionAll_eq_replay]

end Filing

end TypeAtlas
