import Mathlib.Data.List.Perm.Subperm
import TypeAtlas.Proofs.Entering.Mentioning
import TypeAtlas.Proofs.Graph.Heading
import TypeAtlas.Proofs.Store.Growth

namespace TypeAtlas

/-!
# Likenesses

The likeness of an entry is all that is kept in it, but for what the type is
filed under and for the texts of method signatures. A name without an entry has
the same likeness as a fresh entry, so mentions do not show in likenesses.

Two stores resemble each other if all likenesses are the same, while the first
one may have entries for more names. Changes that are made in both keep this
up, also if they differ in the texts of signatures, and so do mentions that are
made in the first one only. If both have grown from one store, then the first
one has fresh entries for its other names, and these names wait on its worklist.
-/

/-! ## Nodes -/

/-- A method without the text of its signature. -/
def Method.unsigned (method : Method) : Method :=
  { method with signature := none }

namespace Node

/-- A node whose methods are without the texts of their signatures. -/
def unsigned (node : Node) : Node :=
  { node with methods := node.methods.map Method.unsigned }

/-- Texts of signatures are left out once. -/
@[simp] theorem unsigned_unsigned
    (node : Node) :
    node.unsigned.unsigned = node.unsigned := by
  simp [unsigned, Function.comp_def, Method.unsigned]

/-- A placeholder has no texts of signatures. -/
@[simp] theorem unsigned_ofCategory
    (category : Category) :
    (ofCategory category).unsigned = ofCategory category :=
  rfl

/-- Without the texts there are as many methods. -/
@[simp] theorem length_methods_unsigned
    (node : Node) :
    node.unsigned.methods.length = node.methods.length := by
  simp [unsigned]

/-- A change of the lineage does not touch the texts. -/
theorem unsigned_updateLineage
    (node : Node)
    (change : Lineage → Lineage) :
    (node.updateLineage change).unsigned =
      node.unsigned.updateLineage change := by
  obtain ⟨_, _, _, _, _, body⟩ := node
  cases body <;> rfl

end Node

/-! ## Changes without the texts of signatures -/

/-- The same addition, a method without the text of its signature. -/
def Amendment.unsigned : Amendment → Amendment
  | .method added => .method added.unsigned
  | amendment => amendment

/-- An amendment without texts makes the node without texts. -/
theorem Amendment.unsigned_apply
    (amendment : Amendment)
    (node : Node) :
    (amendment.apply node).unsigned =
      amendment.unsigned.apply node.unsigned := by
  cases amendment with
  | origin visit =>
      simp only [apply, unsigned, Visit.noteOrigin_eq]
      rfl
  | interface name =>
      exact node.unsigned_updateLineage _
  | generics said =>
      simp only [unsigned, generics_apply]
      exact node.unsigned_updateLineage _
  | use added =>
      rfl
  | field added =>
      exact node.unsigned_updateLineage _
  | method added =>
      simp [apply, unsigned, Node.addMethod, Node.unsigned]
  | default element value =>
      obtain ⟨_, _, _, _, _, body⟩ := node
      cases body <;> rfl

namespace Change

/-- The same change, a new method without the text of its signature. -/
def unsigned : Change → Change
  | amend name amendment => amend name amendment.unsigned
  | change => change

/-- The names that a change introduces do not depend on texts. -/
@[simp] theorem introduces_unsigned
    (change : Change) :
    change.unsigned.introduces = change.introduces := by
  cases change <;> rfl

/-- Neither do the names that it takes to have entries. -/
@[simp] theorem expects_unsigned
    (change : Change) :
    change.unsigned.expects = change.expects := by
  cases change <;> rfl

/-- A change is left without texts once. -/
@[simp] theorem unsigned_unsigned
    (change : Change) :
    change.unsigned.unsigned = change.unsigned := by
  cases change with
  | amend name amendment =>
      cases amendment <;> rfl
  | mention _ _ | file _ _ | found _ _ | claim _ _ | link _ _ | mark _ _
  | take =>
      rfl

/-- What a change does to a node does not hang on texts of signatures. -/
theorem unsigned_nodeAt
    (change : Change)
    (name : TypeName)
    (node : Option Node) :
    (change.nodeAt name node).map Node.unsigned =
      change.unsigned.nodeAt name (node.map Node.unsigned) := by
  cases change with
  | mention _ _ | file _ _ | mark _ _ | take =>
      rfl
  | found target category =>
      simp only [nodeAt, unsigned]
      split <;> cases node <;> rfl
  | claim target category =>
      simp only [nodeAt, unsigned]
      split <;> cases node <;> rfl
  | link target parent =>
      have linked :
          ∀ node : Node,
            (node.setParent (Reference.toType parent)).unsigned =
              node.unsigned.setParent (Reference.toType parent) :=
        fun node => node.unsigned_updateLineage _
      simp only [nodeAt, unsigned]
      split <;> split <;> cases node <;> simp [linked]
  | amend target amendment =>
      simp only [nodeAt, unsigned]
      split <;> cases node <;> simp [amendment.unsigned_apply]

end Change

/-! ## Entries -/

namespace Entry

/-- An entry, but for its hints and for the texts of signatures. -/
def likeness (entry : Entry) : Entry :=
  { entry with
    pool := none
    category := none
    node := entry.node.map Node.unsigned }

/-- The likeness of a name that nothing is known of. -/
def blank (name : TypeName) : Entry :=
  Entry.ofName name none

/-- A name that is mentioned again keeps its entry's likeness. -/
theorem likeness_afterMention
    (entry : Entry)
    (name : TypeName)
    (hint : Option Category) :
    (afterMention name hint (some entry)).likeness = entry.likeness := by
  cases hint with
  | none =>
      rfl
  | some category =>
      simp only [afterMention]
      split <;> rfl

/-- An entry with the likeness of a fresh one is a fresh one. -/
theorem eq_ofName_of_likeness
    {entry : Entry}
    {name : TypeName}
    (filed : entry.pool = entry.category.map (·.pool))
    (same : entry.likeness = blank name) :
    entry = ofName name entry.category := by
  obtain ⟨_, pool, category, _, node, _, _, _, _⟩ := entry
  simp only [likeness, blank, ofName, mk.injEq, Option.map_eq_none_iff] at same
  obtain ⟨rfl, -, -, rfl, rfl, rfl, rfl, rfl, rfl⟩ := same
  simp only at filed
  subst filed
  rfl

end Entry

/-- A change does to a likeness what it does to the entry. -/
theorem Change.likeness_revise
    (change : Change)
    (name : TypeName)
    (entry : Entry) :
    (change.revise name entry).likeness =
      (change.unsigned.revise name entry.likeness).likeness := by
  have node :
      (change.revise name entry).node.map Node.unsigned =
        (change.unsigned.revise name entry.likeness).node.map
          Node.unsigned := by
    rw [node_revise, node_revise, unsigned_nodeAt, unsigned_nodeAt]
    simp [Entry.likeness, Function.comp_def]
  rw [Entry.likeness, node, Entry.likeness]
  cases change with
  | mention target hint =>
      simp only [revise, unsigned]
      split
      · cases hint with
        | none =>
            rfl
        | some category =>
            simp only [Entry.afterMention]
            split <;> rfl
      · rfl
  | mark target added =>
      simp only [revise, unsigned]
      split
      · cases added <;> rfl
      · rfl
  | link target parent =>
      simp only [revise, unsigned]
      split <;> split <;> rfl
  | file target _ | found target _ | claim target _ | amend target _ =>
      simp only [revise, unsigned]
      split <;> rfl
  | take =>
      rfl

/-- A name that a change does not expect to have an entry stays blank. -/
theorem Change.likeness_revise_blank
    {change : Change}
    {name : TypeName}
    (unexpected : name ∉ change.expects) :
    (change.revise name (Entry.blank name)).likeness = Entry.blank name := by
  cases change with
  | mention target hint =>
      simp only [revise]
      split
      · exact Entry.likeness_afterMention _ target hint
      · rfl
  | file target category =>
      simp only [revise]
      split <;> rfl
  | link target parent =>
      simp only [expects, List.mem_cons, List.not_mem_nil, or_false,
        not_or] at unexpected
      simp only [revise, unexpected, ↓reduceIte]
      rfl
  | found target _ | claim target _ | mark target _ | amend target _ =>
      simp only [expects, List.mem_cons, List.not_mem_nil,
        or_false] at unexpected
      simp only [revise, unexpected, ↓reduceIte]
      rfl
  | take =>
      rfl

/-! ## Stores -/

namespace Store

/-- The likeness of a name, a blank one where there is no entry. -/
def likeness
    (store : Store)
    (name : TypeName) :
    Entry :=
  ((store.find? name).map Entry.likeness).getD (Entry.blank name)

/-- A change acts on likenesses by itself. -/
theorem likeness_apply
    {store : Store}
    {change : Change}
    (grounded : ∀ name ∈ change.expects, name ∈ store.names)
    (name : TypeName) :
    (change.apply store).likeness name =
      (change.unsigned.revise name (store.likeness name)).likeness := by
  unfold likeness
  rw [Change.find?_apply]
  cases known : store.find? name with
  | some entry =>
      exact change.likeness_revise name entry
  | none =>
      have absent : name ∉ store.names := find?_eq_none_iff.mp known
      have blank :
          (change.unsigned.revise name (Entry.blank name)).likeness =
            Entry.blank name := by
        refine Change.likeness_revise_blank fun expected => ?_
        rw [Change.expects_unsigned] at expected
        exact absent (grounded name expected)
      cases created : change.create name with
      | none =>
          exact blank.symm
      | some entry =>
          obtain ⟨hint, rfl⟩ := Change.create_blank created
          exact blank.symm

/-- Mentions do not show. -/
theorem likeness_mentions
    (store : Store)
    (hints : List Hint)
    (name : TypeName) :
    (store.replay (mentions hints)).likeness name = store.likeness name := by
  induction hints generalizing store with
  | nil =>
      rfl
  | cons hint hints inductionHypothesis =>
      refine (inductionHypothesis (store.mention hint.1 hint.2)).trans ?_
      unfold likeness
      rw [find?_mention]
      split
      · next here =>
          rw [here.1]
          cases store.find? hint.1 with
          | none =>
              rfl
          | some entry =>
              exact entry.likeness_afterMention hint.1 hint.2
      · rfl

/--
Two stores with the same likenesses, of which the first one has entries for all
names that the second one has entries for, and the second one for some names.
-/
structure Resembles
    (known : List TypeName)
    (store other : Store) :
    Prop where
  likeness : ∀ name, store.likeness name = other.likeness name
  within : ∀ name ∈ other.names, name ∈ store.names
  present : ∀ name ∈ known, name ∈ other.names

namespace Resembles

variable {known : List TypeName} {store other : Store}

theorem refl
    (present : ∀ name ∈ known, name ∈ store.names) :
    Resembles known store store :=
  ⟨fun _ => rfl, fun _ member => member, present⟩

/-- Two stores resemble each other over fewer names. -/
theorem mono
    (resembles : Resembles known store other)
    {fewer : List TypeName}
    (subset : ∀ name ∈ fewer, name ∈ known) :
    Resembles fewer store other :=
  { resembles with
    present := fun name member => resembles.present name (subset name member) }

/-- Names are mentioned in both stores, more of them in the first one. -/
theorem mentions
    (resembles : Resembles known store other)
    {hints fewer : List Hint}
    (subset : ∀ hint ∈ fewer, hint ∈ hints) :
    Resembles ((TypeAtlas.mentions fewer).flatMap Change.introduces ++ known)
      (store.replay (TypeAtlas.mentions hints))
      (other.replay (TypeAtlas.mentions fewer)) := by
  refine ⟨fun name => ?_, fun name member => ?_, fun name member => ?_⟩
  · rw [likeness_mentions, likeness_mentions, resembles.likeness]
  · rw [mem_names_replay] at member ⊢
    rcases member with old | ⟨change, mentioned, introduced⟩
    · exact Or.inl (resembles.within name old)
    · obtain ⟨hint, present, rfl⟩ := List.mem_map.mp mentioned
      exact Or.inr ⟨_, List.mem_map_of_mem (subset hint present), introduced⟩
  · rw [mem_names_replay, ← List.mem_flatMap]
    exact (List.mem_append.mp member).symm.imp_left (resembles.present name)

/-- A change is made in both stores, up to the texts of signatures. -/
theorem apply
    (resembles : Resembles known store other)
    {change otherChange : Change}
    (alike : change.unsigned = otherChange.unsigned)
    (expected : ∀ name ∈ change.expects, name ∈ known) :
    Resembles (change.introduces ++ known) (change.apply store)
      (otherChange.apply other) := by
  have introduces : change.introduces = otherChange.introduces := by
    rw [← change.introduces_unsigned, alike, otherChange.introduces_unsigned]
  have expects : change.expects = otherChange.expects := by
    rw [← change.expects_unsigned, alike, otherChange.expects_unsigned]
  have there : ∀ name ∈ change.expects, name ∈ other.names :=
    fun name member => resembles.present name (expected name member)
  refine ⟨fun name => ?_, fun name member => ?_, ?_⟩
  · rw [likeness_apply fun name member =>
        resembles.within name (there name member),
      likeness_apply (expects ▸ there), alike, resembles.likeness]
  · rw [Change.mem_names_apply] at member ⊢
    rw [introduces]
    exact member.imp_left (resembles.within name)
  · rw [introduces]
    exact known_apply resembles.present otherChange

/-- A script is made in both stores, up to the texts of signatures. -/
theorem replay
    (resembles : Resembles known store other)
    {script otherScript : List Change}
    (alike : script.map Change.unsigned = otherScript.map Change.unsigned)
    (grounded : Grounded known script) :
    Resembles known (store.replay script) (other.replay otherScript) := by
  induction script generalizing known store other otherScript with
  | nil =>
      rw [List.map_nil, eq_comm, List.map_eq_nil_iff] at alike
      rw [alike]
      exact resembles
  | cons change script inductionHypothesis =>
      cases otherScript with
      | nil =>
          simp at alike
      | cons otherChange otherScript =>
          rw [List.map_cons, List.map_cons, List.cons.injEq] at alike
          obtain ⟨expected, rest⟩ := grounded
          have first := resembles.apply alike.1 expected
          exact (inductionHypothesis first alike.2 rest).mono
            fun name member => List.mem_append_right _ member

/-! ## What resembling stores have in common -/

/-- The nodes of stores that resemble each other differ in texts alone. -/
theorem node?_unsigned
    (resembles : Resembles known store other)
    (name : TypeName) :
    (store.node? name).map Node.unsigned =
      (other.node? name).map Node.unsigned := by
  have nodes :
      ∀ store : Store,
        (store.likeness name).node =
          (store.node? name).map Node.unsigned := by
    intro store
    unfold Store.likeness node?
    cases store.find? name <;> rfl
  rw [← nodes, ← nodes, resembles.likeness]

/-- The same types are visited. -/
theorem isVisited
    (resembles : Resembles known store other)
    (name : TypeName) :
    store.isVisited name = other.isVisited name := by
  have visited :
      ∀ store : Store,
        (store.likeness name).visited = store.isVisited name := by
    intro store
    unfold Store.likeness Store.isVisited
    cases store.find? name <;> rfl
  rw [← visited, ← visited, resembles.likeness]

/-- What is read off a node without texts of signatures is the same. -/
theorem congrNode
    (resembles : Resembles known store other)
    (view : Node → α)
    (textless : ∀ node : Node, view node.unsigned = view node)
    (name : TypeName) :
    (store.node? name).map view = (other.node? name).map view := by
  have same := congrArg (Option.map view) (resembles.node?_unsigned name)
  simpa [Function.comp_def, textless] using same

/-- The same formals are in scope of a type. -/
theorem formalsOf
    (resembles : Resembles known store other)
    (name : TypeName) :
    store.formalsOf name = other.formalsOf name := by
  rw [Store.formalsOf, Store.formalsOf,
    resembles.congrNode (·.lineage.formals) (fun _ => rfl)]

/-- The next field has the same place. -/
theorem nextField
    (resembles : Resembles known store other)
    (owner : TypeName)
    (isStatic : Bool) :
    store.nextField owner isStatic = other.nextField owner isStatic := by
  rw [Store.nextField, Store.nextField,
    resembles.congrNode (·.fieldsOf isStatic |>.length) (fun _ => rfl)]

/-- The next method has the same place. -/
theorem nextMethod
    (resembles : Resembles known store other)
    (owner : TypeName) :
    store.nextMethod owner = other.nextMethod owner := by
  rw [Store.nextMethod, Store.nextMethod,
    resembles.congrNode (·.methods.length) Node.length_methods_unsigned]

end Resembles

end Store

/-! ## Names that are only heard of -/

/--
A store that knows the same as another one, but for the texts of signatures,
and has heard of more names at most. Of these it has fresh entries only, and
they wait to be looked up. Visited types are filed under the same category;
what an unvisited one is mentioned as may differ.
-/
structure Store.Overhears
    (store other : Store) :
    Prop where
  visited : ∀ name, store.isVisited name = other.isVisited name
  nodes :
    ∀ name,
      (store.node? name).map Node.unsigned =
        (other.node? name).map Node.unsigned
  entries :
    ∀ name entry, other.find? name = some entry →
      ∃ own,
        store.find? name = some own ∧
          own.likeness = entry.likeness ∧
          (entry.visited = true →
            own.pool = entry.pool ∧ own.category = entry.category)
  heard :
    ∃ heard : List TypeName,
      store.names.Perm (other.names ++ heard) ∧
        store.pending.Perm (other.pending ++ heard) ∧
        ∀ name ∈ heard,
          ∃ hint, store.find? name = some (Entry.ofName name hint)

/-- What a visited type is filed under is told by its likeness. -/
theorem Entry.WellFormed.filed_of_likeness
    {entry other : Entry}
    (wellFormed : entry.WellFormed)
    (otherWellFormed : other.WellFormed)
    (same : entry.likeness = other.likeness)
    (visited : other.visited = true) :
    entry.pool = other.pool ∧ entry.category = other.category := by
  have alsoVisited : entry.visited = true :=
    (congrArg Entry.visited same).trans visited
  obtain ⟨node, installed, filed⟩ := wellFormed.visited alsoVisited
  obtain ⟨otherNode, otherInstalled, otherFiled⟩ :=
    otherWellFormed.visited visited
  have nodes := congrArg Entry.node same
  simp only [Entry.likeness, installed, otherInstalled, Option.map_some,
    Option.some.injEq] at nodes
  have category :
      node.unsigned.category = otherNode.unsigned.category := by
    rw [nodes]
  have categories : entry.category = other.category := by
    rw [filed, otherFiled]
    exact congrArg some category
  exact ⟨by rw [wellFormed.filed, otherWellFormed.filed, categories],
    categories⟩

/-- What is added to a list beyond what is added to a part of it. -/
theorem perm_append_of_subset
    {kept few many : List α}
    (once : (kept ++ few).Nodup)
    (within : ∀ item ∈ kept ++ few, item ∈ kept ++ many) :
    ∃ more, many.Perm (few ++ more) := by
  obtain ⟨-, fewOnce, apart⟩ := List.nodup_append.mp once
  have subset : few ⊆ many := by
    intro item member
    rcases List.mem_append.mp
        (within item (List.mem_append_right _ member)) with old | new
    · exact absurd rfl (apart item old item member)
    · exact new
  obtain ⟨ordered, same, sublist⟩ := List.Nodup.subperm fewOnce subset
  obtain ⟨more, rest⟩ := sublist.exists_perm_append
  exact ⟨more, rest.trans (same.append_right more)⟩

namespace Store.Resembles

variable {known : List TypeName} {store other : Store}

/-- Every entry of the second store has its like in the first. -/
theorem entries
    (resembles : Resembles known store other)
    {name : TypeName}
    {entry : Entry}
    (found : other.find? name = some entry) :
    ∃ own, store.find? name = some own ∧ own.likeness = entry.likeness := by
  have present : name ∈ other.names := isSome_find?_iff.mp (by simp [found])
  obtain ⟨own, here⟩ := exists_of_mem_names (resembles.within name present)
  have same := resembles.likeness name
  simp only [Store.likeness, here, found, Option.map_some,
    Option.getD_some] at same
  exact ⟨own, here, same⟩

/-- A name that only the first store has an entry of is known by name. -/
theorem fresh
    (resembles : Resembles known store other)
    (wellFormed : store.WellFormed)
    {name : TypeName}
    (here : name ∈ store.names)
    (absent : name ∉ other.names) :
    ∃ hint, store.find? name = some (Entry.ofName name hint) := by
  obtain ⟨entry, found⟩ := exists_of_mem_names here
  have same := resembles.likeness name
  simp only [Store.likeness, found, find?_eq_none_iff.mpr absent,
    Option.map_some, Option.getD_some, Option.map_none,
    Option.getD_none] at same
  have filed := (wellFormed.entries entry (mem_of_find? found)).filed
  exact ⟨entry.category,
    found.trans (congrArg some (Entry.eq_ofName_of_likeness filed same))⟩

/-- Two stores that grew from one, and know the same. -/
theorem overhears
    (resembles : Resembles known store other)
    (wellFormed : store.WellFormed)
    (otherWellFormed : other.WellFormed)
    {names otherNames : List TypeName}
    {before : Store}
    (grown : before.Grown names store)
    (otherGrown : before.Grown otherNames other) :
    store.Overhears other := by
  refine ⟨resembles.isVisited, resembles.node?_unsigned,
    fun name entry found => ?_, ?_⟩
  · obtain ⟨own, here, same⟩ := resembles.entries found
    exact ⟨own, here, same,
      (wellFormed.entries own (mem_of_find? here)).filed_of_likeness
        (otherWellFormed.entries entry (mem_of_find? found)) same⟩
  · -- Entries and the worklist grow by the same names, so what one store has
    -- more of the one it has more of the other.
    obtain ⟨added, -, longer, waiting⟩ := grown
    obtain ⟨otherAdded, -, otherLonger, otherWaiting⟩ := otherGrown
    have once := wellFormed.noDuplicates
    have otherOnce := otherWellFormed.noDuplicates
    have within := resembles.within
    rw [otherLonger] at otherOnce within
    rw [longer] at within
    obtain ⟨heard, more⟩ := perm_append_of_subset otherOnce within
    have names : store.names.Perm (other.names ++ heard) := by
      rw [longer, otherLonger, List.append_assoc]
      exact more.append_left _
    refine ⟨heard, names, ?_, fun name member => ?_⟩
    · rw [waiting, otherWaiting, List.append_assoc]
      exact more.append_left _
    · have apart := (List.nodup_append.mp (names.nodup_iff.mp once)).2.2
      refine resembles.fresh wellFormed
        (names.mem_iff.mpr (List.mem_append_right _ member)) fun present => ?_
      exact apart name present name member rfl

end Store.Resembles

end TypeAtlas
