import Mathlib.Tactic.Tauto
import TypeAtlas.Proofs.Store.Change

namespace TypeAtlas

/-!
# What changes do

A change acts on each name by itself: the entry of a name afterwards hangs on
the change and on the entry of that name before, and on no other entry. From
this follows what a change, and then a script, does to the names, the nodes,
the marks and the visited flags.
-/

namespace Change

/-! ## One entry -/

/-- The entry that a change makes for a name that has none. -/
def create
    (name : TypeName) :
    Change → Option Entry
  | mention target hint =>
      if name = target ∧ target ≠ TypeName.root then
        some (Entry.ofName target hint)
      else
        none
  | file target category =>
      if name = target then
        some (Entry.ofName target (some category))
      else
        none
  | _ => none

/-- What a change makes of the entry of a name. -/
def revise
    (name : TypeName) :
    Change → Entry → Entry
  | mention target hint, entry =>
      if name = target ∧ target ≠ TypeName.root then
        Entry.afterMention target hint (some entry)
      else
        entry
  | file target category, entry =>
      if name = target then entry.fileUnder category else entry
  | found target category, entry =>
      if name = target then entry.ensureNode category else entry
  | claim target category, entry =>
      if name = target then
        { entry with
          visited := true
          node := entry.node.map fun node =>
            { node with category := category } }
      else
        entry
  | link target parent, entry =>
      let entry :=
        if name = parent then entry.ensureNode .classType else entry
      if name = target then
        { entry with
          node := entry.node.map (·.setParent (Reference.toType parent)) }
      else
        entry
  | mark target added, entry =>
      if name = target then entry.addMark added else entry
  | amend target amendment, entry =>
      if name = target then
        { entry with node := entry.node.map amendment.apply }
      else
        entry
  | take, entry => entry

/-- A change acts on each name by itself. -/
theorem find?_apply
    (store : Store)
    (change : Change)
    (name : TypeName) :
    (change.apply store).find? name =
      match store.find? name with
      | none => change.create name
      | some entry => some (change.revise name entry) := by
  cases change with
  | mention target hint =>
      simp only [apply, Store.find?_mention, create, revise]
      split
      · next here =>
          rw [here.1]
          cases store.find? target <;> simp [Entry.afterMention]
      · next elsewhere =>
          cases store.find? name <;> rfl
  | file target category =>
      simp only [apply, create, revise]
      cases known : store.find? target with
      | none =>
          simp only [Store.find?_add]
          by_cases same : name = target
          · simp [same, known, Entry.ofName]
          · have different :
                ¬ (Entry.ofName target (some category)).name = name :=
              fun equal => same equal.symm
            cases store.find? name <;> simp [same, different]
      | some entry =>
          rw [Store.find?_update]
          · by_cases same : name = target
            · simp [same, known]
            · cases store.find? name <;> simp [same]
          · exact fun _ => rfl
  | link target parent =>
      simp only [apply, create, revise, Store.updateNode]
      rw [Store.find?_update, Store.find?_update]
      · cases store.find? name <;> rfl
      all_goals exact fun _ => rfl
  | mark target added =>
      simp only [apply, create, revise]
      rw [Store.find?_update]
      · cases store.find? name <;> rfl
      · exact fun entry => entry.name_addMark added
  | found target _ | claim target _ | amend target _ =>
      simp only [apply, create, revise, Store.updateNode]
      rw [Store.find?_update]
      · cases store.find? name <;> rfl
      · exact fun _ => rfl
  | take =>
      simp only [apply, create, revise]
      cases known : store.find? name <;> exact known

/-- The node of a name after a change of its entry, from the one before. -/
def nodeAt
    (name : TypeName) :
    Change → Option Node → Option Node
  | found target category, node =>
      if name = target then
        node <|> some (Node.ofCategory category)
      else
        node
  | claim target category, node =>
      if name = target then
        node.map fun node => { node with category := category }
      else
        node
  | link target parent, node =>
      let node :=
        if name = parent then
          node <|> some (Node.ofCategory .classType)
        else
          node
      if name = target then
        node.map (·.setParent (Reference.toType parent))
      else
        node
  | amend target amendment, node =>
      if name = target then node.map amendment.apply else node
  | _, node => node

theorem node_revise
    (name : TypeName)
    (change : Change)
    (entry : Entry) :
    (change.revise name entry).node = change.nodeAt name entry.node := by
  cases change with
  | mention target hint =>
      simp only [revise, nodeAt]
      split <;> simp
  | link target parent =>
      simp only [revise, nodeAt]
      split <;> split <;> rfl
  | file target _ | found target _ | claim target _ | amend target _ =>
      simp only [revise, nodeAt]
      split <;> rfl
  | mark target added =>
      simp only [revise, nodeAt]
      split <;> simp
  | take =>
      rfl

theorem visited_revise
    (name : TypeName)
    (change : Change)
    (entry : Entry) :
    (change.revise name entry).visited = true ↔
      entry.visited = true ∨ ∃ category, change = claim name category := by
  cases change with
  | mention target hint =>
      simp only [revise]
      split <;> simp
  | claim target category =>
      simp only [revise]
      split
      · next same =>
          simp [same]
      · next different =>
          simp [Ne.symm different]
  | link target parent =>
      simp only [revise]
      split <;> split <;> simp [Entry.ensureNode]
  | file target _ | found target _ | amend target _ | mark target _ =>
      simp only [revise]
      split <;> simp [Entry.fileUnder, Entry.ensureNode]
  | take =>
      simp [revise]

/-- The reverse references of an entry grow by the mark that is made on it. -/
theorem bears_revise
    (name : TypeName)
    (change : Change)
    (entry : Entry)
    (mark : Mark) :
    (change.revise name entry).Bears mark ↔
      entry.Bears mark ∨ change = Change.mark name mark := by
  cases change with
  | mention target hint =>
      simp only [revise]
      split
      · cases hint with
        | none =>
            simp [Entry.afterMention]
        | some category =>
            simp only [Entry.afterMention]
            split <;> cases mark <;> simp [Entry.Bears, Entry.fileUnder]
      · simp
  | mark target added =>
      simp only [revise]
      split
      · next same =>
          simp [Entry.bears_addMark, same, eq_comm]
      · next different =>
          simp [Ne.symm different]
  | link target parent =>
      simp only [revise]
      split <;> split <;> cases mark <;>
        simp [Entry.Bears, Entry.ensureNode]
  | file target _ | found target _ | claim target _ | amend target _ =>
      simp only [revise]
      split <;> cases mark <;>
        simp [Entry.Bears, Entry.fileUnder, Entry.ensureNode]
  | take =>
      simp [revise]

/-- A new entry is not visited, has no node and bears no mark. -/
theorem create_blank
    {name : TypeName}
    {change : Change}
    {entry : Entry}
    (created : change.create name = some entry) :
    ∃ hint, entry = Entry.ofName name hint := by
  cases change with
  | mention target hint =>
      simp only [create, Option.ite_none_right_eq_some,
        Option.some.injEq] at created
      obtain ⟨⟨rfl, -⟩, rfl⟩ := created
      exact ⟨hint, rfl⟩
  | file target category =>
      simp only [create, Option.ite_none_right_eq_some,
        Option.some.injEq] at created
      obtain ⟨rfl, rfl⟩ := created
      exact ⟨some category, rfl⟩
  | found _ _ | claim _ _ | link _ _ | mark _ _ | amend _ _ | take =>
      simp [create] at created

/-! ## A store -/

/-- The names that have an entry after a change, whatever was before. -/
def introduces : Change → List TypeName
  | mention name _ => if name = TypeName.root then [] else [name]
  | file name _ => [name]
  | _ => []

/-- The names that a change takes to have an entry. -/
def expects : Change → List TypeName
  | found name _ => [name]
  | claim name _ => [name]
  | link name parent => [name, parent]
  | mark name _ => [name]
  | amend name _ => [name]
  | _ => []

theorem isSome_create_iff
    {name : TypeName}
    {change : Change} :
    (change.create name).isSome ↔ name ∈ change.introduces := by
  cases change with
  | mention target hint =>
      by_cases isRoot : target = TypeName.root <;>
        by_cases same : name = target <;>
          simp [create, introduces, isRoot, same]
  | file target category =>
      by_cases same : name = target <;> simp [create, introduces, same]
  | found _ _ | claim _ _ | link _ _ | mark _ _ | amend _ _ | take =>
      simp [create, introduces]

theorem mem_names_apply
    {store : Store}
    {change : Change}
    {name : TypeName} :
    name ∈ (change.apply store).names ↔
      name ∈ store.names ∨ name ∈ change.introduces := by
  rw [← Store.isSome_find?_iff, ← Store.isSome_find?_iff, find?_apply,
    ← isSome_create_iff]
  cases store.find? name <;> simp

theorem node?_apply_of_mem
    {store : Store}
    {name : TypeName}
    (known : name ∈ store.names)
    (change : Change) :
    (change.apply store).node? name =
      change.nodeAt name (store.node? name) := by
  obtain ⟨entry, found⟩ := Store.exists_of_mem_names known
  simp only [Store.node?, find?_apply, found]
  exact node_revise name change entry

/-- A name has no node before it has an entry. -/
theorem node?_apply_of_notMem
    {store : Store}
    {name : TypeName}
    (unknown : name ∉ store.names)
    (change : Change) :
    (change.apply store).node? name = none := by
  simp only [Store.node?, find?_apply, Store.find?_eq_none_iff.mpr unknown]
  cases created : change.create name with
  | none =>
      rfl
  | some entry =>
      obtain ⟨hint, rfl⟩ := create_blank created
      rfl

theorem node?_apply
    {store : Store}
    {change : Change}
    (grounded : ∀ name ∈ change.expects, name ∈ store.names)
    (name : TypeName) :
    (change.apply store).node? name =
      change.nodeAt name (store.node? name) := by
  by_cases known : name ∈ store.names
  · exact node?_apply_of_mem known change
  · have unexpected : name ∉ change.expects :=
      fun expected => known (grounded name expected)
    have absent : store.node? name = none := by
      simp [Store.node?, Store.find?_eq_none_iff.mpr known]
    rw [node?_apply_of_notMem known, absent]
    cases change with
    | link target parent =>
        have notTarget : name ≠ target := by
          rintro rfl
          exact unexpected (by simp [expects])
        have notParent : name ≠ parent := by
          rintro rfl
          exact unexpected (by simp [expects])
        simp [nodeAt, notTarget, notParent]
    | found target _ | claim target _ | amend target _ =>
        have notTarget : name ≠ target := by
          rintro rfl
          exact unexpected (by simp [expects])
        simp [nodeAt, notTarget]
    | mention _ _ | file _ _ | mark _ _ | take =>
        rfl

theorem isVisited_apply
    {store : Store}
    {change : Change}
    (grounded : ∀ name ∈ change.expects, name ∈ store.names)
    {name : TypeName} :
    (change.apply store).isVisited name = true ↔
      store.isVisited name = true ∨
        ∃ category, change = claim name category := by
  simp only [Store.isVisited, find?_apply]
  cases known : store.find? name with
  | some entry =>
      simpa using visited_revise name change entry
  | none =>
      have absent : name ∉ store.names := Store.find?_eq_none_iff.mp known
      have unclaimed : ¬ ∃ category, change = claim name category := by
        rintro ⟨category, rfl⟩
        exact absent (grounded name (by simp [expects]))
      cases created : change.create name with
      | none =>
          simp [unclaimed]
      | some entry =>
          obtain ⟨hint, rfl⟩ := create_blank created
          simp [unclaimed, Entry.ofName]

theorem bears_apply
    {store : Store}
    {change : Change}
    (grounded : ∀ name ∈ change.expects, name ∈ store.names)
    {name : TypeName}
    {added : Mark} :
    (change.apply store).Bears name added ↔
      store.Bears name added ∨ change = mark name added := by
  simp only [Store.Bears, find?_apply]
  cases known : store.find? name with
  | some entry =>
      simpa using bears_revise name change entry added
  | none =>
      have absent : name ∉ store.names := Store.find?_eq_none_iff.mp known
      have unmarked : change ≠ mark name added := by
        rintro rfl
        exact absent (grounded name (by simp [expects]))
      cases created : change.create name with
      | none =>
          simp [unmarked]
      | some entry =>
          obtain ⟨hint, rfl⟩ := create_blank created
          cases added <;> simp [unmarked, Entry.Bears, Entry.ofName]

/-- Only the mark itself adds a reference, whatever a change takes to exist. -/
theorem bears_apply_of_ne
    {change : Change}
    {name : TypeName}
    {added : Mark}
    (unmarked : change ≠ mark name added)
    (store : Store) :
    (change.apply store).Bears name added ↔ store.Bears name added := by
  simp only [Store.Bears, find?_apply]
  cases known : store.find? name with
  | some entry =>
      simpa [unmarked] using bears_revise name change entry added
  | none =>
      simp only [reduceCtorEq, false_and, exists_false, iff_false, not_exists,
        not_and]
      intro entry created
      obtain ⟨hint, rfl⟩ := create_blank created
      cases added <;> simp [Entry.Bears, Entry.ofName]

end Change

/-! ## A script -/

/--
Every name that a change of the script takes to have an entry is known from
the start or was introduced by an earlier change.
-/
def Grounded : List TypeName → List Change → Prop
  | _, [] => True
  | known, change :: script =>
      (∀ name ∈ change.expects, name ∈ known) ∧
        Grounded (change.introduces ++ known) script

namespace Grounded

theorem mono
    {known more : List TypeName}
    {script : List Change}
    (grounded : Grounded known script)
    (subset : ∀ name ∈ known, name ∈ more) :
    Grounded more script := by
  induction script generalizing known more with
  | nil =>
      trivial
  | cons change script inductionHypothesis =>
      obtain ⟨expected, rest⟩ := grounded
      refine ⟨fun name member => subset name (expected name member), ?_⟩
      apply inductionHypothesis rest
      intro name member
      rcases List.mem_append.mp member with introduced | old
      · exact List.mem_append_left _ introduced
      · exact List.mem_append_right _ (subset name old)

/-- A script may be followed by one that builds on what it introduces. -/
theorem append
    {known : List TypeName}
    {first second : List Change}
    (earlier : Grounded known first)
    (later : Grounded (first.flatMap Change.introduces ++ known) second) :
    Grounded known (first ++ second) := by
  induction first generalizing known with
  | nil =>
      exact later
  | cons change first inductionHypothesis =>
      obtain ⟨expected, rest⟩ := earlier
      refine ⟨expected, inductionHypothesis rest (later.mono ?_)⟩
      intro name member
      simp only [List.flatMap_cons, List.mem_append] at member ⊢
      tauto

end Grounded

namespace Store

theorem mem_names_replay
    {store : Store}
    {script : List Change}
    {name : TypeName} :
    name ∈ (store.replay script).names ↔
      name ∈ store.names ∨ ∃ change ∈ script, name ∈ change.introduces := by
  induction script generalizing store with
  | nil =>
      simp
  | cons change script inductionHypothesis =>
      rw [replay_cons, inductionHypothesis, Change.mem_names_apply]
      simp [or_assoc]

/-- What is known from the start or introduced by a change has an entry. -/
theorem known_apply
    {store : Store}
    {known : List TypeName}
    (present : ∀ name ∈ known, name ∈ store.names)
    (change : Change) :
    ∀ name ∈ change.introduces ++ known,
      name ∈ (change.apply store).names := by
  intro name member
  rw [Change.mem_names_apply]
  rcases List.mem_append.mp member with introduced | old
  · exact Or.inr introduced
  · exact Or.inl (present name old)

/-- The node of a name after a script, from the one before. -/
theorem node?_replay
    {store : Store}
    {known : List TypeName}
    {script : List Change}
    (present : ∀ name ∈ known, name ∈ store.names)
    (grounded : Grounded known script)
    (name : TypeName) :
    (store.replay script).node? name =
      script.foldl (fun node change => change.nodeAt name node)
        (store.node? name) := by
  induction script generalizing store known with
  | nil =>
      rfl
  | cons change script inductionHypothesis =>
      obtain ⟨expected, rest⟩ := grounded
      rw [replay_cons,
        inductionHypothesis (known_apply present change) rest,
        Change.node?_apply fun name member =>
          present name (expected name member)]
      rfl

/-- A name is visited after a script that claims it, or if it was before. -/
theorem isVisited_replay
    {store : Store}
    {known : List TypeName}
    {script : List Change}
    (present : ∀ name ∈ known, name ∈ store.names)
    (grounded : Grounded known script)
    {name : TypeName} :
    (store.replay script).isVisited name = true ↔
      store.isVisited name = true ∨
        ∃ category, Change.claim name category ∈ script := by
  induction script generalizing store known with
  | nil =>
      simp
  | cons change script inductionHypothesis =>
      obtain ⟨expected, rest⟩ := grounded
      rw [replay_cons,
        inductionHypothesis (known_apply present change) rest,
        Change.isVisited_apply fun name member =>
          present name (expected name member)]
      simp only [List.mem_cons, exists_or, or_assoc, eq_comm]

/-- A name bears the marks that a script makes on it, and those from before. -/
theorem bears_replay
    {store : Store}
    {known : List TypeName}
    {script : List Change}
    (present : ∀ name ∈ known, name ∈ store.names)
    (grounded : Grounded known script)
    {name : TypeName}
    {added : Mark} :
    (store.replay script).Bears name added ↔
      store.Bears name added ∨ Change.mark name added ∈ script := by
  induction script generalizing store known with
  | nil =>
      simp
  | cons change script inductionHypothesis =>
      obtain ⟨expected, rest⟩ := grounded
      rw [replay_cons,
        inductionHypothesis (known_apply present change) rest,
        Change.bears_apply fun name member =>
          present name (expected name member)]
      simp only [List.mem_cons, or_assoc, eq_comm]

end Store

end TypeAtlas
