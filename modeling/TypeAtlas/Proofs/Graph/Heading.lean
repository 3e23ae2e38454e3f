import TypeAtlas.Proofs.Graph.Node

namespace TypeAtlas

/-!
# What headers add to nodes

A header adds to the node of its type where it was found and what its
supertypes are. Lists take on an item unless they have one like it, so after
any number of headers a list holds what the headers said, without repetitions
and in the order of first mention. Of superclasses the first one stays.
-/

/-! ## Lists without repetitions -/

/-- Add items behind the others, each unless one like it is there. -/
def addNew
    (same : α → α → Bool)
    (known items : List α) :
    List α :=
  items.foldl
    (fun known item =>
      if known.any (same item) then known else known ++ [item])
    known

/-- Erasing duplicates adds what is new to what was kept so far. -/
theorem eraseDupsBy_loop
    (same : α → α → Bool)
    (items kept : List α) :
    List.eraseDupsBy.loop same items kept =
      addNew same kept.reverse items := by
  induction items generalizing kept with
  | nil =>
      rfl
  | cons item items inductionHypothesis =>
      simp only [List.eraseDupsBy.loop, addNew, List.foldl_cons,
        List.any_reverse]
      cases kept.any (same item) with
      | true =>
          exact inductionHypothesis kept
      | false =>
          have later := inductionHypothesis (item :: kept)
          rw [List.reverse_cons] at later
          exact later

/-- The items of a second list are added to what is left of a first. -/
theorem eraseDupsBy_append
    (same : α → α → Bool)
    (first second : List α) :
    (first ++ second).eraseDupsBy same =
      addNew same (first.eraseDupsBy same) second := by
  have whole := fun items => eraseDupsBy_loop same items []
  simp only [List.eraseDupsBy, whole, addNew, List.reverse_nil,
    List.foldl_append]

/-- Items that are told apart by a key are as new as their keys. -/
theorem map_addNew
    {same : α → α → Bool}
    {alike : β → β → Bool}
    {change : α → β}
    (agrees : ∀ one other, alike (change one) (change other) = same one other)
    (known items : List α) :
    (addNew same known items).map change =
      addNew alike (known.map change) (items.map change) := by
  induction items generalizing known with
  | nil =>
      rfl
  | cons item items inductionHypothesis =>
      have alikeAny :
          (known.map change).any (alike (change item)) =
            known.any (same item) := by
        simp [List.any_map, Function.comp_def, agrees]
      simp only [addNew, List.map_cons, List.foldl_cons, alikeAny]
      split
      · exact inductionHypothesis known
      · rw [← List.map_singleton, ← List.map_append]
        exact inductionHypothesis (known ++ [item])

/-! ## What is like what -/

namespace Generic

mutual

/-- Whether two types are the same does not depend on which comes first. -/
theorem same_comm
    (first second : Generic) :
    first.same second = second.same first := by
  obtain ⟨type, formal, arguments, dimensions⟩ := first
  obtain ⟨type', formal', arguments', dimensions'⟩ := second
  simp only [same, sameAll_comm arguments arguments']
  rw [Bool.beq_comm, BEq.comm (a := formal), BEq.comm (a := dimensions)]

/-- Nor does it for types in a row. -/
theorem sameAll_comm
    (first second : List Generic) :
    sameAll first second = sameAll second first := by
  cases first with
  | nil =>
      cases second <;> rfl
  | cons head tail =>
      cases second with
      | nil =>
          rfl
      | cons head' tail' =>
          simp only [sameAll, same_comm head head', sameAll_comm tail tail']

end

end Generic

/-- Type parameters of one name. -/
def sameFormal (one other : String × Generic) : Bool :=
  one.1 == other.1

/-- A formal is added unless one of its name is there. -/
theorem Formals.insertNew_eq
    (formals : Formals)
    (name : String)
    (generic : Generic) :
    formals.insertNew name generic =
      if formals.any (sameFormal (name, generic)) then
        formals
      else
        formals ++ [(name, generic)] := by
  have known :
      (formals.lookup name).isSome =
        formals.any (sameFormal (name, generic)) := by
    induction formals with
    | nil =>
        rfl
    | cons formal formals inductionHypothesis =>
        rw [List.any_cons, ← inductionHypothesis, List.lookup_cons]
        cases named : name == formal.1 <;> simp [sameFormal, named]
  rw [insertNew, known]

/-! ## What a declaration says -/

namespace ClassDecl

/-- What the signature resolves to, if there is one that can be used. -/
def generics? (decl : ClassDecl) : Option ClassGenerics :=
  decl.signature.bind fun signature =>
    ((Filing.resolveClass signature).run {}).1

/-- The superclass with its arguments. -/
def genericParent? (decl : ClassDecl) : Option Generic :=
  decl.generics?.bind (·.superclass)

/-- The interfaces with their arguments. -/
def genericInterfaces (decl : ClassDecl) : List Generic :=
  (decl.generics?.map (·.interfaces)).getD []

/-- The type parameters. -/
def formals (decl : ClassDecl) : Formals :=
  (decl.generics?.map (·.formals)).getD []

end ClassDecl

namespace Lineage

/-- Take on a superclass, if one is given and there is none yet. -/
def setParent
    (superclass : Option TypeName)
    (lineage : Lineage) :
    Lineage :=
  { lineage with
    parent := lineage.parent <|> superclass.map Reference.toType }

/-- Take on the interfaces of a declaration. -/
def addInterfaces
    (names : List TypeName)
    (lineage : Lineage) :
    Lineage :=
  { lineage with
    interfaces := addNew Reference.same lineage.interfaces
      (names.map Reference.toType) }

/-- Take on what a signature says. -/
def addGenerics
    (superclass : Option Generic)
    (interfaces : List Generic)
    (formals : Formals)
    (lineage : Lineage) :
    Lineage :=
  { lineage with
    genericParent := lineage.genericParent <|> superclass
    genericInterfaces :=
      addNew Generic.same lineage.genericInterfaces interfaces
    formals := addNew sameFormal lineage.formals formals }

/-- Take on the supertypes of a declaration, with the given superclass. -/
def extend
    (superclass : Option TypeName)
    (decl : ClassDecl)
    (lineage : Lineage) :
    Lineage :=
  ((lineage.setParent superclass).addInterfaces decl.interfaces).addGenerics
    decl.genericParent? decl.genericInterfaces decl.formals

end Lineage

/-! ## What nodes take on -/

namespace Node

theorem updateLineage_id
    (node : Node) :
    (node.updateLineage fun lineage => lineage) = node := by
  obtain ⟨_, _, _, _, _, body⟩ := node
  cases body <;> rfl

/-- Two changes of the lineage are one change. -/
theorem updateLineage_updateLineage
    (node : Node)
    (first second : Lineage → Lineage) :
    (node.updateLineage first).updateLineage second =
      node.updateLineage fun lineage => second (first lineage) := by
  obtain ⟨_, _, _, _, _, body⟩ := node
  cases body <;> rfl

/-- No superclass is set where none is named. -/
theorem setParent_none
    (node : Node) :
    node.updateLineage (·.setParent none) = node := by
  have same :
      (fun lineage : Lineage => lineage.setParent none) =
        fun lineage => lineage :=
    funext fun lineage => by simp [Lineage.setParent]
  rw [same, updateLineage_id]

/-- Interfaces are added to the lineage one by one, or all together. -/
theorem addInterfaces_eq
    (interfaces : List TypeName)
    (node : Node) :
    interfaces.foldl
        (fun node name => node.addInterface (Reference.toType name)) node =
      node.updateLineage (·.addInterfaces interfaces) := by
  induction interfaces generalizing node with
  | nil =>
      exact node.updateLineage_id.symm
  | cons interface interfaces inductionHypothesis =>
      rw [List.foldl_cons, inductionHypothesis, addInterface,
        updateLineage_updateLineage]
      congr 1
      funext lineage
      have alike :
          (fun known : Reference => known.same (Reference.toType interface)) =
            (Reference.toType interface).same :=
        funext fun known => Bool.beq_comm ..
      rw [alike]
      simp only [Lineage.addInterfaces, addNew, List.map_cons,
        List.foldl_cons]
      split <;> rfl

/-- So are generic interfaces. -/
theorem addGenericInterfaces_eq
    (interfaces : List Generic)
    (node : Node) :
    interfaces.foldl addGenericInterface node =
      node.updateLineage (·.addGenerics none interfaces []) := by
  induction interfaces generalizing node with
  | nil =>
      have same :
          (fun lineage : Lineage => lineage.addGenerics none [] []) =
            fun lineage => lineage :=
        funext fun lineage => by simp [Lineage.addGenerics, addNew]
      rw [same, updateLineage_id]
      rfl
  | cons interface interfaces inductionHypothesis =>
      rw [List.foldl_cons, inductionHypothesis, addGenericInterface,
        updateLineage_updateLineage]
      congr 1
      funext lineage
      have alike :
          (fun known : Generic => known.same interface) = interface.same :=
        funext fun known => known.same_comm interface
      rw [alike]
      simp only [Lineage.addGenerics, addNew, List.foldl_cons]
      split <;> rfl

/-- Formals are added to the lineage unless their names are taken. -/
theorem addFormals_eq
    (node : Node)
    (formals : Formals) :
    node.addFormals formals =
      node.updateLineage fun lineage =>
        { lineage with
          formals := addNew sameFormal lineage.formals formals } := by
  simp only [addFormals, Formals.insertNew_eq]
  rfl

end Node

/-- What a signature says is taken on as a whole. -/
theorem Amendment.generics_apply
    (said : ClassGenerics)
    (node : Node) :
    (Amendment.generics said).apply node =
      node.updateLineage
        (·.addGenerics said.superclass said.interfaces said.formals) := by
  simp only [apply, Node.addFormals_eq, Node.addGenericInterfaces_eq]
  cases said.superclass with
  | none =>
      rw [Node.updateLineage_updateLineage]
      rfl
  | some parent =>
      simp only [Node.setGenericParent, Node.updateLineage_updateLineage]
      congr 1
      funext lineage
      simp [Lineage.addGenerics, addNew]

/-- Where a type was found is added to its node. -/
theorem Visit.noteOrigin_eq
    (visit : Visit)
    (node : Node) :
    visit.noteOrigin node =
      { node with
        locations :=
          addNew (· == ·) node.locations visit.location.toList
        isApplication := node.isApplication || visit.isApplication } := by
  unfold noteOrigin
  cases visit.location with
  | none =>
      rfl
  | some location =>
      simp only [Node.addLocation, List.contains_eq_any_beq, addNew,
        Option.toList_some, List.foldl_cons, List.foldl_nil]
      split <;> rfl

end TypeAtlas
