import TypeAtlas.Proofs.Descriptor.Reading
import TypeAtlas.Proofs.Entering.Retention
import TypeAtlas.Proofs.Survey.Surveying

namespace TypeAtlas

/-!
# How a type is shown

A type is shown with a line for each field and each method that was kept of
its first declaration. The lines are made of the graph, where descriptors are
gone, by two ways. A parameter has kept its dimensions, so that the types in
the brackets of a method are those of its descriptor. A field has only kept
that it is an array, and is shown with one pair of brackets. Its line names the
declared type exactly if that has one dimension at most.
-/

/-! ## Names of types -/

namespace Descriptor

/-- The element of a class type has the name of the class. -/
theorem elementName_of_objectName?
    {type : Descriptor}
    {name : TypeName}
    (named : type.objectName? = some name) :
    type.elementName = name := by
  induction type with
  | base =>
      simp [objectName?, element] at named
  | object =>
      exact Option.some.inj named
  | array inner _ inductionHypothesis =>
      exact inductionHypothesis named

/-- A reference from a descriptor has the name under all dimensions. -/
theorem name_reference
    (type : Descriptor) :
    (Origin.element type).reference.name = type.elementName := by
  unfold Origin.reference
  dsimp only
  split
  · next name named =>
      exact (elementName_of_objectName? named).symm
  · rfl

/-- Every dimension adds one pair of brackets. -/
theorem length_bracketed
    (name : String)
    (dimensions : Nat) :
    (bracketed name dimensions).length = name.length + 2 * dimensions := by
  have pair : "[]".length = 2 := rfl
  rw [bracketed, String.length_append, String.length_join, List.map_replicate,
    List.sum_replicate_nat, pair, Nat.mul_comm]

/-- The name as a declaration writes it, but with one pair of brackets at most. -/
def shortName (type : Descriptor) : String :=
  bracketed type.elementName (min type.dimensions 1)

/-- It is the whole name if there are no more brackets. -/
theorem shortName_eq_sourceName_iff
    (type : Descriptor) :
    type.shortName = type.sourceName ↔ type.dimensions ≤ 1 := by
  constructor
  · intro same
    have lengths := congrArg String.length same
    rw [shortName, sourceName, length_bracketed, length_bracketed] at lengths
    omega
  · intro few
    rw [shortName, sourceName, Nat.min_eq_left few]

/-- The short name of a type has one pair of brackets for any array. -/
theorem Writes.shortName_eq
    {text : List Char}
    {type : Descriptor}
    (written : Writes text type) :
    type.shortName =
      type.elementName ++ (if type.isArray then "[]" else "") := by
  cases written with
  | element written =>
      cases written <;> rfl
  | @array _ _ dimensions positive _ =>
      have one : min dimensions 1 = 1 := by omega
      simp only [shortName, Descriptor.dimensions, one]
      rfl

end Descriptor

/-- A descriptor that stands for itself is written out with its brackets. -/
theorem Generic.text_raw
    (type : Descriptor) :
    type.raw.text = type.sourceName := by
  simp [Descriptor.raw, Generic.ofReference, Generic.withDimensions,
    Generic.text, Descriptor.name_reference, Descriptor.sourceName]

/-! ## Lines of members -/

/-- The line of a field whose type is written in some way. -/
def FieldDecl.lineWith
    (decl : FieldDecl)
    (type : String) :
    String :=
  let kind := if decl.isStatic then "static " else ""
  "  field " ++ kind ++ type ++ " " ++ decl.name

/-- Two lines of a field are told apart by the type in them. -/
theorem FieldDecl.lineWith_inj
    {decl : FieldDecl}
    {one other : String} :
    decl.lineWith one = decl.lineWith other ↔ one = other := by
  simp [lineWith, String.append_assoc]

/--
A line names a field and the element of its type, with brackets if it is an
array. That is the declared type for up to one dimension and not for more.
-/
def FieldDecl.IsShownBy
    (decl : FieldDecl)
    (line : String) :
    Prop :=
  ∃ type,
    Descriptor.parse decl.descriptor = .ok type ∧
      line = decl.lineWith type.shortName ∧
      (line = decl.lineWith type.sourceName ↔ type.dimensions ≤ 1)

/-- The line of a field shows its declaration. -/
theorem Field.Models.isShownBy
    {formals : Formals}
    {decl : FieldDecl}
    {field : Field}
    (models : field.Models formals decl) :
    decl.IsShownBy (Report.indented (Report.fieldLine field)) := by
  obtain ⟨type, parsed, same⟩ := models
  have kept := same (.type "")
  have name : field.name = decl.name :=
    congrArg Field.name kept
  have kind : field.isStatic = decl.isStatic :=
    congrArg Field.isStatic kept
  have array : field.isArray = type.isArray :=
    congrArg Field.isArray kept
  have element : field.type.name = type.elementName :=
    (congrArg (·.type.name) kept).trans type.name_reference
  have line :
      Report.indented (Report.fieldLine field) =
        decl.lineWith type.shortName := by
    have start : "  field " = "  " ++ "field " := rfl
    rw [(Descriptor.parse_writes parsed).shortName_eq]
    unfold Report.indented Report.fieldLine FieldDecl.lineWith
    simp only [name, kind, array, element, start, String.append_assoc]
  refine ⟨type, parsed, line, ?_⟩
  rw [line, FieldDecl.lineWith_inj]
  exact type.shortName_eq_sourceName_iff

/-- The line of a method whose types are written in some way. -/
def MethodDecl.lineWith
    (decl : MethodDecl)
    (result : String)
    (arguments : List String) :
    String :=
  "  method " ++ result ++ " " ++ decl.name ++
    "(" ++ ", ".intercalate arguments ++ ")"

/--
A line names a method and the types of its parameters as they are declared.
Without a signature it names the result so as well.
-/
def MethodDecl.IsShownBy
    (decl : MethodDecl)
    (line : String) :
    Prop :=
  ∃ type result,
    MethodDescriptor.parse decl.descriptor = .ok type ∧
      line = decl.lineWith result (type.parameters.map (·.sourceName)) ∧
      (decl.signature = none →
        result = (type.result.map (·.sourceName)).getD "void")

namespace Method

theorem argumentTypes_onto
    (element : Element)
    (method : Method) :
    (method.onto element).argumentTypes = method.argumentTypes := by
  simp [argumentTypes, onto, Parameter.onto, Parameter.sourceType,
    Function.comp_def]

/-- Whatever a signature says, parameters are shown by the descriptor. -/
theorem argumentTypes_model
    (decl : MethodDecl)
    (formals : Formals)
    (type : MethodDescriptor) :
    (decl.model formals type).argumentTypes =
      type.parameters.map (·.sourceName) := by
  refine List.ext_getElem? fun place => ?_
  simp [argumentTypes, MethodDecl.model, Filing.parameterDrafts,
    Filing.ParameterDraft.model, Parameter.sourceType,
    Descriptor.name_reference, Descriptor.sourceName, Function.comp_def,
    List.getElem?_zipIdx]

/-- The line of a method shows its declaration. -/
theorem Models.isShownBy
    {formals : Formals}
    {decl : MethodDecl}
    {method : Method}
    (models : method.Models formals decl) :
    decl.IsShownBy (Report.indented (Report.methodLine method)) := by
  obtain ⟨type, parsed, same⟩ := models
  have kept := same (.type "")
  have name : method.name = decl.name :=
    congrArg Method.name kept
  have result : method.result = (decl.model formals type).result :=
    (congrArg Method.result kept :)
  have arguments :
      method.argumentTypes = type.parameters.map (·.sourceName) := by
    have texts := congrArg Method.argumentTypes kept
    rwa [argumentTypes_onto, argumentTypes_onto, argumentTypes_model]
      at texts
  refine ⟨type, (method.result.map (·.text)).getD "void", parsed, ?_, ?_⟩
  · have start : "  method " = "  " ++ "method " := rfl
    unfold Report.indented Report.methodLine MethodDecl.lineWith
    simp only [name, arguments, start, String.append_assoc]
  · intro unsigned
    have raw : method.result = type.result.map (·.raw) := by
      rw [result]
      simp only [MethodDecl.model, unsigned]
      rfl
    rw [raw, Option.map_map]
    congr 2
    funext type
    exact Generic.text_raw type

end Method

/-! ## Whole reports -/

namespace Report

/-- The first line of a type, with a remark if it was not entered. -/
def heading
    (store : Store)
    (name : TypeName)
    (category : Category) :
    String :=
  let kind :=
    match category with
    | .classType => "class "
    | .interfaceType => "interface "
    | .annotationType => "annotation "
    | .enumType => "enum "
  kind ++ name ++ if store.isVisited name then "" else " (unresolved)"

/--
The lines of a type above those of its members. Supertypes are written with
their arguments where a signature has told them.
-/
def opening
    (store : Store)
    (name : TypeName)
    (node : Node) :
    List String :=
  let parent :=
    node.lineage.genericParent.map (·.text) <|>
      node.lineage.parent.map (·.name)
  let interfaces :=
    if node.lineage.genericInterfaces = [] then
      node.lineage.interfaces.map (·.name)
    else
      node.lineage.genericInterfaces.map (·.text)
  [heading store name node.category]
    ++ parent.toList.map ("  extends " ++ ·)
    ++ interfaces.map ("  implements " ++ ·)
    ++ node.locations.map ("  location " ++ ·)
    ++ node.annotations.map fun use => "  @" ++ use.type.name

/-- The lines of a type below those of its members. -/
def closing
    (store : Store)
    (node : Node) :
    List String :=
  node.defaults.map fun (element, value) =>
    "  default " ++ element ++ " = " ++ store.describeValue value

/-- Lines that begin with one label are set in by a longer label. -/
theorem map_indented
    {label longer : String}
    (same : longer = "  " ++ label)
    (lines : List String) :
    (lines.map (label ++ ·)).map indented = lines.map (longer ++ ·) := by
  simp only [List.map_map, Function.comp_def, indented, same,
    String.append_assoc]

/--
The heading of a type is its category and name, and a note if it is unresolved.
-/
theorem heading_eq
    (store : Store)
    (name : TypeName)
    (category : Category) :
    heading store name category =
      category.word ++ " " ++ name ++
        if store.isVisited name then "" else " (unresolved)" := by
  cases category <;> rfl

/-- Static fields are shown first, then the others, then methods. -/
theorem typeLines_eq
    (store : Store)
    (name : TypeName)
    (node : Node) :
    typeLines store name node =
      opening store name node
        ++ (node.fieldsOf true ++ node.fieldsOf false).map
          (indented <| fieldLine ·)
        ++ node.methods.map (indented <| methodLine ·)
        ++ closing store node := by
  have annotations :
      (node.annotations.map ("@" ++ ·.type.name)).map indented =
        node.annotations.map ("  @" ++ ·.type.name) := by
    have marks :=
      map_indented (show "  @" = "  " ++ "@" from rfl)
        (node.annotations.map (·.type.name))
    simpa only [List.map_map, Function.comp_def] using marks
  have defaults :
      (node.defaults.map fun (element, value) =>
          defaultLine store element value).map indented =
        closing store node := by
    have start : "  default " = "  " ++ "default " := rfl
    simp only [closing, defaultLine, indented, start, List.map_map,
      Function.comp_def, String.append_assoc]
  simp only [typeLines, opening, parentLines, interfaceLines, heading_eq,
    List.isEmpty_iff, List.map_append, annotations, defaults, Node.fieldsOf,
    map_indented (show "  extends " = "  " ++ "extends " from rfl),
    map_indented (show "  implements " = "  " ++ "implements " from rfl),
    map_indented (show "  location " = "  " ++ "location " from rfl)]
  simp [Function.comp_def]

end Report

/--
The fields that are kept of a declaration, static ones first. An annotation
type has none.
-/
def ClassDecl.shownFields
    (settings : Settings)
    (decl : ClassDecl) :
    List FieldDecl :=
  let kept := decl.retainedFields settings
  if decl.category = .annotationType then
    []
  else
    kept.filter (·.isStatic == true) ++ kept.filter (·.isStatic == false)

namespace Node

variable {settings : Settings} {decl : ClassDecl} {node : Node}

/-- The lines of a node's fields show the fields that are kept. -/
theorem Retains.fields_isShownBy
    (retains : node.Retains settings decl) :
    List.Forall₂ FieldDecl.IsShownBy (decl.shownFields settings)
      ((node.fieldsOf true ++ node.fieldsOf false).map
        (Report.indented <| Report.fieldLine ·)) := by
  rw [List.forall₂_map_right_iff, ClassDecl.shownFields]
  split
  · next annotates =>
      rw [retains.fieldless annotates, retains.fieldless annotates]
      exact .nil
  · next other =>
      have shown (isStatic : Bool) :=
        (retains.fields other isStatic).imp fun _ _ models => models.isShownBy
      exact List.rel_append (shown true) (shown false)

/-- The lines of a node's methods show the methods that are kept. -/
theorem Retains.methods_isShownBy
    (retains : node.Retains settings decl) :
    List.Forall₂ MethodDecl.IsShownBy (decl.retainedMethods settings)
      (node.methods.map (Report.indented <| Report.methodLine ·)) := by
  rw [List.forall₂_map_right_iff]
  exact retains.methods.imp fun _ _ models => models.isShownBy

end Node

/-- A type has the members that its first declaration retains. -/
theorem Atlas.Records.retains
    {atlas : Atlas}
    {settings : Settings}
    {name : TypeName}
    {first : Acceptance}
    {later : List Acceptance}
    (records : atlas.Records settings name (first :: later)) :
    ∃ alone node,
      atlas.store.node? name = some node ∧
        node.SameMembers alone ∧ alone.Retains settings first.decl := by
  obtain ⟨-, alone, node, entered, here, -, members, -⟩ := records
  let entry : Acceptance := ⟨first.source, { settings := settings }⟩
  have entered : entry.outcome.2.store.visitedNode? name = some alone :=
    entered
  have visited : entry.outcome.2.store.isVisited name = true := by
    obtain ⟨known, found, marked, -⟩ := Store.exists_of_visitedNode? entered
    rw [Store.isVisited, found]
    exact marked
  have accepted : entry.outcome.1 = some name :=
    ((entry.isVisited_outcome name).mp visited).resolve_left
      (by simp [entry, Store.isVisited, Store.find?])
  obtain ⟨kept, installed, retains⟩ := entry.retains Store.wellFormed_empty
    accepted rfl (.refl _)
  obtain rfl : alone = kept :=
    Option.some.inj (entered.symm.trans installed)
  exact ⟨alone, node, here, members, retains⟩

namespace CommandLine.Invocation

/--
A run that shows a type which was entered prints a line for every field and
every method that its first declaration retains, static fields first, between
the lines for its supertypes, locations and annotations and those for its
defaults. Methods are shown with the parameters of their descriptors, fields
with one pair of brackets at most.
-/
theorem shown_members
    {invocation : Invocation}
    {tree : FileTree}
    {name : TypeName}
    (asked : invocation.command = .showType name)
    {atlas : Atlas}
    {tally : Tally}
    (gathered : invocation.gather tree = .ok (atlas, tally))
    (visited : atlas.store.isVisited name = true) :
    ∃ settings steps first later node fields methods printed,
      invocation.Enters tree settings steps atlas ∧
        steps.filter (·.outcome.1 = some name) = first :: later ∧
        atlas.store.node? name = some node ∧
        invocation.run tree = .ok printed ∧
        Report.Prints printed
          (Report.opening atlas.store name node ++ fields ++ methods ++
            Report.closing atlas.store node) ∧
        List.Forall₂ FieldDecl.IsShownBy
          (first.decl.shownFields settings) fields ∧
        List.Forall₂ MethodDecl.IsShownBy
          (first.decl.retainedMethods settings) methods := by
  obtain ⟨settings, steps, enters⟩ := gather_enters gathered
  have records := enters.trail.records name
  cases accepted : steps.filter (·.outcome.1 = some name) with
  | nil =>
      rw [accepted] at records
      rw [records.1] at visited
      exact absurd visited (by simp)
  | cons first later =>
      rw [accepted] at records
      obtain ⟨alone, node, here, members, retains⟩ := records.retains
      have fields := retains.fields_isShownBy
      have methods := retains.methods_isShownBy
      simp only [Node.fieldsOf, ← members.fields, ← members.staticFields,
        ← members.methods] at fields methods
      refine ⟨settings, steps, first, later, node, _, _, _, enters, accepted,
        here, ?_, Report.prints_text _, fields, methods⟩
      rw [run_eq, gathered, asked]
      simp only [Except.bind, Command.answer, here, Except.map,
        Report.typeLines_eq]
      rfl

/-- A class with arrays of several dimensions, in fields and in a method. -/
def grid : ClassDecl :=
  { access := 0x21
    name := "c.Grid"
    fields :=
      [{ access := 0x2, name := "cells", descriptor := "[[I" },
        { access := 0xA, name := "names", descriptor := "[Ljava/lang/String;" }]
    methods :=
      [{ access := 0x1, name := "fill", descriptor := "([[I[Lc/Cell;)[[J" }] }

def gridFiles : List (List String × FileContent) :=
  [(["in", "c", "Grid.class"], .bytes (ClassFile.encode grid))]

/-- The request to show that class with all its members. -/
def showingGrid : Invocation :=
  { options := { allMembers := true }
    paths := ["/in"]
    command := .showType "c.Grid" }

theorem shown_members_showingGrid :
    ∃ atlas tally,
      showingGrid.gather { files := gridFiles } = .ok (atlas, tally) ∧
        atlas.store.isVisited "c.Grid" = true ∧
        ∃ settings steps first later node fields methods printed,
          showingGrid.Enters { files := gridFiles } settings steps atlas ∧
            steps.filter (·.outcome.1 = some "c.Grid") = first :: later ∧
            atlas.store.node? "c.Grid" = some node ∧
            showingGrid.run { files := gridFiles } = .ok printed ∧
            Report.Prints printed
              (Report.opening atlas.store "c.Grid" node ++ fields ++
                methods ++ Report.closing atlas.store node) ∧
            List.Forall₂ FieldDecl.IsShownBy
              (first.decl.shownFields settings) fields ∧
            List.Forall₂ MethodDecl.IsShownBy
              (first.decl.retainedMethods settings) methods := by
  have known :
      (showingGrid.gather { files := gridFiles }).toOption.map
          (·.1.store.isVisited "c.Grid") =
        some true := by
    decide +kernel
  generalize gathered : showingGrid.gather { files := gridFiles } = outcome
    at known
  cases outcome with
  | error fault =>
      exact absurd known (by simp [Except.toOption])
  | ok found =>
      obtain ⟨atlas, tally⟩ := found
      have visited : atlas.store.isVisited "c.Grid" = true :=
        Option.some.inj known
      exact ⟨atlas, tally, rfl, visited, shown_members rfl gathered visited⟩

/-- The field `cells` has lost a dimension, which the method has kept. -/
theorem showingGrid_flattens_cells :
    (Descriptor.parse "[[I").toOption.map (·.sourceName) = some "int[][]" ∧
      showingGrid.run { files := gridFiles } =
        .ok ("class c.Grid\n"
          ++ "  location file:///in/\n"
          ++ "  field static java.lang.String[] names\n"
          ++ "  field int[] cells\n"
          ++ "  method long[][] fill(int[][], c.Cell[])\n") := by
  constructor <;> decide +kernel

end CommandLine.Invocation

end TypeAtlas
