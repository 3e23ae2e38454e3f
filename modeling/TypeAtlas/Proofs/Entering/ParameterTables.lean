import TypeAtlas.Proofs.ClassFile.Layout
import TypeAtlas.Proofs.ClassFile.RoundTrip
import TypeAtlas.Proofs.Entering.Retention
import TypeAtlas.Survey

namespace TypeAtlas

/-!
# Tables of parameter annotations

A class file has up to two tables of annotations on the parameters of a method,
one for each visibility. A table may have fewer slots than there are
parameters, or more, and it belongs to the last parameters. The reader joins
the two tables before that, slot by slot from the first on, so of two tables of
different lengths only the longer one is placed by its own end. This module
follows both tables from the bytes of a class file to the parameters of the
methods that are kept, and says when each table gets its own place.
-/

open ClassFile

/-- The annotations on parameters, slot by slot. -/
abbrev AnnotationTable :=
  List (List AnnotationDecl)

/-! ## Tables in a file -/

/-- The visibility of the parameter annotations in an attribute of this name. -/
def tableVisibility? : String → Option Bool
  | "RuntimeVisibleParameterAnnotations" => some true
  | "RuntimeInvisibleParameterAnnotations" => some false
  | _ => none

/-- The table in an attribute, with its visibility. -/
def tableIn?
    (pool : ConstantPool)
    (plain : Attribute) :
    Option (Bool × AnnotationTable) :=
  (tableVisibility? plain.1).bind fun visible =>
    match (readParameterAnnotations pool visible).run plain.2 with
    | .ok (table, _) => some (visible, table)
    | .error _ => none

/-- The tables in attributes, in the order of the attributes. -/
def tablesIn
    (pool : ConstantPool)
    (attributes : List Attribute) :
    List (Bool × AnnotationTable) :=
  attributes.filterMap (tableIn? pool)

/-- Attributes hold a visible and an invisible table in this order, if any. -/
def HoldTables
    (pool : ConstantPool)
    (attributes : List Attribute)
    (visible invisible : Option AnnotationTable) :
    Prop :=
  tablesIn pool attributes =
    (visible.map (true, ·)).toList ++ (invisible.map (false, ·)).toList

/-- An attribute whose content reads as a table holds that table. -/
theorem tableIn?_of_read
    {pool : ConstantPool}
    {name : String}
    {visible : Bool}
    (known : tableVisibility? name = some visible)
    {content left : Bytes}
    {table : AnnotationTable}
    (read :
      (readParameterAnnotations pool visible).run content =
        .ok (table, left)) :
    tableIn? pool (name, content) = some (visible, table) := by
  rw [tableIn?, known, Option.bind_some, read]

/-- An attribute under another name holds no table. -/
theorem tableIn?_of_other
    {pool : ConstantPool}
    {name : String}
    (other : tableVisibility? name = none)
    (content : Bytes) :
    tableIn? pool (name, content) = none := by
  rw [tableIn?, other, Option.bind_none]

/-- An attribute joins its table to those before it, if it has one. -/
theorem parameterAnnotations_of_handled
    {pool : ConstantPool}
    {method next : MethodDecl}
    {name : String}
    {content left : Bytes}
    (handled :
      (readMethodAttribute pool method name).run content = .ok (next, left)) :
    next.parameterAnnotations =
      ((tableIn? pool (name, content)).map Prod.snd).toList.foldl mergeTables
        method.parameterAnnotations := by
  unfold readMethodAttribute at handled
  split at handled
  case h_4 | h_5 =>
    obtain ⟨table, rest, read, handled⟩ := exists_of_run_bind handled
    cases handled
    rw [tableIn?_of_read rfl read]
    rfl
  case h_2 | h_3 | h_6 | h_7 =>
    obtain ⟨_, _, -, handled⟩ := exists_of_run_bind handled
    cases handled
    rw [tableIn?_of_other rfl]
    rfl
  case h_1 =>
    obtain ⟨_, _, -, handled⟩ := exists_of_run_bind handled
    obtain ⟨_, _, -, handled⟩ := exists_of_run_bind handled
    cases handled
    rw [tableIn?_of_other rfl]
    rfl
  case h_8 notVisible notInvisible _ _ =>
    have other : tableVisibility? name = none := by
      unfold tableVisibility?
      split
      · exact absurd rfl notVisible
      · exact absurd rfl notInvisible
      · rfl
    cases handled
    rw [tableIn?_of_other other]
    rfl

/-- A method has the tables of all its attributes joined. -/
theorem parameterAnnotations_of_takesIn
    {pool : ConstantPool}
    {start final : MethodDecl}
    {attributes : List Attribute}
    (taken : TakesIn (readMethodAttribute pool) start attributes final) :
    final.parameterAnnotations =
      ((tablesIn pool attributes).map Prod.snd).foldl mergeTables
        start.parameterAnnotations := by
  induction taken with
  | none =>
      rfl
  | next handled _ inductionHypothesis =>
      rw [inductionHypothesis, parameterAnnotations_of_handled handled,
        tablesIn, tablesIn, List.filterMap_cons]
      split
      · next without =>
          rw [without]
          rfl
      · next found =>
          rw [found]
          rfl

/-- A method that was read from attributes has their two tables joined. -/
theorem mergeTables_of_holdTables
    {pool : ConstantPool}
    {method : MethodDecl}
    {attributes : List Attribute}
    {visible invisible : Option AnnotationTable}
    (read : IsReadFrom pool method attributes)
    (hold : HoldTables pool attributes visible invisible) :
    method.parameterAnnotations =
      mergeTables (visible.getD []) (invisible.getD []) := by
  obtain ⟨access, name, descriptor, taken⟩ := read
  rw [parameterAnnotations_of_takesIn taken, show tablesIn _ _ = _ from hold]
  cases visible <;> cases invisible <;> simp [mergeTables, mergeTables_nil]

/-! ## Slots -/

section Slots

variable {α : Type}

/-- The slot of a table with so many slots behind it, empty if there is none. -/
def slotBefore
    (table : List (List α))
    (behind : Nat) :
    List α :=
  table.reverse.getD behind []

/-- A table with empty slots at its end, to be at least of a length. -/
def extendTo
    (length : Nat)
    (table : List (List α)) :
    List (List α) :=
  table ++ List.replicate (length - table.length) []

/-- The same slot, counted from the first. -/
theorem slotBefore_eq
    (table : List (List α))
    (behind : Nat) :
    slotBefore table behind =
      if behind < table.length then
        table.getD (table.length - 1 - behind) []
      else
        [] := by
  rw [slotBefore, List.getD_eq_getElem?_getD]
  split
  · next within =>
      rw [List.getElem?_reverse within, List.getD_eq_getElem?_getD]
  · next outside =>
      rw [List.getElem?_eq_none (by simpa using outside)]
      rfl

/-- A table is extended to a length unless it is longer. -/
theorem length_extendTo
    (length : Nat)
    (table : List (List α)) :
    (extendTo length table).length = max length table.length := by
  simp only [extendTo, List.length_append, List.length_replicate]
  omega

/-- The slots that a table is extended by are empty. -/
theorem getD_extendTo
    (length : Nat)
    (table : List (List α))
    (place : Nat) :
    (extendTo length table).getD place [] = table.getD place [] := by
  simp only [extendTo, List.getD_eq_getElem?_getD, List.getElem?_append,
    List.getElem?_replicate]
  split
  · rfl
  · next outside =>
      rw [List.getElem?_eq_none (by omega : table.length ≤ place)]
      split <;> rfl

/-- Joined tables are as long as the longer of the two. -/
theorem length_mergeTables
    (table incoming : List (List α)) :
    (mergeTables table incoming).length =
      max table.length incoming.length := by
  fun_induction mergeTables table incoming with
  | case1 => simp
  | case2 => simp
  | case3 _ _ _ _ inductionHypothesis =>
      simp only [List.length_cons, inductionHypothesis]
      omega

/-- A slot of joined tables holds what both hold in it. -/
theorem getD_mergeTables
    (table incoming : List (List α))
    (place : Nat) :
    (mergeTables table incoming).getD place [] =
      table.getD place [] ++ incoming.getD place [] := by
  fun_induction mergeTables table incoming generalizing place with
  | case1 => simp
  | case2 => simp
  | case3 slot table more incoming inductionHypothesis =>
      cases place with
      | zero => rfl
      | succ place => simpa using inductionHypothesis place

/-- To join tables is to bring them to one length and put slots together. -/
theorem slotBefore_mergeTables
    (table incoming : List (List α))
    (behind : Nat) :
    slotBefore (mergeTables table incoming) behind =
      slotBefore (extendTo incoming.length table) behind ++
        slotBefore (extendTo table.length incoming) behind := by
  simp only [slotBefore_eq, length_mergeTables, length_extendTo,
    getD_mergeTables, getD_extendTo, max_comm]
  split
  · rfl
  · rfl

/-- A slot of an extended table has the empty slots behind it as well. -/
theorem slotBefore_extendTo
    (length : Nat)
    (table : List (List α))
    (behind : Nat) :
    slotBefore (extendTo length table) behind =
      if behind < length - table.length then
        []
      else
        slotBefore table (behind - (length - table.length)) := by
  rw [slotBefore, extendTo, List.reverse_append, List.reverse_replicate,
    List.getD_eq_getElem?_getD, List.getElem?_append, List.length_replicate]
  split
  · next within =>
      rw [List.getElem?_replicate, if_pos within]
      rfl
  · rfl

/-- A parameter gets the slot that is as far from the end as it is itself. -/
theorem getD_alignTable
    (table : List (List α))
    {parameters place : Nat}
    (within : place < parameters) :
    (alignTable table parameters).getD place [] =
      slotBefore table (parameters - 1 - place) := by
  rw [slotBefore_eq, alignTable, List.getD_eq_getElem?_getD,
    List.getElem?_append, List.length_replicate]
  split
  · next padding =>
      rw [List.getElem?_replicate, if_pos padding, if_neg (by omega)]
      rfl
  · next slot =>
      rw [List.getElem?_drop, if_pos (by omega), List.getD_eq_getElem?_getD]
      congr 3
      omega

/-- A table that is long enough is not extended. -/
theorem extendTo_of_le
    {length : Nat}
    {table : List (List α)}
    (enough : length ≤ table.length) :
    extendTo length table = table := by
  rw [extendTo, Nat.sub_eq_zero_of_le enough, List.replicate_zero,
    List.append_nil]

/-- No annotation of a table belongs to one of so many parameters. -/
def IsBlankFor
    (parameters : Nat)
    (table : List (List α)) :
    Prop :=
  ∀ behind < parameters, slotBefore table behind = []

/-- A table that is blank for some parameters stays so when it is extended. -/
theorem IsBlankFor.extendTo
    {parameters : Nat}
    {table : List (List α)}
    (blank : IsBlankFor parameters table)
    (length : Nat) :
    IsBlankFor parameters (extendTo length table) := by
  intro behind within
  rw [slotBefore_extendTo]
  split
  · rfl
  · exact blank _ (by omega)

/--
Empty slots at the end of a table push others out of their places, unless there
is nothing to push: a slot that has as many annotations as the one it gives its
place to is empty, from the last slot on.
-/
theorem isBlankFor_of_extendTo
    {parameters length : Nat}
    {table : List (List α)}
    (longer : table.length < length)
    (same :
      ∀ behind < parameters,
        (slotBefore (extendTo length table) behind).length =
          (slotBefore table behind).length) :
    IsBlankFor parameters table := by
  intro behind
  induction behind using Nat.strongRecOn with
  | ind behind inductionHypothesis =>
      intro within
      have count := same behind within
      rw [slotBefore_extendTo] at count
      apply List.eq_nil_of_length_eq_zero
      rw [← count]
      split
      · rfl
      · rw [inductionHypothesis _ (by omega) (by omega)]
        rfl

end Slots

/-! ## Parameters of kept methods -/

/-- A parameter carries exactly these annotations, wherever it has its place. -/
def Parameter.Carries
    (decls : List AnnotationDecl)
    (parameter : Parameter) :
    Prop :=
  ∀ element,
    attachedTo element parameter.annotations =
      attachedTo element (decls.map (·.use))

/-- A parameter carries as many annotations as were declared for it. -/
theorem Parameter.Carries.length_eq
    {decls : List AnnotationDecl}
    {parameter : Parameter}
    (carries : parameter.Carries decls) :
    parameter.annotations.length = decls.length := by
  simpa [attachedTo] using congrArg List.length (carries (.type ""))

/--
Every parameter of a method carries the annotations that are given for the
number of parameters behind it.
-/
def Method.Carries
    (slots : Nat → List AnnotationDecl)
    (method : Method) :
    Prop :=
  ∀ (place : Nat) (parameter : Parameter),
    method.parameters[place]? = some parameter →
      parameter.Carries (slots (method.parameters.length - 1 - place))

namespace Method

/--
Tables that agree on the parameters of a method stand for the same annotations.
-/
theorem Carries.congr
    {slots others : Nat → List AnnotationDecl}
    {method : Method}
    (carries : method.Carries slots)
    (same :
      ∀ behind < method.parameters.length, slots behind = others behind) :
    method.Carries others := by
  intro place parameter found
  have within := (List.getElem?_eq_some_iff.mp found).1
  rw [← same _ (by omega)]
  exact carries place parameter found

/-- A method tells how many annotations there are in each slot. -/
theorem Carries.length_eq
    {slots others : Nat → List AnnotationDecl}
    {method : Method}
    (carries : method.Carries slots)
    (also : method.Carries others)
    (behind : Nat)
    (within : behind < method.parameters.length) :
    (slots behind).length = (others behind).length := by
  have place : method.parameters.length - 1 - behind <
      method.parameters.length := by
    omega
  have back :
      method.parameters.length - 1 - (method.parameters.length - 1 - behind) =
        behind := by
    omega
  have found := List.getElem?_eq_getElem place
  have one := carries _ _ found
  have other := also _ _ found
  rw [back] at one other
  exact one.length_eq.symm.trans other.length_eq

/-- A parameter of a model has the annotations of its slot. -/
theorem annotations_of_model
    {decl : MethodDecl}
    {formals : Formals}
    {type : MethodDescriptor}
    {place : Nat}
    {parameter : Parameter}
    (found :
      (decl.model formals type).parameters[place]? = some parameter) :
    parameter.annotations =
      (slotBefore decl.parameterAnnotations
        (type.parameters.length - 1 - place)).map (·.use) := by
  simp only [MethodDecl.model, Filing.parameterDrafts, List.getElem?_map,
    List.getElem?_zipIdx, Option.map_map, Option.map_eq_some_iff] at found
  obtain ⟨_, known, rfl⟩ := found
  have within := (List.getElem?_eq_some_iff.mp known).1
  rw [← getD_alignTable _ within, List.getD_eq_getElem?_getD]
  simp only [Filing.ParameterDraft.model, Function.comp_apply, Nat.zero_add]
  cases (alignTable decl.parameterAnnotations
    type.parameters.length)[place]? with
  | none =>
      rfl
  | some slot =>
      rfl

namespace Models

variable {formals : Formals} {decl : MethodDecl} {method : Method}

/-- A method has as many parameters as its descriptor. -/
theorem length_parameters
    {type : MethodDescriptor}
    {element : Element}
    (same :
      method.onto element = (decl.model formals type).onto element) :
    method.parameters.length = type.parameters.length := by
  have count := congrArg (·.parameters.length) same
  simpa [Method.onto, MethodDecl.model, Filing.parameterDrafts] using count

/-- A method that is kept has a parameter for each one of its descriptor. -/
theorem parameters
    (models : method.Models formals decl) :
    ∃ type,
      MethodDescriptor.parse method.descriptor = .ok type ∧
        method.parameters.length = type.parameters.length := by
  obtain ⟨type, parsed, same⟩ := models
  have descriptor : method.descriptor = decl.descriptor :=
    congrArg Method.descriptor (same (.type ""))
  exact ⟨type, by rw [descriptor, parsed], length_parameters (same (.type ""))⟩

/-- What is kept of a method has its table at the last parameters. -/
theorem carries
    (models : method.Models formals decl) :
    method.Carries (slotBefore decl.parameterAnnotations) := by
  obtain ⟨type, -, same⟩ := models
  intro place parameter found element
  have counterpart :
      ((decl.model formals type).parameters[place]?).map
          (·.onto element) =
        some (parameter.onto element) := by
    have whole := congrArg (·.parameters[place]?) (same element)
    simpa [Method.onto, found] using whole.symm
  obtain ⟨model, known, alike⟩ := Option.map_eq_some_iff.mp counterpart
  have annotations := congrArg Parameter.annotations alike
  rw [length_parameters (same element), ← annotations_of_model known]
  exact annotations.symm

end Models

/-- Each of two tables is placed by its own end. -/
def CarriesApart
    (visible invisible : AnnotationTable)
    (method : Method) :
    Prop :=
  method.Carries fun behind =>
    slotBefore visible behind ++ slotBefore invisible behind

/-- The shorter of two tables gets empty slots at its end to be as long. -/
def CarriesJoined
    (visible invisible : AnnotationTable)
    (method : Method) :
    Prop :=
  method.Carries fun behind =>
    slotBefore (extendTo invisible.length visible) behind ++
      slotBefore (extendTo visible.length invisible) behind

/-- Only slots of the shorter table are moved, so only they can be wrong. -/
theorem CarriesJoined.apart_iff
    {visible invisible : AnnotationTable}
    {method : Method}
    (joined : method.CarriesJoined visible invisible) :
    method.CarriesApart visible invisible ↔
      (visible.length < invisible.length →
        IsBlankFor method.parameters.length visible) ∧
        (invisible.length < visible.length →
          IsBlankFor method.parameters.length invisible) := by
  constructor
  · intro apart
    -- The longer table is as it was, so its slots say nothing and cancel out.
    have same := Carries.length_eq joined apart
    simp only [List.length_append] at same
    constructor
    · intro longer
      refine isBlankFor_of_extendTo longer fun behind within => ?_
      have count := same behind within
      rw [extendTo_of_le (Nat.le_of_lt longer)] at count
      exact Nat.add_right_cancel count
    · intro longer
      refine isBlankFor_of_extendTo longer fun behind within => ?_
      have count := same behind within
      rw [extendTo_of_le (Nat.le_of_lt longer)] at count
      exact Nat.add_left_cancel count
  · rintro ⟨visibleBlank, invisibleBlank⟩
    refine Carries.congr joined fun behind within => ?_
    rcases Nat.lt_trichotomy visible.length invisible.length with
      longer | equal | longer
    · have blank := visibleBlank longer
      rw [extendTo_of_le (Nat.le_of_lt longer), blank behind within,
        blank.extendTo _ behind within]
    · rw [extendTo_of_le (Nat.le_of_eq equal),
        extendTo_of_le (Nat.le_of_eq equal.symm)]
    · have blank := invisibleBlank longer
      rw [extendTo_of_le (Nat.le_of_lt longer), blank behind within,
        blank.extendTo _ behind within]

/-- What the parameters of a kept method have of two tables in the file. -/
structure JoinsTables
    (visible invisible : AnnotationTable)
    (method : Method) :
    Prop where
  parameters :
    ∃ type,
      MethodDescriptor.parse method.descriptor = .ok type ∧
        method.parameters.length = type.parameters.length
  joined : method.CarriesJoined visible invisible
  /-- A table that is shorter, and not blank, is in the wrong place. -/
  apart_iff :
    method.CarriesApart visible invisible ↔
      (visible.length < invisible.length →
        IsBlankFor method.parameters.length visible) ∧
        (invisible.length < visible.length →
          IsBlankFor method.parameters.length invisible)

/-- A method that was entered from joined tables carries them so. -/
theorem Models.joinsTables
    {formals : Formals}
    {decl : MethodDecl}
    {method : Method}
    (models : method.Models formals decl)
    {visible invisible : AnnotationTable}
    (merged : decl.parameterAnnotations = mergeTables visible invisible) :
    method.JoinsTables visible invisible := by
  have carries := models.carries
  rw [merged] at carries
  have joined : method.CarriesJoined visible invisible :=
    carries.congr fun behind _ =>
      slotBefore_mergeTables visible invisible behind
  exact ⟨models.parameters, joined, joined.apart_iff⟩

end Method

/-! ## From bytes to parameters -/

/-- Items are related to their parts, and those that are kept to what is kept. -/
theorem forall₂_filter_zip
    {First : α → β → Prop}
    {Second : α → γ → Prop}
    {keep : α → Bool}
    {items : List α}
    {parts : List β}
    {kept : List γ}
    (first : List.Forall₂ First items parts)
    (second : List.Forall₂ Second (items.filter keep) kept) :
    List.Forall₂ (fun pair last => First pair.1 pair.2 ∧ Second pair.1 last)
      ((items.zip parts).filter fun pair => keep pair.1) kept := by
  induction first generalizing kept with
  | nil =>
      cases second
      exact .nil
  | cons head tail inductionHypothesis =>
      rw [List.filter_cons] at second
      rw [List.zip_cons_cons, List.filter_cons]
      split at second
      · next kept =>
          rw [if_pos kept]
          cases second with
          | cons same rest =>
              exact .cons ⟨head, same⟩ (inductionHypothesis rest)
      · next dropped =>
          rw [if_neg dropped]
          exact inductionHypothesis second

namespace Session

/--
A class that is read from bytes and entered while its type is unvisited has the
methods that are kept of it, in the order of the file. Where a method has a
visible and an invisible table in the file, or only one of them, the parameters
carry the tables as they were joined, and each table is in its own place
exactly if the shorter one has nothing for the parameters.
-/
theorem first_visit_joins_tables
    (acts : List Act)
    {bytes : Bytes}
    {decl : ClassDecl}
    (decoded : decode bytes = .ok decl)
    (unvisited : (run {} acts).atlas.store.isVisited decl.name = false)
    (location : Option String)
    (isApplication : Bool) :
    let atlas := (run {} acts).atlas
    let outcome := atlas.enterBytes bytes location isApplication
    outcome.1 = .ok (some decl.name) →
      ∃ parts node,
        layout bytes = .ok parts ∧
          outcome.2.store.visitedNode? decl.name = some node ∧
          parts.methods.length = decl.methods.length ∧
          List.Forall₂
            (fun (_, attributes) kept =>
              ∀ visible invisible,
                HoldTables parts.pool attributes visible invisible →
                  kept.JoinsTables (visible.getD []) (invisible.getD []))
            ((decl.methods.zip parts.methods).filter fun (method, _) =>
              atlas.settings.looksInto decl &&
                method.isRetained atlas.settings)
            node.methods := by
  intro atlas outcome accepted
  have entered :
      outcome =
        (.ok (atlas.enter decl location isApplication).1,
          (atlas.enter decl location isApplication).2) := by
    simp only [outcome, Atlas.enterBytes, decoded]
  rw [entered, Except.ok.injEq] at accepted
  rw [entered]
  have wellFormed : atlas.store.WellFormed :=
    (run_evolves {} acts).wellFormed Store.wellFormed_empty
  obtain ⟨node, installed, retains⟩ :=
    Acceptance.retains ⟨⟨decl, location, isApplication⟩, atlas⟩ wellFormed
      accepted unvisited ((run_populates acts).sameElements unvisited)
  obtain ⟨parts, laidOut, read⟩ := exists_layout_of_decode decoded
  refine ⟨parts, node, laidOut, installed, read.length_eq.symm, ?_⟩
  refine (forall₂_filter_zip read retains.methods).imp ?_
  rintro ⟨method, attributes⟩ kept ⟨readFrom, models⟩ visible invisible hold
  exact models.joinsTables (mergeTables_of_holdTables readFrom hold)

/-- The constants of a class file. -/
def lopsidedConstants : Draft :=
  [.text "c/T", .classRef 1, .text "Lc/V;",
    .text "RuntimeVisibleParameterAnnotations", .text "Lc/I;",
    .text "RuntimeInvisibleParameterAnnotations", .text "m", .text "(II)V"]

/--
A class with a method of two parameters. Its visible table has a slot for the
last parameter only, its invisible one has a slot for each.
-/
def lopsided : Bytes :=
  writeU4 magic ++ [0, 0, 0, 52] ++ lopsidedConstants.bytes
    -- The class: its flags and name, without supertypes and fields.
    ++ [0, 1, 0, 2, 0, 0, 0, 0, 0, 0]
    -- The method: its flags, name and descriptor, and two attributes.
    ++ [0, 1, 0, 1, 0, 7, 0, 8, 0, 2]
    ++ [0, 4, 0, 0, 0, 7, 1, 0, 1, 0, 3, 0, 0]
    ++ [0, 6, 0, 0, 0, 9, 2, 0, 0, 0, 1, 0, 5, 0, 0]
    ++ [0, 0]

def lopsidedVisible : AnnotationTable :=
  [[⟨"Lc/V;", true, []⟩]]

def lopsidedInvisible : AnnotationTable :=
  [[], [⟨"Lc/I;", false, []⟩]]

def lopsidedDecl : ClassDecl :=
  { access := 0x1
    name := "c.T"
    methods :=
      [{ access := 0x1
         name := "m"
         descriptor := "(II)V"
         parameterAnnotations :=
           mergeTables lopsidedVisible lopsidedInvisible }] }

def lopsidedLayout : Layout :=
  { pool := ⟨.unusable :: lopsidedConstants⟩
    methods :=
      [[("RuntimeVisibleParameterAnnotations", [1, 0, 1, 0, 3, 0, 0]),
        ("RuntimeInvisibleParameterAnnotations",
          [2, 0, 0, 0, 1, 0, 5, 0, 0])]] }

/-- The class file has the declaration that is written out. -/
theorem decode_lopsided :
    decode lopsided = .ok lopsidedDecl := by
  with_unfolding_all rfl

/-- The class file has the layout that is written out. -/
theorem layout_lopsided :
    layout lopsided = .ok lopsidedLayout := by
  decide +kernel

/-- The attributes of its method are the two tables. -/
theorem holdTables_lopsided :
    ∀ attributes ∈ lopsidedLayout.methods,
      HoldTables lopsidedLayout.pool attributes (some lopsidedVisible)
        (some lopsidedInvisible) := by
  intro attributes member
  rw [List.mem_singleton.mp member]
  with_unfolding_all rfl

theorem first_visit_joins_lopsided :
    let outcome := Atlas.enterBytes {} lopsided none true
    outcome.1 = .ok (some "c.T") ∧
      ∃ node kept,
        outcome.2.store.visitedNode? "c.T" = some node ∧
          node.methods = [kept] ∧
          kept.JoinsTables lopsidedVisible lopsidedInvisible := by
  have entered :
      (Atlas.enterBytes {} lopsided none true).1 = .ok (some "c.T") := by
    decide +kernel
  obtain ⟨parts, node, laidOut, installed, -, methods⟩ :=
    first_visit_joins_tables [] decode_lopsided rfl none true entered
  rw [layout_lopsided, Except.ok.injEq] at laidOut
  subst laidOut
  have retained :
      (lopsidedDecl.methods.zip lopsidedLayout.methods).filter
          (fun (method, _) =>
            ({} : Settings).looksInto lopsidedDecl && method.isRetained {}) =
        lopsidedDecl.methods.zip lopsidedLayout.methods := by
    with_unfolding_all rfl
  replace methods := retained ▸ methods
  obtain ⟨kept, rest, joins, others, kind⟩ :=
    List.forall₂_cons_left_iff.mp methods
  cases others
  exact ⟨entered, node, kept, installed, kind,
    joins _ _ (holdTables_lopsided _ (List.mem_singleton_self _))⟩

theorem lopsided_not_apart :
    ∃ node kept,
      layout lopsided = .ok lopsidedLayout ∧
        (∀ attributes ∈ lopsidedLayout.methods,
          HoldTables lopsidedLayout.pool attributes (some lopsidedVisible)
            (some lopsidedInvisible)) ∧
        (Atlas.enterBytes {} lopsided none true).2.store.visitedNode? "c.T" =
          some node ∧
        node.methods = [kept] ∧
        ¬ kept.CarriesApart lopsidedVisible lopsidedInvisible := by
  have counts :
      ((Atlas.enterBytes {} lopsided none true).2.store.visitedNode?
        "c.T").map (fun node => node.methods.map fun method =>
          method.parameters.map (·.annotations.length)) =
        some [[1, 1]] := by
    decide +kernel
  obtain ⟨node, installed, methods⟩ := Option.map_eq_some_iff.mp counts
  obtain ⟨kept, rest, kind, one, nothing⟩ := List.map_eq_cons_iff.mp methods
  rw [List.map_eq_nil_iff] at nothing
  subst nothing
  obtain ⟨first, others, shape, single, -⟩ := List.map_eq_cons_iff.mp one
  refine ⟨node, kept, layout_lopsided, holdTables_lopsided, installed, kind,
    fun apart => ?_⟩
  -- By their own ends, neither table has an annotation for the first parameter.
  have count : kept.parameters.length = 2 := by
    simpa using congrArg List.length one
  have carries := apart 0 first (by rw [shape]; rfl)
  rw [count] at carries
  exact absurd (single.symm.trans carries.length_eq) (by decide)

end Session

end TypeAtlas
