import TypeAtlas.Category

namespace TypeAtlas

/-!
# Problems

What can be inconsistent about the declarations entered into an atlas. No
problem ends the work: the declaration or member at fault is passed over and
the problem is kept.
-/

/-- How far the entering of a declaration has come. -/
inductive Stage where
  | start
  | header
  | members
  | ended
  deriving Repr, DecidableEq

/-- The word for a stage in messages. -/
def Stage.word : Stage → String
  | start => "Start"
  | header => "Header"
  | members => "Members"
  | ended => "Ended"

/-- A step of entering a declaration. -/
inductive Operation where
  | header
  | annotate
  | field
  | method
  | finish
  deriving Repr, DecidableEq

/-- The word for a step in messages. -/
def Operation.word : Operation → String
  | header => "visit_header"
  | annotate => "visit_annotation"
  | field => "visit_field"
  | method => "visit_method"
  | finish => "visit_end"

/-- An inconsistency between declarations, or a step out of turn. -/
inductive Problem where
  | categoryConflict (name : TypeName) (existing requested : Category)
  | cyclicInheritance (name parent : TypeName)
  | unsupportedMember (owner : TypeName) (member : String)
  | outOfTurn (operation : Operation) (stage : Stage)
  | implicitRoot
  | malformedDescriptor (owner : TypeName) (member descriptor : String)
  deriving Repr, DecidableEq

namespace Problem

/-- Whether a step was taken that was not open. -/
def isMisuse : Problem → Bool
  | outOfTurn .. => true
  | implicitRoot => true
  | _ => false

/-- The wording of a problem. -/
def message : Problem → String
  | categoryConflict name existing requested =>
      let old := existing.word
      let new := requested.word
      s!"type {name} is already modeled as {old}, cannot redefine it as {new}"
  | cyclicInheritance name parent =>
      s!"{name} cannot extend {parent}: {parent} already inherits from {name}"
  | unsupportedMember owner member =>
      s!"annotation type {owner} cannot declare field {member}"
  | outOfTurn operation stage =>
      let step := operation.word
      let state := stage.word
      s!"unit visitor misuse: {step} called in state {state}"
  | implicitRoot =>
      let root := TypeName.root
      s!"unit visitor misuse: {root} is the implicit root and is not modeled"
  | malformedDescriptor owner member descriptor =>
      s!"malformed descriptor '{descriptor}' on {owner}.{member}"

end Problem

end TypeAtlas
