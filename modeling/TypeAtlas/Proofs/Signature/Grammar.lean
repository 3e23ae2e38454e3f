import Mathlib.Data.List.Chain
import TypeAtlas.Signature.Scanner

namespace TypeAtlas.Signature

/-!
# The grammar of signatures

A signature is a tree. This module has the trees, the text that each of them
is written as, and the events that reading the text reports, which visit the
tree from left to right. Names carry the proof that they are not blank and do
not run into the character that ends them, and rows of type parameters carry
the proof that none of them is taken for something else.
-/

/-! ## Trees -/

/-- A name that is not blank and has none of the given characters. -/
structure Identifier (stops : List Char) where
  chars : List Char
  nonempty : chars ≠ []
  free : ∀ c ∈ chars, c ∉ stops
  deriving DecidableEq

namespace Identifier

def name (identifier : Identifier stops) : String :=
  String.ofList identifier.chars

def first (identifier : Identifier stops) : Char :=
  identifier.chars.head identifier.nonempty

end Identifier

/-- What is written before an argument. -/
def Wildcard.chars : Wildcard → List Char
  | upper => ['+']
  | lower => ['-']
  | exact => []

mutual

/-- A primitive type or a reference type. -/
inductive TypeTree where
  | base (type : BaseType)
  | reference (type : ReferenceTree)

/-- A class type, a type variable or an array. -/
inductive ReferenceTree where
  | classType (type : ClassTree)
  | typeVariable (name : Identifier [';'])
  | array (element : TypeTree)

/-- A class by name with its arguments and the classes nested in it. -/
inductive ClassTree where
  | named
      (name : Identifier classStops)
      (arguments : BracketTree)
      (segments : SegmentTrees)

/-- Arguments in brackets, or neither arguments nor brackets. -/
inductive BracketTree where
  | omitted
  | given (arguments : ArgumentTrees)

/-- A row of arguments. -/
inductive ArgumentTrees where
  | nil
  | any (rest : ArgumentTrees)
  | bounded
      (wildcard : Wildcard)
      (type : ReferenceTree)
      (rest : ArgumentTrees)

/-- A row of classes, each nested in the one before. -/
inductive SegmentTrees where
  | nil
  | nested
      (name : Identifier classStops)
      (arguments : BracketTree)
      (rest : SegmentTrees)

end

/-- A type parameter with its bounds. -/
structure FormalTree where
  name : Identifier [':']
  classBound : Option ReferenceTree
  interfaceBounds : List ReferenceTree

namespace FormalTree

/-- The first characters of reference types. -/
def boundStarts : List Char :=
  ['L', 'T', '[']

/--
Whether a type parameter can be told from what is before it: from the closing
bracket, and from a bound if the one before has none.
-/
def MayFollow (previous next : FormalTree) : Prop :=
  next.name.first ≠ '>' ∧
    (previous.classBound = none → previous.interfaceBounds = [] →
      next.name.first ∉ boundStarts)

end FormalTree

/-- The type parameters of a signature, if there are any. -/
structure FormalTrees where
  all : List FormalTree
  apart : all.IsChain FormalTree.MayFollow

structure ClassSignature where
  formals : FormalTrees
  superclass : ClassTree
  interfaces : List ClassTree

/-- A method signature; a result of `none` is written as `V`. -/
structure MethodSignature where
  formals : FormalTrees
  parameters : List TypeTree
  result : Option TypeTree
  thrown : List ReferenceTree

/-! ## Texts -/

mutual

def TypeTree.chars : TypeTree → List Char
  | .base type => [type.tag]
  | .reference type => type.chars

def ReferenceTree.chars : ReferenceTree → List Char
  | .classType type => type.chars
  | .typeVariable name => 'T' :: name.chars ++ [';']
  | .array element => '[' :: element.chars

def ClassTree.chars : ClassTree → List Char
  | .named name arguments segments =>
      'L' :: name.chars ++ arguments.chars ++ segments.chars ++ [';']

def BracketTree.chars : BracketTree → List Char
  | .omitted => []
  | .given arguments => '<' :: arguments.chars ++ ['>']

def ArgumentTrees.chars : ArgumentTrees → List Char
  | .nil => []
  | .any rest => '*' :: rest.chars
  | .bounded wildcard type rest => wildcard.chars ++ type.chars ++ rest.chars

def SegmentTrees.chars : SegmentTrees → List Char
  | .nil => []
  | .nested name arguments rest =>
      '.' :: name.chars ++ arguments.chars ++ rest.chars

end

def FormalTree.boundChars (formal : FormalTree) : List Char :=
  (formal.classBound.map (·.chars)).getD [] ++
    formal.interfaceBounds.flatMap (':' :: ·.chars)

def FormalTree.chars (formal : FormalTree) : List Char :=
  formal.name.chars ++ ':' :: formal.boundChars

def FormalTrees.chars (formals : FormalTrees) : List Char :=
  if formals.all = [] then
    []
  else
    '<' :: formals.all.flatMap (·.chars) ++ ['>']

def ClassSignature.chars (signature : ClassSignature) : List Char :=
  signature.formals.chars ++ signature.superclass.chars ++
    signature.interfaces.flatMap (·.chars)

def MethodSignature.chars (signature : MethodSignature) : List Char :=
  signature.formals.chars ++
    '(' :: signature.parameters.flatMap (·.chars) ++
    ')' :: (signature.result.map (·.chars)).getD ['V'] ++
    signature.thrown.flatMap ('^' :: ·.chars)

/-! ## Events -/

mutual

def TypeTree.events : TypeTree → List Event
  | .base type => [.base type.tag]
  | .reference type => type.events

def ReferenceTree.events : ReferenceTree → List Event
  | .classType type => type.events
  | .typeVariable name => [.typeVariable name.name]
  | .array element => .array :: element.events

def ClassTree.events : ClassTree → List Event
  | .named name arguments segments =>
      .classType (TypeName.ofInternal name.name) ::
        arguments.events ++ segments.events ++ [.close]

def BracketTree.events : BracketTree → List Event
  | .omitted => []
  | .given arguments => arguments.events

def ArgumentTrees.events : ArgumentTrees → List Event
  | .nil => []
  | .any rest => .anyArgument :: rest.events
  | .bounded wildcard type rest =>
      .argument wildcard :: type.events ++ rest.events

def SegmentTrees.events : SegmentTrees → List Event
  | .nil => []
  | .nested name arguments rest =>
      .nested name.name :: arguments.events ++ rest.events

end

def FormalTree.events (formal : FormalTree) : List Event :=
  .formal formal.name.name ::
    ((formal.classBound.map (.classBound :: ·.events)).getD [] ++
      formal.interfaceBounds.flatMap (.interfaceBound :: ·.events))

def FormalTrees.events (formals : FormalTrees) : List Event :=
  formals.all.flatMap (·.events)

def ClassSignature.events (signature : ClassSignature) : List Event :=
  signature.formals.events ++
    .superclass :: signature.superclass.events ++
    signature.interfaces.flatMap (.interface :: ·.events)

def MethodSignature.events (signature : MethodSignature) : List Event :=
  signature.formals.events ++
    signature.parameters.flatMap (.parameter :: ·.events) ++
    .result :: (signature.result.map (·.events)).getD [.base 'V'] ++
    signature.thrown.flatMap (.thrown :: ·.events)

/-! ## Every class type is closed once -/

/--
The class types that are open after events, `none` if one was closed that was
not open.
-/
def openTypes : Nat → List Event → Option Nat
  | depth, [] => some depth
  | depth, .classType _ :: events => openTypes (depth + 1) events
  | 0, .close :: _ => none
  | depth + 1, .close :: events => openTypes depth events
  | depth, _ :: events => openTypes depth events

mutual

/-- The events of a tree close what they open, and nothing else. -/
theorem TypeTree.openTypes_events
    (tree : TypeTree)
    (depth : Nat)
    (events : List Event) :
    openTypes depth (tree.events ++ events) = openTypes depth events := by
  match tree with
  | .base type =>
      simp [TypeTree.events, openTypes]
  | .reference type =>
      simp only [TypeTree.events]
      exact type.openTypes_events depth events

/-- The events of a reference type close all types that they open. -/
theorem ReferenceTree.openTypes_events
    (tree : ReferenceTree)
    (depth : Nat)
    (events : List Event) :
    openTypes depth (tree.events ++ events) = openTypes depth events := by
  match tree with
  | .classType type =>
      simp only [ReferenceTree.events]
      exact type.openTypes_events depth events
  | .typeVariable name =>
      simp [ReferenceTree.events, openTypes]
  | .array element =>
      simp only [ReferenceTree.events, List.cons_append, openTypes]
      exact element.openTypes_events depth events

/-- So do the events of a class type. -/
theorem ClassTree.openTypes_events
    (tree : ClassTree)
    (depth : Nat)
    (events : List Event) :
    openTypes depth (tree.events ++ events) = openTypes depth events := by
  match tree with
  | .named name arguments segments =>
      simp only [ClassTree.events, List.cons_append, List.append_assoc,
        openTypes, List.nil_append]
      rw [arguments.openTypes_events, segments.openTypes_events]
      simp only [openTypes]

/-- So do the events of an argument in brackets. -/
theorem BracketTree.openTypes_events
    (tree : BracketTree)
    (depth : Nat)
    (events : List Event) :
    openTypes depth (tree.events ++ events) = openTypes depth events := by
  match tree with
  | .omitted =>
      simp [BracketTree.events]
  | .given arguments =>
      simp only [BracketTree.events]
      exact arguments.openTypes_events depth events

/-- So do the events of type arguments. -/
theorem ArgumentTrees.openTypes_events
    (tree : ArgumentTrees)
    (depth : Nat)
    (events : List Event) :
    openTypes depth (tree.events ++ events) = openTypes depth events := by
  match tree with
  | .nil =>
      simp [ArgumentTrees.events]
  | .any more =>
      simp only [ArgumentTrees.events, List.cons_append, openTypes]
      exact more.openTypes_events depth events
  | .bounded wildcard type more =>
      simp only [ArgumentTrees.events, List.cons_append, List.append_assoc,
        openTypes]
      rw [type.openTypes_events, more.openTypes_events]

/-- So do the events of nested segments. -/
theorem SegmentTrees.openTypes_events
    (tree : SegmentTrees)
    (depth : Nat)
    (events : List Event) :
    openTypes depth (tree.events ++ events) = openTypes depth events := by
  match tree with
  | .nil =>
      simp [SegmentTrees.events]
  | .nested name arguments more =>
      simp only [SegmentTrees.events, List.cons_append, List.append_assoc,
        openTypes]
      rw [arguments.openTypes_events, more.openTypes_events]

end

/-- A row of pieces that close what they open. -/
theorem openTypes_flatMap
    {events : τ → List Event}
    (closed :
      ∀ piece depth rest,
        openTypes depth (events piece ++ rest) = openTypes depth rest)
    (pieces : List τ)
    (depth : Nat)
    (rest : List Event) :
    openTypes depth (pieces.flatMap events ++ rest) = openTypes depth rest := by
  induction pieces with
  | nil =>
      rfl
  | cons piece pieces inductionHypothesis =>
      rw [List.flatMap_cons, List.append_assoc, closed, inductionHypothesis]

/-- The events of a formal close all types that they open. -/
theorem FormalTree.openTypes_events
    (formal : FormalTree)
    (depth : Nat)
    (rest : List Event) :
    openTypes depth (formal.events ++ rest) = openTypes depth rest := by
  simp only [events, List.cons_append, List.append_assoc, openTypes]
  cases formal.classBound with
  | none =>
      exact openTypes_flatMap
        (fun type => type.openTypes_events) formal.interfaceBounds depth rest
  | some type =>
      simp only [Option.map_some, Option.getD_some, List.cons_append,
        openTypes]
      rw [type.openTypes_events]
      exact openTypes_flatMap
        (fun type => type.openTypes_events) formal.interfaceBounds depth rest

theorem FormalTrees.openTypes_events
    (trees : FormalTrees)
    (depth : Nat)
    (rest : List Event) :
    openTypes depth (trees.events ++ rest) = openTypes depth rest :=
  openTypes_flatMap (fun formal => formal.openTypes_events)
    trees.all depth rest

/-- After a class signature no type is open. -/
theorem ClassSignature.openTypes_events
    (tree : ClassSignature) :
    openTypes 0 tree.events = some 0 := by
  have interfaces :
      openTypes 0 (tree.interfaces.flatMap (.interface :: ·.events) ++ []) =
        some 0 :=
    openTypes_flatMap (fun type => type.openTypes_events) tree.interfaces 0 []
  rw [List.append_nil] at interfaces
  simp only [events, List.append_assoc, List.cons_append]
  rw [tree.formals.openTypes_events]
  simp only [openTypes]
  rw [tree.superclass.openTypes_events, interfaces]

/-- After a method signature no type is open. -/
theorem MethodSignature.openTypes_events
    (tree : MethodSignature) :
    openTypes 0 tree.events = some 0 := by
  have parameters : ∀ rest,
      openTypes 0 (tree.parameters.flatMap (.parameter :: ·.events) ++ rest) =
        openTypes 0 rest :=
    openTypes_flatMap (fun type => type.openTypes_events) tree.parameters 0
  have thrown :
      openTypes 0 (tree.thrown.flatMap (.thrown :: ·.events) ++ []) = some 0 :=
    openTypes_flatMap (fun type => type.openTypes_events) tree.thrown 0 []
  rw [List.append_nil] at thrown
  simp only [events, List.append_assoc, List.cons_append]
  rw [tree.formals.openTypes_events, parameters]
  simp only [openTypes]
  cases tree.result with
  | none =>
      simpa [openTypes] using thrown
  | some type =>
      rw [Option.map_some, Option.getD_some, type.openTypes_events, thrown]

end TypeAtlas.Signature
