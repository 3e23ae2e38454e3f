import TypeAtlas.Graph.Store
import TypeAtlas.Signature.Scanner

namespace TypeAtlas

/-!
# Resolving signatures

The events of a signature are turned into generic types by a small stack
machine. Every class type that is met is mentioned in the store on the spot, so
a type named only as an argument has an entry too. The root type becomes no
node: whatever is attached to it is dropped, although types inside its
arguments are still mentioned.

A fault in the signature gives no result. The types that were met before it
stay mentioned.
-/

namespace Resolver

/-- What the next complete type is for. -/
inductive Position where
  | unset
  | bound
  | superclass
  | interface
  | parameter
  | result
  | thrown
  | field
  deriving Repr, DecidableEq

/-- A class type that is still open. -/
inductive Frame where
  | type (generic : Generic)
  /-- The root type, which becomes no node. -/
  | skipped
  deriving Repr

end Resolver

/-- The machine between two events. -/
structure Resolver where
  store : Store
  /-- The type parameters of the declaring type. -/
  inherited : Formals := []
  formals : Formals := []
  pending : Option String := none
  position : Resolver.Position := .unset
  stack : List Resolver.Frame := []
  dimensions : Nat := 0
  superclass : Option Generic := none
  interfaces : List Generic := []
  parameters : List (Option Generic) := []
  result : Option Generic := none
  thrown : List Generic := []
  field : Option Generic := none
  deriving Repr

namespace Resolver

/-- Turn to a new position. Only bounds keep the type parameter at hand. -/
def turnTo
    (resolver : Resolver)
    (position : Position) :
    Resolver :=
  { resolver with
    position := position
    dimensions := 0
    pending := if position = .bound then resolver.pending else none }

/-- The category an outermost class type is mentioned as. -/
def hint? (resolver : Resolver) : Option Category :=
  match resolver.stack, resolver.position with
  | [], .superclass => some .classType
  | [], .interface => some .interfaceType
  | _, _ => none

/-- A use of a type variable: own parameters first, then inherited ones. -/
def lookupFormal
    (resolver : Resolver)
    (name : String) :
    Generic :=
  match resolver.formals.find? name <|> resolver.inherited.find? name with
  | some formal => formal.useSite
  | none => Generic.ofFormal name

/-- Hand an outermost type to the current position. -/
def place
    (resolver : Resolver)
    (generic : Generic) :
    Resolver :=
  match resolver.position with
  | .unset => resolver
  | .bound =>
      match resolver.pending with
      | some name =>
          { resolver with formals := resolver.formals.bind name generic }
      | none => resolver
  | .superclass => { resolver with superclass := some generic }
  | .interface =>
      { resolver with interfaces := resolver.interfaces ++ [generic] }
  | .parameter =>
      if resolver.parameters.isEmpty then
        resolver
      else
        { resolver with
          parameters := resolver.parameters.dropLast ++ [some generic] }
  | .result => { resolver with result := some generic }
  | .thrown => { resolver with thrown := resolver.thrown ++ [generic] }
  | .field => { resolver with field := some generic }

/-- Hand a complete type to the class type around it, or to the position. -/
def attach
    (resolver : Resolver)
    (generic : Generic) :
    Resolver :=
  match resolver.stack with
  | .type parent :: rest =>
      { resolver with stack := .type (parent.addArgument generic) :: rest }
  | .skipped :: _ => resolver
  | [] => resolver.place generic

/-- Take in one event. -/
def step
    (resolver : Resolver) :
    Signature.Event → Resolver
  | .formal name =>
      { resolver with
        pending := some name
        formals := resolver.formals.insertNew name (Generic.ofFormal name) }
  | .classBound => resolver.turnTo .bound
  | .interfaceBound => resolver.turnTo .bound
  | .superclass => resolver.turnTo .superclass
  | .interface => resolver.turnTo .interface
  | .parameter =>
      let turned := resolver.turnTo .parameter
      { turned with parameters := turned.parameters ++ [none] }
  | .result => resolver.turnTo .result
  | .thrown => resolver.turnTo .thrown
  | .base _ => { resolver with dimensions := 0 }
  | .typeVariable name =>
      let generic :=
        (resolver.lookupFormal name).withDimensions resolver.dimensions
      { resolver with dimensions := 0 }.attach generic
  | .array => { resolver with dimensions := resolver.dimensions + 1 }
  | .classType name =>
      if name = TypeName.root then
        { resolver with dimensions := 0, stack := .skipped :: resolver.stack }
      else
        let generic :=
          (Generic.ofReference (Reference.toType name)).withDimensions
            resolver.dimensions
        { resolver with
          dimensions := 0
          store := resolver.store.mention name resolver.hint?
          stack := .type generic :: resolver.stack }
  | .nested name =>
      match resolver.stack with
      | .type outer :: rest =>
          match outer.typeName? with
          | some outerName =>
              let inner := outerName ++ "$" ++ name
              { resolver with
                store := resolver.store.mention inner none
                stack := .type (outer.rebind (Reference.toType inner)) :: rest }
          | none => resolver
      | _ => resolver
  | .anyArgument => resolver
  | .argument _ => resolver
  | .close =>
      match resolver.stack with
      | .type generic :: rest => { resolver with stack := rest }.attach generic
      | .skipped :: rest => { resolver with stack := rest }
      | [] => resolver

/-- Take in a whole signature; its result counts only if it has no fault. -/
def run
    (start : Resolver)
    (trace : Signature.Trace) :
    Store × Option Resolver :=
  let final := trace.events.foldl step start
  match trace.malformed? with
  | none => (final.store, some final)
  | some _ => (final.store, none)

end Resolver

/-- What a class signature says. -/
structure ClassGenerics where
  superclass : Option Generic
  interfaces : List Generic
  formals : Formals
  deriving Repr

/--
What a method signature says. A parameter it has no generic type for, because
it is primitive or of the root type, is `none`.
-/
structure MethodGenerics where
  parameters : List (Option Generic)
  result : Option Generic
  thrown : List Generic
  deriving Repr

namespace Filing

/-- Resolve the signature of a class. -/
def resolveClass (signature : String) : Filing (Option ClassGenerics) := do
  let (store, resolved) :=
    Resolver.run { store := ← get } (Signature.traceClass signature)
  set store
  return resolved.map fun final =>
    ⟨final.superclass, final.interfaces, final.formals⟩

/-- Resolve the signature of a method, within a type of given parameters. -/
def resolveMethod
    (formals : Formals)
    (signature : String) :
    Filing (Option MethodGenerics) := do
  let (store, resolved) :=
    Resolver.run { store := ← get, inherited := formals }
      (Signature.traceMethod signature)
  set store
  return resolved.map fun final =>
    ⟨final.parameters, final.result, final.thrown⟩

/-- Resolve the signature of a field, within a type of given parameters. -/
def resolveField
    (formals : Formals)
    (signature : String) :
    Filing (Option Generic) := do
  let (store, resolved) :=
    Resolver.run
      { store := ← get, inherited := formals, position := .field }
      (Signature.traceField signature)
  set store
  return resolved.bind (·.field)

end Filing

end TypeAtlas
