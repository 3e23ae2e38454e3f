import TypeAtlas.Entering.Resolve
import TypeAtlas.Proofs.Signature.Grammar

namespace TypeAtlas

/-!
# What signatures mean

What a signature means is said by recursion on its tree: a type becomes a
generic type or nothing, and the names in the tree are those that get an entry.
A type parameter takes its shape from one of its bounds, the first that names a
type. Each bound is read where the bounds before it are known, those of type
parameters further left among them.
-/

namespace Signature

/-! ## The meaning of a tree -/

/-- The type parameters that a type can refer to. -/
structure Scope where
  own : Formals
  inherited : Formals

/--
A use of a type variable: its name and the type that bounds it, as far as that
is known, without arguments. Own type parameters hide inherited ones.
-/
def Scope.use
    (scope : Scope)
    (name : String)
    (dimensions : Nat) :
    Generic :=
  match scope.own.lookup name <|> scope.inherited.lookup name with
  | some known => ⟨known.type, known.formal, [], dimensions⟩
  | none => ⟨none, some name, [], dimensions⟩

mutual

/-- The generic type, if there is one; primitive types have none. -/
def TypeTree.translate
    (scope : Scope)
    (dimensions : Nat) :
    TypeTree → Option Generic
  | .base _ => none
  | .reference type => type.translate scope dimensions

def ReferenceTree.translate
    (scope : Scope)
    (dimensions : Nat) :
    ReferenceTree → Option Generic
  | .classType type => type.translate scope dimensions
  | .typeVariable name =>
      some (scope.use name.name dimensions)
  | .array element => element.translate scope (dimensions + 1)

/-- The root type becomes nothing, nor do the types nested in it. -/
def ClassTree.translate
    (scope : Scope)
    (dimensions : Nat) :
    ClassTree → Option Generic
  | .named name arguments segments =>
      let outer := TypeName.ofInternal name.name
      if outer = "java.lang.Object" then
        none
      else
        let innermost := segments.innermost scope outer
          (arguments.translate scope)
        some ⟨some ⟨innermost.1, true⟩, none, innermost.2, dimensions⟩

def BracketTree.translate (scope : Scope) : BracketTree → List Generic
  | .omitted => []
  | .given arguments => arguments.translate scope

/-- Arguments that become nothing are left out. -/
def ArgumentTrees.translate (scope : Scope) : ArgumentTrees → List Generic
  | .nil => []
  | .any rest => rest.translate scope
  | .bounded _ type rest =>
      (type.translate scope 0).toList ++ rest.translate scope

/-- The innermost class by its full name, with its own arguments. -/
def SegmentTrees.innermost
    (scope : Scope)
    (outer : TypeName)
    (arguments : List Generic) :
    SegmentTrees → TypeName × List Generic
  | .nil => (outer, arguments)
  | .nested name arguments rest =>
      rest.innermost scope (outer ++ "$" ++ name.name)
        (arguments.translate scope)

end

/-! ## The names in a tree -/

/-- Names with the category each of them is mentioned as, if that is known. -/
abbrev Mentions :=
  List (TypeName × Option Category)

mutual

def TypeTree.mentions (hint : Option Category) : TypeTree → Mentions
  | .base _ => []
  | .reference type => type.mentions hint

def ReferenceTree.mentions (hint : Option Category) : ReferenceTree → Mentions
  | .classType type => type.mentions hint
  | .typeVariable _ => []
  | .array element => element.mentions hint

/-- The root type is not mentioned, the types in its arguments are. -/
def ClassTree.mentions (hint : Option Category) : ClassTree → Mentions
  | .named name arguments segments =>
      let outer := TypeName.ofInternal name.name
      if outer = "java.lang.Object" then
        arguments.mentions ++ segments.mentions none
      else
        (outer, hint) :: arguments.mentions ++ segments.mentions (some outer)

def BracketTree.mentions : BracketTree → Mentions
  | .omitted => []
  | .given arguments => arguments.mentions

def ArgumentTrees.mentions : ArgumentTrees → Mentions
  | .nil => []
  | .any rest => rest.mentions
  | .bounded _ type rest => type.mentions none ++ rest.mentions

/-- Classes nested in the root type are not mentioned either. -/
def SegmentTrees.mentions (outer : Option TypeName) : SegmentTrees → Mentions
  | .nil => []
  | .nested name arguments rest =>
      let inner := outer.map (· ++ "$" ++ name.name)
      inner.toList.map (·, none) ++ arguments.mentions ++ rest.mentions inner

end

/-! ## The meaning of type parameters -/

/--
Of the bounds of a type parameter, the one it is shaped by: the first that
names a type. As long as none does, it is the last.
-/
def shaping? (bounds : List Generic) : Option Generic :=
  bounds.find? (·.type.isSome) <|> bounds.getLast?

/-- A type parameter with the shape of a bound, or bare if it has no bound. -/
def parameterOf
    (name : String)
    (bounds : List Generic) :
    Generic :=
  match shaping? bounds with
  | some bound => ⟨bound.type, some name, bound.arguments, bound.dimensions⟩
  | none => ⟨none, some name, [], 0⟩

/--
Declarations of type parameters: a name with what its bounds become. A name
that is declared again stands there again.
-/
abbrev Declared :=
  List (String × List Generic)

namespace Declared

/-- All bounds that are given under a name. -/
def boundsOf
    (declared : Declared)
    (name : String) :
    List Generic :=
  (declared.filter (·.1 == name)).flatMap (·.2)

/-- Every name where it is declared first, with all bounds that it is given. -/
def formals (declared : Declared) : Formals :=
  (declared.map (·.1)).eraseDups.map fun name =>
    (name, parameterOf name (declared.boundsOf name))

end Declared

namespace FormalTree

/-- The class bound and the interface bounds, in order. -/
def bounds (formal : FormalTree) : List ReferenceTree :=
  formal.classBound.toList ++ formal.interfaceBounds

/-- What a bound becomes is put behind what those before it have become. -/
def translateBound
    (inherited : Formals)
    (declared : Declared)
    (name : String)
    (before : List Generic)
    (bound : ReferenceTree) :
    List Generic :=
  let known : Declared := declared ++ [(name, before)]
  before ++ (bound.translate ⟨known.formals, inherited⟩ 0).toList

/-- Declare a type parameter behind others. -/
def declare
    (inherited : Formals)
    (declared : Declared)
    (formal : FormalTree) :
    Declared :=
  let name := formal.name.name
  declared ++
    [(name, formal.bounds.foldl (translateBound inherited declared name) [])]

def mentions (formal : FormalTree) : Mentions :=
  formal.bounds.flatMap (·.mentions none)

end FormalTree

namespace FormalTrees

def translate
    (trees : FormalTrees)
    (inherited : Formals) :
    Formals :=
  Declared.formals (trees.all.foldl (FormalTree.declare inherited) [])

def mentions (trees : FormalTrees) : Mentions :=
  trees.all.flatMap (·.mentions)

end FormalTrees

/-! ## The meaning of a signature -/

namespace ClassSignature

def translate (tree : ClassSignature) : ClassGenerics :=
  let formals := tree.formals.translate []
  let scope : Scope := ⟨formals, []⟩
  ⟨tree.superclass.translate scope 0,
    tree.interfaces.filterMap (·.translate scope 0), formals⟩

def mentions (tree : ClassSignature) : Mentions :=
  tree.formals.mentions ++
    tree.superclass.mentions (some .classType) ++
    tree.interfaces.flatMap (·.mentions (some .interfaceType))

end ClassSignature

namespace MethodSignature

/-- Every parameter keeps its place, those that become nothing included. -/
def translate
    (tree : MethodSignature)
    (inherited : Formals) :
    MethodGenerics :=
  let scope : Scope := ⟨tree.formals.translate inherited, inherited⟩
  ⟨tree.parameters.map (·.translate scope 0),
    tree.result.bind (·.translate scope 0),
    tree.thrown.filterMap (·.translate scope 0)⟩

def mentions (tree : MethodSignature) : Mentions :=
  tree.formals.mentions ++
    tree.parameters.flatMap (·.mentions none) ++
    (tree.result.map (·.mentions none)).getD [] ++
    tree.thrown.flatMap (·.mentions none)

end MethodSignature

end Signature

end TypeAtlas
