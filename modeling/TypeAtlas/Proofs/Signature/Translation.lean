import Mathlib.Data.List.Basic
import TypeAtlas.Proofs.Signature.Meaning
import TypeAtlas.Proofs.Signature.Recognition

namespace TypeAtlas

/-!
# Resolving translates trees

The stack machine reads what a signature means off a flat row of events, with
nothing but a stack and a few registers to tell where it is. Inside a type it
works on the class type that was opened last, and at the end of the type it is
back where it was, but for the type it hands on. Between types nothing is left
of it but what it has collected. So it computes the recursion on the tree.
-/

/-! ## The machine inside a type -/

/-- Mention names one after another. -/
def Store.mentionAll
    (store : Store)
    (names : Signature.Mentions) :
    Store :=
  names.foldl (fun store (name, hint) => store.mention name hint) store

/-- Names are mentioned in their order, however they are grouped. -/
theorem Store.mentionAll_append
    (store : Store)
    (first second : Signature.Mentions) :
    store.mentionAll (first ++ second) =
      (store.mentionAll first).mentionAll second := by
  simp [mentionAll]

namespace Resolver

/-- The type parameters that can be referred to. -/
def scope (resolver : Resolver) : Signature.Scope :=
  ⟨resolver.formals, resolver.inherited⟩

/-- Mention names. -/
def meet
    (resolver : Resolver)
    (names : Signature.Mentions) :
    Resolver :=
  { resolver with store := resolver.store.mentionAll names }

/-- Inside a class type that is still open. -/
def inside
    (resolver : Resolver)
    (frame : Frame)
    (stack : List Frame) :
    Resolver :=
  { resolver with stack := frame :: stack, dimensions := 0 }

/-- Add arguments to a class type; the root type takes none. -/
def Frame.take
    (arguments : List Generic) :
    Frame → Frame
  | .type generic =>
      .type { generic with arguments := generic.arguments ++ arguments }
  | .skipped => .skipped

/-- The end of a type: names are mentioned, and the type is handed on. -/
def finish
    (resolver : Resolver)
    (names : Signature.Mentions)
    (translated : Option Generic) :
    Resolver :=
  let ended := { resolver.meet names with dimensions := 0 }
  match translated with
  | some generic => ended.attach generic
  | none => ended

/-- A machine that meets names meets them in their order. -/
theorem meet_append
    (resolver : Resolver)
    (first second : Signature.Mentions) :
    resolver.meet (first ++ second) = (resolver.meet first).meet second := by
  simp [meet, Store.mentionAll_append]

theorem Frame.take_nil
    (frame : Frame) :
    frame.take [] = frame := by
  cases frame with
  | type generic =>
      obtain ⟨_, _, _, _⟩ := generic
      simp [take]
  | skipped =>
      rfl

/-- Arguments are taken in their order. -/
theorem Frame.take_append
    (first second : List Generic)
    (frame : Frame) :
    frame.take (first ++ second) = (frame.take first).take second := by
  cases frame <;> simp [take]

/-- Names that are met change no type parameters. -/
theorem scope_meet
    (resolver : Resolver)
    (names : Signature.Mentions) :
    (resolver.meet names).scope = resolver.scope :=
  rfl

/-- A use of a type variable is looked up as it is meant. -/
theorem lookupFormal_eq
    (resolver : Resolver)
    (name : String)
    (dimensions : Nat) :
    (resolver.lookupFormal name).withDimensions dimensions =
      resolver.scope.use name dimensions := by
  simp only [lookupFormal, Signature.Scope.use, scope, Formals.find?]
  cases resolver.formals.lookup name <|> resolver.inherited.lookup name <;> rfl

/-- The beginning of a class type. -/
theorem step_classType
    (resolver : Resolver)
    {name : TypeName}
    (named : name ≠ "java.lang.Object") :
    resolver.step (.classType name) =
      (resolver.meet [(name, resolver.hint?)]).inside
        (.type ⟨some ⟨name, true⟩, none, [], resolver.dimensions⟩)
        resolver.stack := by
  have other : name ≠ TypeName.root :=
    named
  have tracked : Reference.toType name = ⟨name, true⟩ := by
    simp [Reference.toType, other]
  rw [step, if_neg other, tracked]
  rfl

/-- The root type is passed over, but its end is waited for. -/
theorem step_classType_root
    (resolver : Resolver) :
    resolver.step (.classType "java.lang.Object") =
      resolver.inside .skipped resolver.stack := by
  have isRoot : "java.lang.Object" = TypeName.root :=
    rfl
  rw [step, if_pos isRoot]
  rfl

/-- A nested class is not the root type, whose name has no dollar. -/
theorem toType_nested
    (outer : TypeName)
    (name : String) :
    Reference.toType (outer ++ "$" ++ name) = ⟨outer ++ "$" ++ name, true⟩ := by
  have other : outer ++ "$" ++ name ≠ TypeName.root := by
    intro same
    have dollar : '$' ∈ TypeName.root.toList := by
      rw [← same]
      simp
    exact absurd dollar (by decide)
  simp [Reference.toType, other]

/-- The beginning of a nested class type. -/
theorem step_nested
    (resolver : Resolver)
    (outer : TypeName)
    (arguments : List Generic)
    (dimensions : Nat)
    (stack : List Frame)
    (name : String) :
    (resolver.inside
        (.type ⟨some ⟨outer, true⟩, none, arguments, dimensions⟩) stack).step
          (.nested name) =
      (resolver.meet [(outer ++ "$" ++ name, none)]).inside
        (.type ⟨some ⟨outer ++ "$" ++ name, true⟩, none, [], dimensions⟩)
        stack := by
  rw [← toType_nested]
  rfl

/-- The end of a class type that becomes something. -/
theorem step_close_type
    (resolver : Resolver)
    (generic : Generic) :
    (resolver.inside (.type generic) resolver.stack).step .close =
      { resolver with dimensions := 0 }.attach generic :=
  rfl

/-- The end of a class type that becomes nothing. -/
theorem step_close_skipped
    (resolver : Resolver) :
    (resolver.inside .skipped resolver.stack).step .close =
      { resolver with dimensions := 0 } :=
  rfl

/-- An argument is added to the class type around it. -/
theorem finish_inside
    (resolver : Resolver)
    (frame : Frame)
    (stack : List Frame)
    (names : Signature.Mentions)
    (translated : Option Generic) :
    (resolver.inside frame stack).finish names translated =
      (resolver.meet names).inside (frame.take translated.toList) stack := by
  cases translated with
  | none =>
      rw [Option.toList_none, Frame.take_nil]
      rfl
  | some generic =>
      cases frame <;> rfl

end Resolver

namespace Signature

open Resolver (Frame)

mutual

/-- The machine hands on what a type becomes, and keeps nothing of it. -/
theorem TypeTree.foldl_step
    (tree : TypeTree)
    (resolver : Resolver) :
    tree.events.foldl Resolver.step resolver =
      resolver.finish (tree.mentions resolver.hint?)
        (tree.translate resolver.scope resolver.dimensions) := by
  match tree with
  | .base type =>
      simp only [TypeTree.events, TypeTree.mentions, TypeTree.translate]
      rfl
  | .reference type =>
      simp only [TypeTree.events, TypeTree.mentions, TypeTree.translate]
      exact type.foldl_step resolver

/-- A reference type is handed on as what it becomes. -/
theorem ReferenceTree.foldl_step
    (tree : ReferenceTree)
    (resolver : Resolver) :
    tree.events.foldl Resolver.step resolver =
      resolver.finish (tree.mentions resolver.hint?)
        (tree.translate resolver.scope resolver.dimensions) := by
  match tree with
  | .classType type =>
      simp only [ReferenceTree.events, ReferenceTree.mentions,
        ReferenceTree.translate]
      exact type.foldl_step resolver
  | .typeVariable name =>
      simp only [ReferenceTree.events, ReferenceTree.mentions,
        ReferenceTree.translate]
      rw [← resolver.lookupFormal_eq]
      rfl
  | .array element =>
      simp only [ReferenceTree.events, ReferenceTree.mentions,
        ReferenceTree.translate, List.foldl_cons]
      exact element.foldl_step _

/-- A class type is handed on as what it becomes. -/
theorem ClassTree.foldl_step
    (tree : ClassTree)
    (resolver : Resolver) :
    tree.events.foldl Resolver.step resolver =
      resolver.finish (tree.mentions resolver.hint?)
        (tree.translate resolver.scope resolver.dimensions) := by
  match tree with
  | .named name arguments segments =>
      simp only [ClassTree.events, List.cons_append, List.append_assoc,
        List.foldl_cons, List.foldl_append, List.foldl_nil]
      by_cases isRoot : TypeName.ofInternal name.name = "java.lang.Object"
      · rw [isRoot, Resolver.step_classType_root, arguments.foldl_step,
          Frame.take, segments.foldl_step_skipped]
        simp only [ClassTree.mentions, ClassTree.translate, isRoot,
          ↓reduceIte]
        rw [← Resolver.meet_append]
        exact Resolver.step_close_skipped (resolver.meet _)
      · rw [resolver.step_classType isRoot, arguments.foldl_step, Frame.take,
          List.nil_append, segments.foldl_step]
        simp only [ClassTree.mentions, ClassTree.translate, isRoot,
          ↓reduceIte, Resolver.scope_meet]
        rw [← Resolver.meet_append, ← Resolver.meet_append]
        exact Resolver.step_close_type (resolver.meet _) _

/-- The arguments in brackets are added to the class type around them. -/
theorem BracketTree.foldl_step
    (tree : BracketTree)
    (resolver : Resolver)
    (frame : Frame)
    (stack : List Frame) :
    tree.events.foldl Resolver.step (resolver.inside frame stack) =
      (resolver.meet tree.mentions).inside
        (frame.take (tree.translate resolver.scope)) stack := by
  match tree with
  | .omitted =>
      simp only [BracketTree.events, BracketTree.mentions,
        BracketTree.translate, Frame.take_nil]
      rfl
  | .given arguments =>
      simp only [BracketTree.events, BracketTree.mentions,
        BracketTree.translate]
      exact arguments.foldl_step resolver frame stack

/--
Arguments are added one after another, those that become nothing left out.
-/
theorem ArgumentTrees.foldl_step
    (tree : ArgumentTrees)
    (resolver : Resolver)
    (frame : Frame)
    (stack : List Frame) :
    tree.events.foldl Resolver.step (resolver.inside frame stack) =
      (resolver.meet tree.mentions).inside
        (frame.take (tree.translate resolver.scope)) stack := by
  match tree with
  | .nil =>
      simp only [ArgumentTrees.events, ArgumentTrees.mentions,
        ArgumentTrees.translate, Frame.take_nil]
      rfl
  | .any rest =>
      simp only [ArgumentTrees.events, ArgumentTrees.mentions,
        ArgumentTrees.translate, List.foldl_cons]
      exact rest.foldl_step resolver frame stack
  | .bounded wildcard type rest =>
      simp only [ArgumentTrees.events, ArgumentTrees.mentions,
        ArgumentTrees.translate, List.cons_append, List.foldl_cons,
        List.foldl_append]
      have named :
          type.events.foldl Resolver.step (resolver.inside frame stack) =
            (resolver.meet (type.mentions none)).inside
              (frame.take (type.translate resolver.scope 0).toList) stack :=
        (type.foldl_step _).trans (resolver.finish_inside frame stack _ _)
      rw [Resolver.meet_append, Frame.take_append]
      exact (congrArg (rest.events.foldl Resolver.step) named).trans
        (rest.foldl_step _ _ stack)

/-- Nothing is nested in the root type, but arguments are looked at. -/
theorem SegmentTrees.foldl_step_skipped
    (tree : SegmentTrees)
    (resolver : Resolver)
    (stack : List Frame) :
    tree.events.foldl Resolver.step (resolver.inside .skipped stack) =
      (resolver.meet (tree.mentions none)).inside .skipped stack := by
  match tree with
  | .nil =>
      simp only [SegmentTrees.events, SegmentTrees.mentions]
      rfl
  | .nested name arguments rest =>
      simp only [SegmentTrees.events, SegmentTrees.mentions,
        List.cons_append, List.foldl_cons, List.foldl_append,
        Option.map_none, Option.toList_none, List.map_nil, List.nil_append]
      have passed :
          (resolver.inside .skipped stack).step (.nested name.name) =
            resolver.inside .skipped stack :=
        rfl
      rw [passed, arguments.foldl_step, Frame.take, rest.foldl_step_skipped,
        ← Resolver.meet_append]

/-- Of nested classes the innermost is left, with its own arguments. -/
theorem SegmentTrees.foldl_step
    (tree : SegmentTrees)
    (resolver : Resolver)
    (outer : TypeName)
    (arguments : List Generic)
    (dimensions : Nat)
    (stack : List Frame) :
    tree.events.foldl Resolver.step
        (resolver.inside
          (.type ⟨some ⟨outer, true⟩, none, arguments, dimensions⟩) stack) =
      let innermost := tree.innermost resolver.scope outer arguments
      (resolver.meet (tree.mentions (some outer))).inside
        (.type ⟨some ⟨innermost.1, true⟩, none, innermost.2, dimensions⟩)
        stack := by
  match tree with
  | .nil =>
      simp only [SegmentTrees.events, SegmentTrees.mentions,
        SegmentTrees.innermost]
      rfl
  | .nested name given rest =>
      simp only [SegmentTrees.events, SegmentTrees.mentions,
        SegmentTrees.innermost, List.cons_append, List.foldl_cons,
        List.foldl_append, Option.map_some, Option.toList_some,
        List.map_cons, List.map_nil, List.nil_append]
      rw [Resolver.step_nested, given.foldl_step, Frame.take, List.nil_append,
        rest.foldl_step, ← Resolver.meet_append, ← Resolver.meet_append]
      simp only [Resolver.scope_meet, List.cons_append, List.nil_append]

end

end Signature

/-! ## The machine between types -/

namespace Resolver

/-- What is left of the machine between two types. -/
def idle (resolver : Resolver) : Resolver :=
  { resolver with position := .unset, pending := none, dimensions := 0 }

/-- Events that begin and end between types make a change to the machine. -/
def Makes
    (events : List Signature.Event)
    (change : Resolver → Resolver) :
    Prop :=
  ∀ resolver : Resolver,
    resolver.stack = [] →
      (events.foldl step resolver).idle = change resolver.idle ∧
        (events.foldl step resolver).stack = []

namespace Makes

/-- A change may be said in other words. -/
theorem congr
    {events : List Signature.Event}
    {change other : Resolver → Resolver}
    (makes : Makes events change)
    (same : ∀ resolver, change resolver = other resolver) :
    Makes events other := by
  intro resolver outside
  rw [← same]
  exact makes resolver outside

/-- Changes are made one after another. -/
theorem append
    {events others : List Signature.Event}
    {first second : Resolver → Resolver}
    (makes : Makes events first)
    (goesOn : Makes others second) :
    Makes (events ++ others) (second ∘ first) := by
  intro resolver outside
  obtain ⟨changed, stillOutside⟩ := makes resolver outside
  obtain ⟨changedAgain, ended⟩ := goesOn _ stillOutside
  rw [List.foldl_append, changedAgain, changed]
  exact ⟨rfl, ended⟩

end Makes

/-- A list of the machine that things are added to, the rest staying as it is. -/
structure Adds (add : Resolver → List β → Resolver) : Prop where
  nil : ∀ resolver, add resolver [] = resolver
  append :
    ∀ resolver first second,
      add resolver (first ++ second) = add (add resolver first) second
  meet :
    ∀ resolver added names,
      (add resolver added).meet names = add (resolver.meet names) added
  scope : ∀ resolver added, (add resolver added).scope = resolver.scope

/-- A row of types adds what each of them does. -/
theorem Adds.row
    {add : Resolver → List β → Resolver}
    (adds : Adds add)
    {events : τ → List Signature.Event}
    {mentions : τ → Signature.Mentions}
    (values : τ → Signature.Scope → List β)
    (makes :
      ∀ tree,
        Makes (events tree) fun resolver =>
          add (resolver.meet (mentions tree)) (values tree resolver.scope))
    (trees : List τ) :
    Makes (trees.flatMap events) fun resolver =>
      add (resolver.meet (trees.flatMap mentions))
        (trees.flatMap (values · resolver.scope)) := by
  induction trees with
  | nil =>
      intro resolver outside
      exact ⟨(adds.nil _).symm, outside⟩
  | cons tree trees inductionHypothesis =>
      rw [List.flatMap_cons]
      refine ((makes tree).append inductionHypothesis).congr fun resolver => ?_
      simp only [Function.comp_apply, List.flatMap_cons, adds.meet, adds.scope,
        adds.append, meet_append]
      rfl

end Resolver

namespace Signature

/-! ## Type parameters -/

/-- Behind bounds that name no type, a bound gives the shape. -/
theorem shaping?_append
    (bounds : List Generic)
    (bound : Generic) :
    shaping? (bounds ++ [bound]) =
      (bounds.find? (·.type.isSome) <|> some bound) := by
  unfold shaping?
  rw [List.find?_append, List.getLast?_append]
  cases bounds.find? (·.type.isSome) with
  | some naming =>
      rfl
  | none =>
      cases named : bound.type.isSome <;> simp [named]

/-- One more bound is adopted, unless one before it names a type. -/
theorem parameterOf_append
    (name : String)
    (bounds : List Generic)
    (bound : Generic) :
    parameterOf name (bounds ++ [bound]) =
      (parameterOf name bounds).bind bound := by
  unfold parameterOf Generic.bind
  rw [shaping?_append, shaping?]
  cases found : bounds.find? (·.type.isSome) with
  | some naming =>
      have isNaming := List.find?_some found
      obtain ⟨reference, named⟩ := Option.isSome_iff_exists.mp isNaming
      simp [named]
  | none =>
      cases last : bounds.getLast? with
      | none =>
          rfl
      | some other =>
          have unnamed : other.type = none := by
            simpa using List.find?_eq_none.mp found other
              (List.mem_of_getLast? last)
          simp [unnamed]

namespace Declared

/-- A declaration without bounds leaves all names the bounds they have. -/
theorem boundsOf_append_nil
    (declared : Declared)
    (name other : String) :
    boundsOf (declared ++ [(name, [])]) other = declared.boundsOf other := by
  unfold boundsOf
  rw [List.filter_append, List.flatMap_append]
  cases same : name == other <;> simp [same]

/-- A name that is not declared has no bounds. -/
theorem boundsOf_of_notMem
    {declared : Declared}
    {name : String}
    (unknown : name ∉ declared.map (·.1)) :
    declared.boundsOf name = [] := by
  unfold boundsOf
  rw [List.filter_eq_nil_iff.mpr, List.flatMap_nil]
  rintro ⟨other, given⟩ member same
  exact unknown (beq_iff_eq.mp same ▸ List.mem_map_of_mem member)

/-- A name is among the type parameters exactly if it is declared. -/
theorem lookup_formals
    (declared : Declared)
    (name : String) :
    declared.formals.lookup name =
      if name ∈ declared.map (·.1) then
        some (parameterOf name (declared.boundsOf name))
      else
        none := by
  by_cases known : name ∈ declared.map (·.1)
  · rw [if_pos known]
    exact List.lookup_graph
      (fun other => parameterOf other (declared.boundsOf other))
      (List.mem_eraseDups.mpr known)
  · rw [if_neg known, List.lookup_eq_none_iff]
    intro formal member
    obtain ⟨other, listed, rfl⟩ := List.mem_map.mp member
    have declaredToo := List.mem_eraseDups.mp listed
    simpa using fun same : name = other => known (same ▸ declaredToo)

/-- A declaration that has no bounds yet adds its name, unless it is known. -/
theorem formals_append_nil
    (declared : Declared)
    (name : String) :
    formals (declared ++ [(name, [])]) =
      declared.formals.insertNew name (Generic.ofFormal name) := by
  unfold Formals.insertNew
  rw [declared.lookup_formals, formals, List.map_append, List.eraseDups_append]
  simp only [boundsOf_append_nil]
  by_cases known : name ∈ declared.map (·.1)
  · simp [known, formals, List.removeAll]
  · have unbounded := boundsOf_of_notMem known
    have single : [name].eraseDups = [name] := by
      simp [List.eraseDups_cons]
    simp [known, formals, List.removeAll, unbounded, parameterOf, shaping?,
      Generic.ofFormal, single]

/-- A bound behind the others is adopted by its type parameter alone. -/
theorem formals_append_bound
    (declared : Declared)
    (name : String)
    (before : List Generic)
    (bound : Generic) :
    formals (declared ++ [(name, before ++ [bound])]) =
      (formals (declared ++ [(name, before)])).bind name bound := by
  unfold Formals.bind formals
  rw [List.map_map, List.map_append, List.map_append]
  refine List.map_congr_left fun other _ => ?_
  simp only [boundsOf, List.filter_append, List.flatMap_append,
    Function.comp_apply]
  by_cases same : name = other
  · subst same
    simp [← List.append_assoc, parameterOf_append]
  · simp [same, Ne.symm same]

end Declared

/-! ## The machine at type parameters -/

namespace FormalTree

/-- What the machine does with its type parameters at a bound. -/
def adopt
    (inherited : Formals)
    (name : String)
    (formals : Formals)
    (bound : ReferenceTree) :
    Formals :=
  match bound.translate ⟨formals, inherited⟩ 0 with
  | some generic => formals.bind name generic
  | none => formals

/-- What it does with them at a declaration. -/
def enter
    (inherited formals : Formals)
    (formal : FormalTree) :
    Formals :=
  formal.bounds.foldl (adopt inherited formal.name.name)
    (formals.insertNew formal.name.name (Generic.ofFormal formal.name.name))

/-- A bound that is adopted is one more that is given. -/
theorem adopt_formals
    (inherited : Formals)
    (declared : Declared)
    (name : String)
    (before : List Generic)
    (bound : ReferenceTree) :
    adopt inherited name (Declared.formals (declared ++ [(name, before)]))
        bound =
      Declared.formals
        (declared ++
          [(name, translateBound inherited declared name before bound)]) := by
  unfold adopt translateBound
  dsimp only
  cases bound.translate
      ⟨Declared.formals (declared ++ [(name, before)]), inherited⟩ 0 with
  | none =>
      rw [Option.toList_none, List.append_nil]
  | some generic =>
      exact (declared.formals_append_bound name before generic).symm

/-- Bounds are adopted one after another. -/
theorem foldl_adopt_formals
    (inherited : Formals)
    (declared : Declared)
    (name : String)
    (before : List Generic)
    (bounds : List ReferenceTree) :
    bounds.foldl (adopt inherited name)
        (Declared.formals (declared ++ [(name, before)])) =
      Declared.formals
        (declared ++
          [(name,
            bounds.foldl (translateBound inherited declared name) before)]) := by
  induction bounds generalizing before with
  | nil =>
      rfl
  | cons bound bounds inductionHypothesis =>
      rw [List.foldl_cons, adopt_formals, inductionHypothesis]
      rfl

/-- The type parameters stay those of the declarations, also with one more. -/
theorem enter_formals
    (inherited : Formals)
    (declared : Declared)
    (formal : FormalTree) :
    formal.enter inherited declared.formals =
      (formal.declare inherited declared).formals := by
  rw [enter, ← declared.formals_append_nil, foldl_adopt_formals]
  rfl

end FormalTree

/-- The machine collects the type parameters that the trees mean. -/
theorem FormalTrees.foldl_enter
    (trees : FormalTrees)
    (inherited : Formals) :
    trees.all.foldl (FormalTree.enter inherited) [] =
      trees.translate inherited := by
  have entered :
      ∀ (all : List FormalTree) (declared : Declared),
        all.foldl (FormalTree.enter inherited) declared.formals =
          Declared.formals
            (all.foldl (FormalTree.declare inherited) declared) := by
    intro all
    induction all with
    | nil =>
        exact fun _ => rfl
    | cons formal all inductionHypothesis =>
        intro declared
        rw [List.foldl_cons, formal.enter_formals, inductionHypothesis]
        rfl
  exact entered trees.all []

/-- A type parameter adopts a bound. -/
theorem ReferenceTree.foldl_step_bound
    (tree : ReferenceTree)
    {resolver : Resolver}
    (outside : resolver.stack = [])
    {name : String}
    (pending : resolver.pending = some name) :
    (.interfaceBound :: tree.events).foldl Resolver.step resolver =
      { resolver.meet (tree.mentions none) with
        position := .bound
        dimensions := 0
        formals := FormalTree.adopt resolver.inherited name resolver.formals
          tree } := by
  let turned := resolver.turnTo .bound
  have hint : turned.hint? = none := by
    simp [turned, Resolver.turnTo, Resolver.hint?, outside]
  have folded :
      (.interfaceBound :: tree.events).foldl Resolver.step resolver =
        turned.finish (tree.mentions none)
          (tree.translate resolver.scope 0) := by
    rw [← hint]
    exact tree.foldl_step turned
  rw [folded]
  unfold FormalTree.adopt
  change turned.finish _ (tree.translate ⟨resolver.formals, resolver.inherited⟩ 0) = _
  cases tree.translate ⟨resolver.formals, resolver.inherited⟩ 0 with
  | none =>
      simp [Resolver.finish, turned, Resolver.turnTo, Resolver.meet, pending]
  | some generic =>
      simp [Resolver.finish, Resolver.attach, Resolver.place, turned,
        Resolver.turnTo, Resolver.meet, outside, pending]

/-- The bounds of a type parameter are adopted one after another. -/
theorem foldl_step_bounds
    (bounds : List ReferenceTree)
    {resolver : Resolver}
    (outside : resolver.stack = [])
    {name : String}
    (pending : resolver.pending = some name) :
    let final :=
      (bounds.flatMap (.interfaceBound :: ·.events)).foldl Resolver.step
        resolver
    final.idle =
        { resolver.idle.meet (bounds.flatMap (·.mentions none)) with
          formals := bounds.foldl (FormalTree.adopt resolver.inherited name)
            resolver.formals } ∧
      final.stack = [] := by
  induction bounds generalizing resolver with
  | nil =>
      exact ⟨rfl, outside⟩
  | cons bound bounds inductionHypothesis =>
      simp only [List.flatMap_cons, List.foldl_append]
      rw [bound.foldl_step_bound outside pending, Resolver.meet_append]
      exact inductionHypothesis outside pending

/-- A declaration changes the type parameters and nothing else. -/
theorem FormalTree.makes
    (formal : FormalTree) :
    Resolver.Makes formal.events fun resolver =>
      { resolver.meet formal.mentions with
        formals := formal.enter resolver.inherited resolver.formals } := by
  intro resolver outside
  let declared : Resolver :=
    { resolver with
      pending := some formal.name.name
      formals := resolver.formals.insertNew formal.name.name
        (Generic.ofFormal formal.name.name) }
  -- A class bound is taken in like an interface bound.
  have folded :
      formal.events.foldl Resolver.step resolver =
        (formal.bounds.flatMap (.interfaceBound :: ·.events)).foldl
          Resolver.step declared := by
    unfold events bounds
    cases formal.classBound <;> rfl
  have pending : declared.pending = some formal.name.name :=
    rfl
  have stillOutside : declared.stack = [] :=
    outside
  rw [folded]
  exact foldl_step_bounds formal.bounds stillOutside pending

/-- So do declarations one after another. -/
theorem FormalTrees.makes
    (trees : FormalTrees) :
    Resolver.Makes trees.events fun resolver =>
      { resolver.meet trees.mentions with
        formals := trees.all.foldl (FormalTree.enter resolver.inherited)
          resolver.formals } := by
  simp only [events, mentions]
  induction trees.all with
  | nil =>
      intro resolver outside
      exact ⟨rfl, outside⟩
  | cons formal all inductionHypothesis =>
      simp only [List.flatMap_cons]
      refine (formal.makes.append inductionHypothesis).congr fun resolver => ?_
      rw [Resolver.meet_append]
      rfl

end Signature

namespace Resolver

def addInterfaces
    (resolver : Resolver)
    (added : List Generic) :
    Resolver :=
  { resolver with interfaces := resolver.interfaces ++ added }

def addParameters
    (resolver : Resolver)
    (added : List (Option Generic)) :
    Resolver :=
  { resolver with parameters := resolver.parameters ++ added }

def addThrown
    (resolver : Resolver)
    (added : List Generic) :
    Resolver :=
  { resolver with thrown := resolver.thrown ++ added }

theorem addInterfaces_adds :
    Adds addInterfaces :=
  ⟨fun _ => by simp [addInterfaces], fun _ _ _ => by simp [addInterfaces],
    fun _ _ _ => rfl, fun _ _ => rfl⟩

theorem addParameters_adds :
    Adds addParameters :=
  ⟨fun _ => by simp [addParameters], fun _ _ _ => by simp [addParameters],
    fun _ _ _ => rfl, fun _ _ => rfl⟩

theorem addThrown_adds :
    Adds addThrown :=
  ⟨fun _ => by simp [addThrown], fun _ _ _ => by simp [addThrown],
    fun _ _ _ => rfl, fun _ _ => rfl⟩

/-- The category of the types at a position. -/
def Position.hint : Position → Option Category
  | superclass => some .classType
  | interface => some .interfaceType
  | _ => none

/-- Hand what an outermost type becomes to a position. -/
def receive
    (resolver : Resolver)
    (position : Position)
    (translated : Option Generic) :
    Resolver :=
  match translated with
  | some generic =>
      { { resolver with position := position }.place generic with
        position := resolver.position }
  | none => resolver

/-- A superclass that becomes nothing leaves none. -/
theorem receive_superclass
    {resolver : Resolver}
    (fresh : resolver.superclass = none)
    (translated : Option Generic) :
    resolver.receive .superclass translated =
      { resolver with superclass := translated } := by
  cases translated with
  | none =>
      change resolver = _
      rw [← fresh]
  | some generic =>
      rfl

/-- A result that becomes nothing leaves none. -/
theorem receive_result
    {resolver : Resolver}
    (fresh : resolver.result = none)
    (translated : Option Generic) :
    resolver.receive .result translated =
      { resolver with result := translated } := by
  cases translated with
  | none =>
      change resolver = _
      rw [← fresh]
  | some generic =>
      rfl

/-- A field that becomes nothing leaves none. -/
theorem receive_field
    {resolver : Resolver}
    (fresh : resolver.field = none)
    (translated : Option Generic) :
    resolver.receive .field translated =
      { resolver with field := translated } := by
  cases translated with
  | none =>
      change resolver = _
      rw [← fresh]
  | some generic =>
      rfl

/-- Events of a type whose end hands on what the type becomes. -/
def Folds
    (events : List Signature.Event)
    (mentions : Option Category → Signature.Mentions)
    (translate : Signature.Scope → Nat → Option Generic) :
    Prop :=
  ∀ resolver : Resolver,
    events.foldl step resolver =
      resolver.finish (mentions resolver.hint?)
        (translate resolver.scope resolver.dimensions)

/-- A type behind a turn to a position is handed to that position. -/
theorem Folds.turned
    {events : List Signature.Event}
    {mentions : Option Category → Signature.Mentions}
    {translate : Signature.Scope → Nat → Option Generic}
    (folds : Folds events mentions translate)
    (position : Position)
    (unbound : position ≠ .bound)
    {resolver : Resolver}
    (outside : resolver.stack = []) :
    let final := events.foldl step (resolver.turnTo position)
    final.idle =
        (resolver.idle.meet (mentions position.hint)).receive position
          (translate resolver.scope 0) ∧
      final.stack = [] := by
  have hint : (resolver.turnTo position).hint? = position.hint := by
    simp only [hint?, turnTo, outside]
    cases position <;> rfl
  have scope : (resolver.turnTo position).scope = resolver.scope :=
    rfl
  have dimensions : (resolver.turnTo position).dimensions = 0 :=
    rfl
  simp only [folds (resolver.turnTo position), hint, scope, dimensions]
  cases translate resolver.scope 0 with
  | none =>
      exact ⟨rfl, outside⟩
  | some generic =>
      obtain ⟨store, inherited, formals, pending, before, stack, dimensions,
        superclass, interfaces, parameters, result, thrown, field⟩ := resolver
      obtain rfl : stack = [] := outside
      cases position with
      | bound =>
          exact absurd rfl unbound
      | parameter =>
          cases parameters <;> exact ⟨rfl, rfl⟩
      | unset | superclass | interface | result | thrown | field =>
          exact ⟨rfl, rfl⟩

/-- A type behind the event for its position is handed to that position. -/
theorem Folds.makes
    {events : List Signature.Event}
    {mentions : Option Category → Signature.Mentions}
    {translate : Signature.Scope → Nat → Option Generic}
    (folds : Folds events mentions translate)
    {mark : Signature.Event}
    (position : Position)
    (unbound : position ≠ .bound)
    (turns :
      ∀ resolver : Resolver, resolver.step mark = resolver.turnTo position) :
    Makes (mark :: events) fun resolver =>
      (resolver.meet (mentions position.hint)).receive position
        (translate resolver.scope 0) := by
  intro resolver outside
  rw [List.foldl_cons, turns]
  exact folds.turned position unbound outside

end Resolver

namespace Signature

open Resolver (Folds Makes)

theorem TypeTree.folds
    (tree : TypeTree) :
    Folds tree.events (tree.mentions ·) (tree.translate · ·) :=
  tree.foldl_step

theorem ReferenceTree.folds
    (tree : ReferenceTree) :
    Folds tree.events (tree.mentions ·) (tree.translate · ·) :=
  tree.foldl_step

theorem ClassTree.folds
    (tree : ClassTree) :
    Folds tree.events (tree.mentions ·) (tree.translate · ·) :=
  tree.foldl_step

/-- The superclass is mentioned as a class. -/
theorem ClassTree.makes_superclass
    (tree : ClassTree) :
    Makes (.superclass :: tree.events) fun resolver =>
      (resolver.meet (tree.mentions (some .classType))).receive .superclass
        (tree.translate resolver.scope 0) :=
  tree.folds.makes .superclass (by decide) fun _ => rfl

/-- Interfaces that become something are added behind the others. -/
theorem makes_interfaces
    (trees : List ClassTree) :
    Makes (trees.flatMap (.interface :: ·.events)) fun resolver =>
      (resolver.meet
        (trees.flatMap (·.mentions (some .interfaceType)))).addInterfaces
          (trees.flatMap fun tree =>
            (tree.translate resolver.scope 0).toList) := by
  refine Resolver.addInterfaces_adds.row
    (fun tree scope => (tree.translate scope 0).toList) (fun tree => ?_) trees
  refine (tree.folds.makes .interface (by decide) fun _ => rfl).congr
    fun resolver => ?_
  cases tree.translate resolver.scope 0 with
  | none =>
      exact (Resolver.addInterfaces_adds.nil _).symm
  | some generic =>
      rfl

/-- Thrown types that become something are added behind the others. -/
theorem makes_thrown
    (trees : List ReferenceTree) :
    Makes (trees.flatMap (.thrown :: ·.events)) fun resolver =>
      (resolver.meet (trees.flatMap (·.mentions none))).addThrown
        (trees.flatMap fun tree =>
          (tree.translate resolver.scope 0).toList) := by
  refine Resolver.addThrown_adds.row
    (fun tree scope => (tree.translate scope 0).toList) (fun tree => ?_) trees
  refine (tree.folds.makes .thrown (by decide) fun _ => rfl).congr
    fun resolver => ?_
  cases tree.translate resolver.scope 0 with
  | none =>
      exact (Resolver.addThrown_adds.nil _).symm
  | some generic =>
      rfl

/-- Every parameter has a slot, which stays empty if it becomes nothing. -/
theorem makes_parameters
    (trees : List TypeTree) :
    Makes (trees.flatMap (.parameter :: ·.events)) fun resolver =>
      (resolver.meet (trees.flatMap (·.mentions none))).addParameters
        (trees.flatMap fun tree => [tree.translate resolver.scope 0]) := by
  refine Resolver.addParameters_adds.row
    (fun tree scope => [tree.translate scope 0]) (fun tree => ?_) trees
  intro resolver outside
  let slotted := resolver.addParameters [none]
  have stillOutside : slotted.stack = [] :=
    outside
  obtain ⟨changed, ended⟩ :=
    tree.folds.turned .parameter (by decide) stillOutside
  refine ⟨changed.trans ?_, ended⟩
  change Resolver.receive _ _ (tree.translate resolver.scope 0) =
    Resolver.addParameters _ [tree.translate resolver.scope 0]
  cases tree.translate resolver.scope 0 with
  | none =>
      rfl
  | some generic =>
      simp [Resolver.receive, Resolver.place, slotted, Resolver.addParameters,
        Resolver.meet, Resolver.idle, Resolver.Position.hint]

/-- A result of nothing is read as a primitive type. -/
theorem makes_result
    (result : Option TypeTree) :
    Makes (.result :: (result.map (·.events)).getD [.base 'V']) fun resolver =>
      (resolver.meet ((result.map (·.mentions none)).getD [])).receive .result
        (result.bind (·.translate resolver.scope 0)) := by
  cases result with
  | none =>
      intro resolver outside
      exact ⟨rfl, outside⟩
  | some type =>
      exact type.folds.makes .result (by decide) fun _ => rfl

/-! ## Whole signatures -/

/-- The machine after a class signature. -/
theorem ClassSignature.foldl_step
    (tree : ClassSignature)
    (store : Store) :
    (tree.events.foldl Resolver.step { store := store }).idle =
      { store := store.mentionAll tree.mentions
        formals := tree.translate.formals
        superclass := tree.translate.superclass
        interfaces := tree.translate.interfaces } := by
  have makes := (tree.formals.makes.append
    tree.superclass.makes_superclass).append (makes_interfaces tree.interfaces)
  refine (makes { store := store } rfl).1.trans ?_
  simp only [Function.comp_apply, translate, mentions,
    List.filterMap_eq_flatMap_toList, Store.mentionAll_append]
  rw [Resolver.receive_superclass rfl, ← tree.formals.foldl_enter]
  rfl

/-- A class signature resolves to what its tree means. -/
theorem run_resolveClass
    {text : String}
    (tree : ClassSignature)
    (traced : traceClass text = ⟨tree.events, none⟩)
    (store : Store) :
    (Filing.resolveClass text).run store =
      (some tree.translate, store.mentionAll tree.mentions) := by
  let final := tree.events.foldl Resolver.step { store := store }
  have ran :
      (Filing.resolveClass text).run store =
        (some ⟨final.idle.superclass, final.idle.interfaces,
          final.idle.formals⟩, final.idle.store) := by
    simp only [Filing.resolveClass, Resolver.run, traced]
    rfl
  rw [ran, tree.foldl_step store]

/-- The machine after a method signature. -/
theorem MethodSignature.foldl_step
    (tree : MethodSignature)
    (inherited : Formals)
    (store : Store) :
    (tree.events.foldl Resolver.step
        { store := store, inherited := inherited }).idle =
      { store := store.mentionAll tree.mentions
        inherited := inherited
        formals := tree.formals.translate inherited
        parameters := (tree.translate inherited).parameters
        result := (tree.translate inherited).result
        thrown := (tree.translate inherited).thrown } := by
  have makes := ((tree.formals.makes.append
    (makes_parameters tree.parameters)).append
      (makes_result tree.result)).append (makes_thrown tree.thrown)
  refine (makes { store := store, inherited := inherited } rfl).1.trans ?_
  simp only [Function.comp_apply, translate, mentions,
    List.filterMap_eq_flatMap_toList, List.map_eq_flatMap,
    Store.mentionAll_append]
  rw [Resolver.receive_result rfl, ← tree.formals.foldl_enter]
  rfl

/-- A method signature resolves to what its tree means. -/
theorem run_resolveMethod
    {text : String}
    (tree : MethodSignature)
    (traced : traceMethod text = ⟨tree.events, none⟩)
    (inherited : Formals)
    (store : Store) :
    (Filing.resolveMethod inherited text).run store =
      (some (tree.translate inherited), store.mentionAll tree.mentions) := by
  let final := tree.events.foldl Resolver.step
    { store := store, inherited := inherited }
  have ran :
      (Filing.resolveMethod inherited text).run store =
        (some ⟨final.idle.parameters, final.idle.result, final.idle.thrown⟩,
          final.idle.store) := by
    simp only [Filing.resolveMethod, Resolver.run, traced]
    rfl
  rw [ran, tree.foldl_step inherited store]

/-- A field signature resolves to what its tree means. -/
theorem run_resolveField
    {text : String}
    (tree : TypeTree)
    (traced : traceField text = ⟨tree.events, none⟩)
    (inherited : Formals)
    (store : Store) :
    (Filing.resolveField inherited text).run store =
      (tree.translate ⟨[], inherited⟩ 0,
        store.mentionAll (tree.mentions none)) := by
  let start : Resolver :=
    { store := store, inherited := inherited, position := .field }
  let final := tree.events.foldl Resolver.step start
  have ran :
      (Filing.resolveField inherited text).run store =
        (final.idle.field, final.idle.store) := by
    simp only [Filing.resolveField, Resolver.run, traced]
    rfl
  -- The machine starts where it would be after a turn to the position.
  have idle :
      final.idle =
        (start.idle.meet (tree.mentions none)).receive .field
          (tree.translate ⟨[], inherited⟩ 0) :=
    (tree.folds.turned .field (by decide)
      (show start.stack = [] from rfl)).1
  rw [ran, idle, Resolver.receive_field rfl]
  rfl

/-- A text that is accepted is traced as the events of its tree. -/
theorem Recognizes.exists_tree
    {trace : String → Trace}
    {chars : τ → List Char}
    {events : τ → List Event}
    (recognizes : Recognizes trace chars events)
    {text : String}
    (accepted : (trace text).malformed? = none) :
    ∃ tree,
      String.ofList (chars tree) = text ∧
        trace text = ⟨events tree, none⟩ := by
  obtain ⟨tree, rfl⟩ := (recognizes.accepts text).mp accepted
  refine ⟨tree, rfl, ?_⟩
  rw [← recognizes.reports tree, ← accepted]

/--
Resolving a signature gives what its tree translates to, for classes, methods
and fields alike, and mentions the names in the tree from left to right.
-/
theorem resolving_translates :
    (∀ text,
      (traceClass text).malformed? = none →
        ∃ tree : ClassSignature,
          String.ofList tree.chars = text ∧
            ∀ store,
              (Filing.resolveClass text).run store =
                (some tree.translate, store.mentionAll tree.mentions)) ∧
      (∀ text,
        (traceMethod text).malformed? = none →
          ∃ tree : MethodSignature,
            String.ofList tree.chars = text ∧
              ∀ inherited store,
                (Filing.resolveMethod inherited text).run store =
                  (some (tree.translate inherited),
                    store.mentionAll tree.mentions)) ∧
      (∀ text,
        (traceField text).malformed? = none →
          ∃ tree : TypeTree,
            String.ofList tree.chars = text ∧
              ∀ inherited store,
                (Filing.resolveField inherited text).run store =
                  (tree.translate ⟨[], inherited⟩ 0,
                    store.mentionAll (tree.mentions none))) := by
  refine ⟨fun text accepted => ?_, fun text accepted => ?_,
    fun text accepted => ?_⟩
  · obtain ⟨tree, written, traced⟩ :=
      traceClass_recognizes.exists_tree accepted
    exact ⟨tree, written, run_resolveClass tree traced⟩
  · obtain ⟨tree, written, traced⟩ :=
      traceMethod_recognizes.exists_tree accepted
    exact ⟨tree, written, run_resolveMethod tree traced⟩
  · obtain ⟨tree, written, traced⟩ :=
      traceField_recognizes.exists_tree accepted
    exact ⟨tree, written, run_resolveField tree traced⟩

theorem resolving_translates_boxes :
    let classText :=
      "<T:Ljava/lang/Object;:TU;:Ldemo/Sized<TT;>;:Ldemo/Late;U:TT;T::Ldemo/Last;>"
        ++ "Ldemo/Base<TT;>;Ldemo/Each<[TU;>;"
    let methodText := "<E:>(ILdemo/Outer<*>.Inner<TE;>;)V^TE;"
    let fieldText := "[Ldemo/Outer<TT;>.Inner<[I[TT;>;"
    (∃ tree : ClassSignature,
      String.ofList tree.chars = classText ∧
        ∀ store,
          (Filing.resolveClass classText).run store =
            (some tree.translate, store.mentionAll tree.mentions)) ∧
      (∃ tree : MethodSignature,
        String.ofList tree.chars = methodText ∧
          ∀ inherited store,
            (Filing.resolveMethod inherited methodText).run store =
              (some (tree.translate inherited),
                store.mentionAll tree.mentions)) ∧
      (∃ tree : TypeTree,
        String.ofList tree.chars = fieldText ∧
          ∀ inherited store,
            (Filing.resolveField inherited fieldText).run store =
              (tree.translate ⟨[], inherited⟩ 0,
                store.mentionAll (tree.mentions none))) :=
  ⟨resolving_translates.1 _ (by decide +kernel),
    resolving_translates.2.1 _ (by decide +kernel),
    resolving_translates.2.2 _ (by decide +kernel)⟩

/-! The first bound that names a type is kept, the root type names none. -/

example :
    ((Filing.resolveClass
        "<T:Ljava/lang/Object;:TU;:Ldemo/Sized<TT;>;U:[TT;>Ldemo/Base;").run
      {}).1.map (·.formals.map fun (name, formal) =>
        (name, formal.typeName?, formal.arguments.map (·.text),
          formal.dimensions)) =
      some [("T", some "demo.Sized", ["T"], 0), ("U", some "demo.Sized", [], 1)] := by
  decide +kernel

example :
    ((Filing.resolveField [] "[Ldemo/Outer<TT;>.Inner<[I[TT;>;").run
      {}).1.map Generic.text =
        some "demo.Outer$Inner<T[]>[]" := by
  decide +kernel

end Signature

end TypeAtlas
