import Mathlib.Data.List.Forall2
import TypeAtlas.ClassFile.Writer

namespace TypeAtlas.ClassFile

/-!
# The layout of class files

A class file can be taken apart without a look at what its attributes say: each
attribute is a name and a content of a known length, and each member is three
numbers and a list of attributes. A reader that does no more than this runs
alongside the reader of declarations and takes the same bytes, so for every
method that is read there are the attributes that it was read from.
-/

/-! ## Readers side by side -/

/-- What a reader that succeeds has done, one step after another. -/
theorem exists_of_run_bind
    {read : Read α}
    {next : α → Read β}
    {bytes rest : Bytes}
    {value : β}
    (succeeded : (read >>= next).run bytes = .ok (value, rest)) :
    ∃ first middle,
      read.run bytes = .ok (first, middle) ∧
        (next first).run middle = .ok (value, rest) := by
  rw [StateT.run_bind] at succeeded
  cases opened : read.run bytes with
  | error fault =>
      rw [opened] at succeeded
      cases succeeded
  | ok result =>
      rw [opened] at succeeded
      exact ⟨result.1, result.2, rfl, succeeded⟩

/-- A reader that takes no bytes. -/
def Still (read : Read α) : Prop :=
  ∀ bytes value rest, read.run bytes = .ok (value, rest) → rest = bytes

/-- Two readers that take no bytes take none together. -/
theorem Still.bind
    {read : Read α}
    {next : α → Read β}
    (before : Still read)
    (after : ∀ value, Still (next value)) :
    Still (read >>= next) := by
  intro bytes value rest succeeded
  obtain ⟨first, middle, opened, closed⟩ := exists_of_run_bind succeeded
  exact (after first _ _ _ closed).trans (before _ _ _ opened)

theorem still_pure
    (value : α) :
    Still (pure value) := by
  intro bytes _ rest succeeded
  cases succeeded
  rfl

namespace ConstantPool

/-- A constant is looked up without taking bytes. -/
theorem still_get
    (pool : ConstantPool)
    (select : Constant → Option α)
    (index : UInt16) :
    Still (pool.get select index) := by
  unfold get
  split
  · exact still_pure _
  · intro bytes value rest succeeded
    cases succeeded

/-- So is the name of a class. -/
theorem still_className
    (pool : ConstantPool)
    (index : UInt16) :
    Still (pool.className index) :=
  (pool.still_get _ index).bind fun nameIndex =>
    (pool.still_get _ nameIndex).bind fun _ => still_pure _

/-- So is the name of a superclass. -/
theorem still_superName
    (pool : ConstantPool)
    (index : UInt16) :
    Still (pool.superName index) := by
  unfold superName
  split
  · exact still_pure _
  · rw [← bind_pure_comp]
    exact (pool.still_className index).bind fun _ => still_pure _

end ConstantPool

/-- Whenever a reader succeeds, another takes the same bytes for a like value. -/
def Alongside
    (Like : α → β → Prop)
    (read : Read α)
    (other : Read β) :
    Prop :=
  ∀ bytes value rest,
    read.run bytes = .ok (value, rest) →
      ∃ seen, other.run bytes = .ok (seen, rest) ∧ Like value seen

namespace Alongside

variable {Like : α → β → Prop}

theorem pure
    {value : α}
    {seen : β}
    (like : Like value seen) :
    Alongside Like (Pure.pure value) (Pure.pure seen) := by
  intro bytes _ rest succeeded
  cases succeeded
  exact ⟨seen, rfl, like⟩

/-- A reader that fails is followed by any other. -/
theorem throw
    (fault : Fault)
    (other : Read β) :
    Alongside Like (MonadExcept.throw fault) other := by
  intro bytes value rest succeeded
  cases succeeded

/-- Readers that go on alongside can be put behind each other. -/
theorem bind
    {Last : γ → δ → Prop}
    {read : Read α}
    {other : Read β}
    {next : α → Read γ}
    {more : β → Read δ}
    (before : Alongside Like read other)
    (after :
      ∀ value seen, Like value seen →
        Alongside Last (next value) (more seen)) :
    Alongside Last (read >>= next) (other >>= more) := by
  intro bytes value rest succeeded
  obtain ⟨first, middle, opened, closed⟩ := exists_of_run_bind succeeded
  obtain ⟨seen, also, like⟩ := before _ _ _ opened
  obtain ⟨last, alsoLast, likeLast⟩ := after first seen like _ _ _ closed
  refine ⟨last, ?_, likeLast⟩
  rw [StateT.run_bind, also]
  exact alsoLast

/-- Likeness can be weakened. -/
theorem mono
    {Last : α → β → Prop}
    {read : Read α}
    {other : Read β}
    (alongside : Alongside Like read other)
    (weaker : ∀ value seen, Like value seen → Last value seen) :
    Alongside Last read other := by
  intro bytes value rest succeeded
  obtain ⟨seen, also, like⟩ := alongside _ _ _ succeeded
  exact ⟨seen, also, weaker value seen like⟩

/-- What the other reader takes is put into another form. -/
theorem reshape
    {Last : α → δ → Prop}
    {read : Read α}
    {other : Read β}
    {change : β → δ}
    (alongside : Alongside Like read other)
    (keeps : ∀ value seen, Like value seen → Last value (change seen)) :
    Alongside Last read (do return change (← other)) := by
  intro bytes value rest succeeded
  obtain ⟨seen, also, like⟩ := alongside _ _ _ succeeded
  refine ⟨change seen, ?_, keeps value seen like⟩
  rw [StateT.run_bind, also]
  rfl

/-- Both readers begin with the same one. -/
theorem after
    {read : Read γ}
    {next : γ → Read α}
    {more : γ → Read β}
    (same : ∀ value, Alongside Like (next value) (more value)) :
    Alongside Like (read >>= next) (read >>= more) := by
  have alone : Alongside Eq read read :=
    fun _ value _ succeeded => ⟨value, succeeded, rfl⟩
  refine alone.bind ?_
  rintro value _ rfl
  exact same value

/-- The other reader can do without a reader that takes no bytes. -/
theorem still
    {read : Read γ}
    {next : γ → Read α}
    {other : Read β}
    (idle : Still read)
    (same : ∀ value, Alongside Like (next value) other) :
    Alongside Like (read >>= next) other := by
  intro bytes value rest succeeded
  obtain ⟨first, middle, opened, closed⟩ := exists_of_run_bind succeeded
  rw [idle _ _ _ opened] at closed
  exact same first _ _ _ closed

/-- A run of items is read alongside a run of the same length. -/
theorem many
    {step : Read α}
    {other : Read β}
    (each : Alongside Like step other)
    (count : Nat) :
    Alongside (List.Forall₂ Like) (readMany step count)
      (readMany other count) := by
  induction count with
  | zero =>
      exact .pure .nil
  | succ count inductionHypothesis =>
      refine each.bind fun first seen like => ?_
      refine inductionHypothesis.bind fun items also likes => ?_
      exact .pure (.cons like likes)

/-- A list that is preceded by its length, and what follows it. -/
theorem counted
    {Last : γ → δ → Prop}
    {step : Read α}
    {other : Read β}
    {next : List α → Read γ}
    {more : List β → Read δ}
    (each : Alongside Like step other)
    (following :
      ∀ items seen, List.Forall₂ Like items seen →
        Alongside Last (next items) (more seen)) :
    Alongside Last
      (do
        let count ← readU2
        let items ← readMany step count.toNat
        next items)
      (do
        let count ← readU2
        let items ← readMany other count.toNat
        more items) :=
  .after fun count => (each.many count.toNat).bind following

end Alongside

/-! ## Attributes -/

/-- Read an attribute as its name and content. -/
def readPlain (pool : ConstantPool) : Read Attribute := do
  let nameIndex ← readU2
  let length ← readU4
  let content ← readBytes length.toNat
  let name ← pool.text nameIndex
  return (name, content)

/-- Read a counted list of attributes as their names and contents. -/
def readPlains (pool : ConstantPool) : Read (List Attribute) := do
  let count ← readU2
  readMany (readPlain pool) count.toNat

/--
Attributes that take a reader from one state to another. What the reader leaves
of a content does not matter.
-/
inductive TakesIn (handle : σ → String → Read σ) :
    σ → List Attribute → σ → Prop where
  | none (state : σ) :
      TakesIn handle state [] state
  | next
      {start middle final : σ}
      {name : String}
      {content left : Bytes}
      {attributes : List Attribute}
      (handled : (handle start name).run content = .ok (middle, left))
      (rest : TakesIn handle middle attributes final) :
      TakesIn handle start ((name, content) :: attributes) final

/-- An attribute is taken in alongside its name and content as they stand. -/
theorem readAttribute_alongside
    (pool : ConstantPool)
    (handle : σ → String → Read σ)
    (start : σ) :
    Alongside
      (fun middle plain =>
        ∃ left, (handle start plain.1).run plain.2 = .ok (middle, left))
      (readAttribute pool handle start) (readPlain pool) := by
  refine .after fun nameIndex => .after fun length => .after fun content =>
    .after fun name => ?_
  unfold readWithin
  split
  · next middle left handled =>
      exact .pure ⟨left, handled⟩
  · exact .throw _ _

/-- Attributes are taken in one by one, alongside the plain list of them. -/
theorem readFold_alongside
    (pool : ConstantPool)
    (handle : σ → String → Read σ)
    (count : Nat)
    (start : σ) :
    Alongside (fun final attributes => TakesIn handle start attributes final)
      (readFold (readAttribute pool handle) count start)
      (readMany (readPlain pool) count) := by
  induction count generalizing start with
  | zero =>
      exact .pure (.none start)
  | succ count inductionHypothesis =>
      refine (readAttribute_alongside pool handle start).bind ?_
      rintro middle ⟨name, content⟩ ⟨left, handled⟩
      exact (inductionHypothesis middle).reshape fun final attributes taken =>
        .next handled taken

/-- So are attributes behind their count. -/
theorem readAttributes_alongside
    (pool : ConstantPool)
    (handle : σ → String → Read σ)
    (start : σ) :
    Alongside (fun final attributes => TakesIn handle start attributes final)
      (readAttributes pool handle start) (readPlains pool) :=
  .after fun count => readFold_alongside pool handle count.toNat start

/-! ## Members and classes -/

/-- Read a member as its attributes. -/
def readPlainMember (pool : ConstantPool) : Read (List Attribute) := do
  let _access ← readU2
  let _nameIndex ← readU2
  let _descriptorIndex ← readU2
  readPlains pool

/-- The constants of a class file, and the attributes of each of its methods. -/
structure Layout where
  pool : ConstantPool
  methods : List (List Attribute)
  deriving Repr, DecidableEq

/-- Read what follows the constant table. -/
def readPlainBody (pool : ConstantPool) : Read Layout := do
  let _access ← readU2
  let _thisClass ← readU2
  let _superClass ← readU2
  let interfaceCount ← readU2
  let _interfaces ← readMany readU2 interfaceCount.toNat
  let fieldCount ← readU2
  let _fields ← readMany (readPlainMember pool) fieldCount.toNat
  let methodCount ← readU2
  let methods ← readMany (readPlainMember pool) methodCount.toNat
  let _attributes ← readPlains pool
  return ⟨pool, methods⟩

/-- Read a whole class. -/
def readLayout : Read Layout := do
  let _magic ← readU4
  let _minorVersion ← readU2
  let _majorVersion ← readU2
  readPlainBody (← ConstantPool.read)

/-- The layout of the class a byte string starts with. -/
def layout (bytes : Bytes) : Except Fault Layout :=
  (readLayout.run bytes).map Prod.fst

/-- A method is what its attributes make of one without any. -/
def IsReadFrom
    (pool : ConstantPool)
    (method : MethodDecl)
    (attributes : List Attribute) :
    Prop :=
  ∃ access name descriptor,
    TakesIn (readMethodAttribute pool)
      { access := access, name := name, descriptor := descriptor }
      attributes method

/-- Fields and methods are laid out alike. -/
theorem readMember_alongside
    (pool : ConstantPool)
    (handle : σ → String → Read σ)
    (start : UInt16 → String → String → σ) :
    Alongside
      (fun member attributes =>
        ∃ access name descriptor,
          TakesIn handle (start access name descriptor) attributes member)
      (do
        let access ← readU2
        let name ← pool.text (← readU2)
        let descriptor ← pool.text (← readU2)
        readAttributes pool handle (start access name descriptor))
      (readPlainMember pool) := by
  refine .after fun access => .after fun nameIndex => ?_
  refine .still (pool.still_get _ nameIndex) fun name => ?_
  refine .after fun descriptorIndex => ?_
  refine .still (pool.still_get _ descriptorIndex) fun descriptor => ?_
  exact (readAttributes_alongside pool handle _).mono
    fun member attributes taken => ⟨access, name, descriptor, taken⟩

/-- A method is read from its attributes, alongside the plain member. -/
theorem readMethod_alongside
    (pool : ConstantPool) :
    Alongside (IsReadFrom pool) (readMethod pool) (readPlainMember pool) :=
  readMember_alongside pool (readMethodAttribute pool) _

/-- A field is read alongside the plain member. -/
theorem readField_alongside
    (pool : ConstantPool) :
    Alongside (fun _ _ => True) (readField pool) (readPlainMember pool) :=
  (readMember_alongside pool (readFieldAttribute pool) _).mono
    fun _ _ _ => trivial

/-- The attributes of a class do not change its methods. -/
theorem methods_of_takesIn
    {pool : ConstantPool}
    {start final : ClassDecl}
    {attributes : List Attribute}
    (taken : TakesIn (readClassAttribute pool) start attributes final) :
    final.methods = start.methods := by
  induction taken with
  | none =>
      rfl
  | next handled _ inductionHypothesis =>
      rw [inductionHypothesis]
      unfold readClassAttribute at handled
      split at handled
      · obtain ⟨_, _, -, handled⟩ := exists_of_run_bind handled
        obtain ⟨_, _, -, handled⟩ := exists_of_run_bind handled
        cases handled
        rfl
      · obtain ⟨_, _, -, handled⟩ := exists_of_run_bind handled
        cases handled
        rfl
      · obtain ⟨_, _, -, handled⟩ := exists_of_run_bind handled
        cases handled
        rfl
      · cases handled
        rfl

/-- A class has the methods that its file has, each with its attributes. -/
def HasLayout
    (decl : ClassDecl)
    (layout : Layout) :
    Prop :=
  List.Forall₂ (IsReadFrom layout.pool) decl.methods layout.methods

/-- A class body is read alongside its layout. -/
theorem readBody_alongside
    (majorVersion : UInt16)
    (pool : ConstantPool) :
    Alongside HasLayout (readBody majorVersion pool) (readPlainBody pool) := by
  refine .after fun access => .after fun thisClass => .after fun superClass =>
    .still (pool.still_className thisClass) fun name =>
      .still (pool.still_superName superClass) fun superName => ?_
  have interface :
      Alongside (fun _ _ => True) (do pool.className (← readU2)) readU2 := by
    intro bytes _ rest succeeded
    obtain ⟨index, middle, read, named⟩ := exists_of_run_bind succeeded
    rw [pool.still_className index _ _ _ named]
    exact ⟨index, read, trivial⟩
  refine interface.counted fun interfaces _ _ => ?_
  refine (readField_alongside pool).counted fun fields _ _ => ?_
  refine (readMethod_alongside pool).counted fun methods attributes read => ?_
  refine (readAttributes_alongside pool _ _).reshape fun decl _ taken => ?_
  rw [HasLayout, methods_of_takesIn taken]
  exact read

/-- A class is read alongside its layout. -/
theorem readClass_alongside :
    Alongside HasLayout readClass readLayout := by
  refine .after fun start => ?_
  dsimp only
  split
  · refine .after fun _ => .after fun majorVersion => .after fun pool => ?_
    exact readBody_alongside majorVersion pool
  · intro bytes decl rest succeeded
    cases succeeded

/-- Every file that can be decoded can be taken apart. -/
theorem exists_layout_of_decode
    {bytes : Bytes}
    {decl : ClassDecl}
    (decoded : decode bytes = .ok decl) :
    ∃ parts, layout bytes = .ok parts ∧ HasLayout decl parts := by
  unfold decode at decoded
  cases read : readClass.run bytes with
  | error fault =>
      rw [read] at decoded
      cases decoded
  | ok result =>
      rw [read] at decoded
      cases decoded
      obtain ⟨parts, also, same⟩ := readClass_alongside _ _ _ read
      exact ⟨parts, by rw [layout, also]; rfl, same⟩

end TypeAtlas.ClassFile
