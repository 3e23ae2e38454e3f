import Mathlib.Logic.ExistsUnique
import TypeAtlas.Proofs.ClassFile.RoundTrip

namespace TypeAtlas.ClassFile

/-!
# Where a class file ends

A class file carries no length of its own, but it says itself where it ends.
Every reader that succeeds takes a piece off the front of the bytes that does
not hang on what follows it, and on any shorter piece of it the reader runs out
of bytes before it can object to anything else. This passes from single fields
to readers run one after another, and so to the whole file. The content of an
attribute is read apart from the rest, within bytes that were taken as a whole.
-/

/-- A reader takes exactly these bytes for a value, and can do with no fewer. -/
structure Consumes
    (read : Read α)
    (bytes : Bytes)
    (value : α) :
    Prop where
  reads : Reads read bytes value
  short :
    ∀ count < bytes.length,
      read.run (bytes.take count) = .error .unexpectedEnd

/-- Whenever a reader succeeds, it takes its value off the front. -/
def SelfDelimiting (read : Read α) : Prop :=
  ∀ bytes value rest,
    read.run bytes = .ok (value, rest) →
      ∃ front, bytes = front ++ rest ∧ Consumes read front value

/-! ## Readers one after another -/

theorem consumes_pure
    (value : α) :
    Consumes (pure value) [] value :=
  ⟨reads_pure value, by simp⟩

theorem selfDelimiting_pure
    (value : α) :
    SelfDelimiting (pure value : Read α) := by
  intro bytes read rest succeeded
  cases succeeded
  exact ⟨[], rfl, consumes_pure value⟩

/-- A fault consumes nothing, and no continuation mends it. -/
theorem selfDelimiting_throw
    (fault : Fault) :
    SelfDelimiting (throw fault : Read α) := by
  intro bytes value rest succeeded
  cases succeeded

/-- A reader that stops short makes all readers after it stop short. -/
theorem run_bind_error
    {read : Read α}
    {next : α → Read β}
    {bytes : Bytes}
    {fault : Fault}
    (failed : read.run bytes = .error fault) :
    (read >>= next).run bytes = .error fault := by
  rw [StateT.run_bind, failed]
  rfl

/-- Bytes are cut within the piece of the first reader, or behind it. -/
theorem Consumes.bind
    {read : Read α}
    {next : α → Read β}
    {bytes more : Bytes}
    {first : α}
    {second : β}
    (before : Consumes read bytes first)
    (after : Consumes (next first) more second) :
    Consumes (read >>= next) (bytes ++ more) second := by
  refine ⟨before.reads.bind after.reads, fun count less => ?_⟩
  by_cases within : count < bytes.length
  · rw [List.take_append_of_le_length (Nat.le_of_lt within)]
    exact run_bind_error (before.short count within)
  · have behind : count - bytes.length < more.length := by
      rw [List.length_append] at less
      omega
    rw [List.take_append, List.take_of_length_le (by omega),
      StateT.run_bind, before.reads]
    exact after.short _ behind

/-- Readers that find their ends by themselves do so one behind the other. -/
theorem SelfDelimiting.bind
    {read : Read α}
    {next : α → Read β}
    (before : SelfDelimiting read)
    (after : ∀ value, SelfDelimiting (next value)) :
    SelfDelimiting (read >>= next) := by
  intro bytes value rest succeeded
  rw [StateT.run_bind] at succeeded
  cases opened : read.run bytes with
  | error fault =>
      rw [opened] at succeeded
      cases succeeded
  | ok result =>
      obtain ⟨first, middle⟩ := result
      rw [opened] at succeeded
      obtain ⟨front, rfl, taken⟩ := before _ _ _ opened
      obtain ⟨more, rfl, takenAfter⟩ := after first _ _ _ succeeded
      exact ⟨front ++ more, by rw [List.append_assoc], taken.bind takenAfter⟩

/-- What is made of the value does not matter. -/
theorem SelfDelimiting.map
    {read : Read α}
    (delimited : SelfDelimiting read)
    (change : α → β) :
    SelfDelimiting (change <$> read) := by
  rw [← bind_pure_comp]
  exact delimited.bind fun value => selfDelimiting_pure (change value)

/-! ## Fields -/

/-- One byte is enough, and none is too few. -/
theorem selfDelimiting_u1 :
    SelfDelimiting readU1 := by
  intro bytes value rest succeeded
  match bytes with
  | [] =>
      cases succeeded
  | a :: tail =>
      cases succeeded
      refine ⟨[value], rfl, fun _ => rfl, fun count less => ?_⟩
      rw [List.length_singleton, Nat.lt_one_iff] at less
      rw [less]
      rfl

/-- Two bytes are two times one byte. -/
theorem selfDelimiting_u2 :
    SelfDelimiting readU2 := by
  intro bytes value rest succeeded
  match bytes with
  | [] | [_] =>
      cases succeeded
  | a :: b :: tail =>
      cases succeeded
      refine ⟨[a, b], rfl, fun _ => rfl, fun count less => ?_⟩
      match count with
      | 0 | 1 =>
          rfl

/-- Four bytes are two times two. -/
theorem selfDelimiting_u4 :
    SelfDelimiting readU4 := by
  intro bytes value rest succeeded
  match bytes with
  | [] | [_] | [_, _] | [_, _, _] =>
      cases succeeded
  | a :: b :: c :: d :: tail =>
      cases succeeded
      refine ⟨[a, b, c, d], rfl, fun _ => rfl, fun count less => ?_⟩
      match count with
      | 0 | 1 | 2 | 3 =>
          rfl

/-- Eight bytes are two times four. -/
theorem selfDelimiting_u8 :
    SelfDelimiting readU8 :=
  selfDelimiting_u4.bind fun _ => selfDelimiting_u4.bind fun _ =>
    selfDelimiting_pure _

/-- A run of bytes is split off the front, as long as it should be. -/
theorem append_of_splitBytes?
    {count : Nat}
    {bytes front rest : Bytes}
    (split : splitBytes? count bytes = some (front, rest)) :
    bytes = front ++ rest ∧ front.length = count := by
  induction count generalizing bytes front with
  | zero =>
      cases split
      exact ⟨rfl, rfl⟩
  | succ count inductionHypothesis =>
      cases bytes with
      | nil =>
          cases split
      | cons byte bytes =>
          simp only [splitBytes?, Option.map_eq_some_iff, Prod.mk.injEq,
            Prod.exists] at split
          obtain ⟨tail, _, inner, rfl, rfl⟩ := split
          obtain ⟨rfl, rfl⟩ := inductionHypothesis inner
          exact ⟨rfl, rfl⟩

/-- Bytes that are not there cannot be split off. -/
theorem splitBytes?_of_short
    {count : Nat}
    {bytes : Bytes}
    (short : bytes.length < count) :
    splitBytes? count bytes = none := by
  cases split : splitBytes? count bytes with
  | none =>
      rfl
  | some result =>
      obtain ⟨rfl, enough⟩ := append_of_splitBytes? split
      rw [List.length_append] at short
      omega

/-- A given number of bytes is read or missed. -/
theorem selfDelimiting_bytes
    (count : Nat) :
    SelfDelimiting (readBytes count) := by
  intro bytes value rest succeeded
  have split : splitBytes? count bytes = some (value, rest) := by
    change readBytes count bytes = _ at succeeded
    unfold readBytes at succeeded
    split at succeeded
    · next split =>
        rw [split]
        exact congrArg some (Except.ok.inj succeeded)
    · cases succeeded
  obtain ⟨rfl, rfl⟩ := append_of_splitBytes? split
  refine ⟨value, rfl, reads_bytes rfl, fun less shorter => ?_⟩
  change readBytes value.length (value.take less) = _
  rw [readBytes, splitBytes?_of_short]
  rw [List.length_take]
  omega

/-- Bytes that are skipped are read as well. -/
theorem selfDelimiting_skip
    (count : Nat) :
    SelfDelimiting (skip count) :=
  (selfDelimiting_bytes count).bind fun _ => selfDelimiting_pure _

/-- So is a given number of equal parts. -/
theorem selfDelimiting_many
    {step : Read α}
    (delimited : SelfDelimiting step)
    (count : Nat) :
    SelfDelimiting (readMany step count) := by
  induction count with
  | zero =>
      exact selfDelimiting_pure _
  | succ count inductionHypothesis =>
      exact delimited.bind fun _ => inductionHypothesis.bind fun _ =>
        selfDelimiting_pure _

/-- So are parts that a state is built from. -/
theorem selfDelimiting_fold
    {step : σ → Read σ}
    (delimited : ∀ state, SelfDelimiting (step state))
    (count : Nat)
    (state : σ) :
    SelfDelimiting (readFold step count state) := by
  induction count generalizing state with
  | zero =>
      exact selfDelimiting_pure _
  | succ count inductionHypothesis =>
      exact (delimited state).bind inductionHypothesis

/-- Bytes of their own are read without a look at the bytes that follow. -/
theorem selfDelimiting_within
    (body : Bytes)
    (step : Read α) :
    SelfDelimiting (readWithin body step) := by
  unfold readWithin
  split
  · exact selfDelimiting_pure _
  · exact selfDelimiting_throw _

/-! ## Constants -/

/-- A constant finds its end by its tag. -/
theorem selfDelimiting_constant :
    SelfDelimiting readConstant := by
  refine selfDelimiting_u1.bind fun tag => ?_
  split
  case h_1 =>
    exact selfDelimiting_u2.bind fun length =>
      (selfDelimiting_bytes length.toNat).bind fun _ => selfDelimiting_pure _
  case h_2 | h_3 =>
    exact selfDelimiting_u4.bind fun _ => selfDelimiting_pure _
  case h_4 | h_5 =>
    exact selfDelimiting_u8.bind fun _ => selfDelimiting_pure _
  case h_6 =>
    exact selfDelimiting_u2.bind fun _ => selfDelimiting_pure _
  case h_7 | h_8 | h_9 | h_10 =>
    exact (selfDelimiting_skip 2).bind fun _ => selfDelimiting_pure _
  case h_11 | h_12 | h_13 | h_14 | h_15 | h_16 =>
    exact (selfDelimiting_skip 4).bind fun _ => selfDelimiting_pure _
  case h_17 =>
    exact (selfDelimiting_skip 3).bind fun _ => selfDelimiting_pure _
  case h_18 =>
    exact selfDelimiting_throw _

/-- The slots of a pool find their end by their number. -/
theorem selfDelimiting_slots
    (missing : Nat) :
    SelfDelimiting (readSlots missing) := by
  induction missing using Nat.strongRecOn with
  | ind missing inductionHypothesis =>
      cases missing with
      | zero =>
          rw [readSlots]
          exact selfDelimiting_pure _
      | succ missing =>
          rw [readSlots]
          exact selfDelimiting_constant.bind fun constant =>
            (inductionHypothesis _ (by omega)).bind fun _ =>
              selfDelimiting_pure _

namespace ConstantPool

/-- A pool begins with that number. -/
theorem selfDelimiting_read :
    SelfDelimiting read :=
  selfDelimiting_u2.bind fun _ => (selfDelimiting_slots _).bind fun _ =>
    selfDelimiting_pure _

/-- Looking up a constant reads no bytes. -/
theorem selfDelimiting_get
    (pool : ConstantPool)
    (select : Constant → Option α)
    (index : UInt16) :
    SelfDelimiting (pool.get select index) := by
  unfold get
  split
  · exact selfDelimiting_pure _
  · exact selfDelimiting_throw _

/-- The name of a class is looked up without reading. -/
theorem selfDelimiting_className
    (pool : ConstantPool)
    (index : UInt16) :
    SelfDelimiting (pool.className index) :=
  (pool.selfDelimiting_get _ index).bind fun nameIndex =>
    (pool.selfDelimiting_get _ nameIndex).bind fun _ => selfDelimiting_pure _

/-- So is that of a superclass. -/
theorem selfDelimiting_superName
    (pool : ConstantPool)
    (index : UInt16) :
    SelfDelimiting (pool.superName index) := by
  unfold superName
  split
  · exact selfDelimiting_pure _
  · exact (pool.selfDelimiting_className index).map some

end ConstantPool

/-! ## Attributes and members -/

/-- An attribute is taken as a whole, whatever is made of its content. -/
theorem selfDelimiting_attributes
    (pool : ConstantPool)
    (handle : σ → String → Read σ)
    (start : σ) :
    SelfDelimiting (readAttributes pool handle start) := by
  refine selfDelimiting_u2.bind fun count =>
    selfDelimiting_fold (fun state => ?_) count.toNat start
  exact selfDelimiting_u2.bind fun nameIndex =>
    selfDelimiting_u4.bind fun length =>
      (selfDelimiting_bytes length.toNat).bind fun body =>
        (pool.selfDelimiting_get _ nameIndex).bind fun name =>
          selfDelimiting_within body (handle state name)

/-- A field ends where its attributes end. -/
theorem selfDelimiting_field
    (pool : ConstantPool) :
    SelfDelimiting (readField pool) :=
  selfDelimiting_u2.bind fun _ =>
    selfDelimiting_u2.bind fun name =>
      (pool.selfDelimiting_get _ name).bind fun _ =>
        selfDelimiting_u2.bind fun descriptor =>
          (pool.selfDelimiting_get _ descriptor).bind fun _ =>
            selfDelimiting_attributes pool _ _

/-- A method ends where its attributes end. -/
theorem selfDelimiting_method
    (pool : ConstantPool) :
    SelfDelimiting (readMethod pool) :=
  selfDelimiting_u2.bind fun _ =>
    selfDelimiting_u2.bind fun name =>
      (pool.selfDelimiting_get _ name).bind fun _ =>
        selfDelimiting_u2.bind fun descriptor =>
          (pool.selfDelimiting_get _ descriptor).bind fun _ =>
            selfDelimiting_attributes pool _ _

/-- A list that is preceded by its length, and what follows it. -/
theorem selfDelimiting_counted
    {step : Read α}
    {next : List α → Read β}
    (delimited : SelfDelimiting step)
    (after : ∀ items, SelfDelimiting (next items)) :
    SelfDelimiting (do
      let count ← readU2
      let items ← readMany step count.toNat
      next items) :=
  selfDelimiting_u2.bind fun count =>
    (selfDelimiting_many delimited count.toNat).bind after

/-- The body of a class finds its own end. -/
theorem selfDelimiting_body
    (majorVersion : UInt16)
    (pool : ConstantPool) :
    SelfDelimiting (readBody majorVersion pool) :=
  selfDelimiting_u2.bind fun _ =>
    selfDelimiting_u2.bind fun thisClass =>
      selfDelimiting_u2.bind fun superClass =>
        (pool.selfDelimiting_className thisClass).bind fun _ =>
          (pool.selfDelimiting_superName superClass).bind fun _ =>
            selfDelimiting_counted
              (selfDelimiting_u2.bind pool.selfDelimiting_className) fun _ =>
                selfDelimiting_counted (selfDelimiting_field pool) fun _ =>
                  selfDelimiting_counted (selfDelimiting_method pool) fun _ =>
                    selfDelimiting_attributes pool _ _

/-- So does a class file as a whole. -/
theorem selfDelimiting_class :
    SelfDelimiting readClass := by
  refine selfDelimiting_u4.bind fun start => ?_
  dsimp only
  split
  · exact selfDelimiting_u2.bind fun _ =>
      selfDelimiting_u2.bind fun majorVersion =>
        ConstantPool.selfDelimiting_read.bind fun pool =>
          selfDelimiting_body majorVersion pool
  · exact (selfDelimiting_throw _).bind fun _ =>
      selfDelimiting_u2.bind fun _ =>
        selfDelimiting_u2.bind fun majorVersion =>
          ConstantPool.selfDelimiting_read.bind fun pool =>
            selfDelimiting_body majorVersion pool

/-! ## Whole files -/

/--
The class that a byte string starts with ends after `length` bytes: with fewer
of them the reader runs out of bytes, and what comes after them is ignored.
-/
structure EndsAt
    (bytes : Bytes)
    (decl : ClassDecl)
    (length : Nat) :
    Prop where
  within : length ≤ bytes.length
  short :
    ∀ count < length, decode (bytes.take count) = .error .unexpectedEnd
  ignores : ∀ more, decode (bytes.take length ++ more) = .ok decl

/-- A class ends in one place only. -/
theorem EndsAt.unique
    {bytes : Bytes}
    {decl : ClassDecl}
    {length other : Nat}
    (ends : EndsAt bytes decl length)
    (also : EndsAt bytes decl other) :
    length = other := by
  have least :
      ∀ {one another : Nat},
        EndsAt bytes decl one → EndsAt bytes decl another →
          ¬ one < another := by
    intro one another first second less
    have whole := first.ignores []
    rw [List.append_nil, second.short one less] at whole
    cases whole
  exact Nat.le_antisymm (Nat.le_of_not_lt (least also ends))
    (Nat.le_of_not_lt (least ends also))

/-- A class ends where the bytes end that its reader takes. -/
theorem Consumes.endsAt
    {front rest : Bytes}
    {decl : ClassDecl}
    (taken : Consumes readClass front decl) :
    EndsAt (front ++ rest) decl front.length where
  within := by simp
  short := by
    intro count less
    rw [List.take_append_of_le_length (Nat.le_of_lt less), decode,
      taken.short count less]
    rfl
  ignores := by
    intro more
    rw [List.take_left, decode, taken.reads more]
    rfl

/--
Every byte string that can be decoded says itself where its class ends, and a
class that was written ends with the last byte that was written.
-/
theorem decode_endsAt :
    (∀ bytes decl, decode bytes = .ok decl →
      ∃! length, EndsAt bytes decl length) ∧
      ∀ decl : ClassDecl, decl.Fits →
        EndsAt (encode decl) decl.canonical (encode decl).length := by
  refine ⟨fun bytes decl decoded => ?_, fun decl fits => ?_⟩
  · have read :
        ∃ rest, readClass.run bytes = .ok (decl, rest) := by
      unfold decode at decoded
      cases result : readClass.run bytes with
      | error fault =>
          rw [result] at decoded
          cases decoded
      | ok pair =>
          rw [result] at decoded
          cases decoded
          exact ⟨pair.2, rfl⟩
    obtain ⟨rest, succeeded⟩ := read
    obtain ⟨front, rfl, taken⟩ := selfDelimiting_class _ _ _ succeeded
    exact ⟨front.length, taken.endsAt, fun other also =>
      also.unique taken.endsAt⟩
  · have whole := reads_encode fits []
    obtain ⟨front, same, taken⟩ := selfDelimiting_class _ _ _ whole
    rw [List.append_nil, List.append_nil] at same
    have ends : EndsAt (front ++ []) _ front.length := taken.endsAt
    rwa [List.append_nil, ← same] at ends

/-- A class with an interface and a signature. -/
def signedDecl : ClassDecl :=
  { access := 0x21
    name := "demo.Box"
    superName := some "java.lang.Object"
    interfaces := ["demo.Sized"]
    signature := some "Ljava/lang/Object;Ldemo/Sized;" }

/-- The end is found in the file as it was written, and with bytes behind it. -/
theorem decode_endsAt_signedDecl :
    signedDecl.Fits ∧
      EndsAt (encode signedDecl) signedDecl.canonical
        (encode signedDecl).length ∧
      decode (encode signedDecl ++ [0xCA, 0xFE]) = .ok signedDecl.canonical ∧
      ∃! length,
        EndsAt (encode signedDecl ++ [0xCA, 0xFE]) signedDecl.canonical
          length := by
  have fits : signedDecl.Fits :=
    { name := by decide +kernel
      superName := by decide +kernel
      interfaceCount := by decide +kernel
      interfaces := by decide +kernel
      fieldCount := by decide +kernel
      fields := fun _ member => absurd member List.not_mem_nil
      methodCount := by decide +kernel
      methods := fun _ member => absurd member List.not_mem_nil
      signature := by decide +kernel
      annotations :=
        ⟨⟨fun _ member => absurd member List.not_mem_nil,
          by decide +kernel⟩, by decide +kernel⟩
      constants := by decide +kernel }
  have longer :
      decode (encode signedDecl ++ [0xCA, 0xFE]) =
        .ok signedDecl.canonical := by
    rw [decode, reads_encode fits]
    rfl
  exact ⟨fits, decode_endsAt.2 signedDecl fits, longer,
    decode_endsAt.1 _ _ longer⟩

end TypeAtlas.ClassFile
