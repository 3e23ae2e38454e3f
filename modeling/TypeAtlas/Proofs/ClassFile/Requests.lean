import Mathlib.Algebra.BigOperators.Group.Finset.Basic
import Mathlib.Algebra.Order.BigOperators.Group.Finset
import TypeAtlas.Proofs.ClassFile.Writing

namespace TypeAtlas.ClassFile

/-!
# Requests for constants

Writing asks for constants and goes on with the indexes that it is given, long
before the table is written. Two requests have one key if they ask for the same
constant, classes being told apart by the internal form of their names. The
table holds each key once, so keys and indexes determine each other, and the
table that is read back has at every index what was asked for there.

The invariant is that the constants of a draft and the keys requested so far
stand for each other. A class stands for its key only by way of the table, where
its name is found, so the invariant speaks of both.
-/

/-- What can be asked for. -/
inductive Request where
  | text (value : String)
  | integer (value : Int32)
  | float (bits : UInt32)
  | long (value : Int64)
  | double (bits : UInt64)
  | classNamed (name : TypeName)
  deriving Repr, DecidableEq

namespace Request

/-- The step that makes a request. -/
def make : Request → Write UInt16
  | text value => internText value
  | integer value => intern (.integer value)
  | float bits => intern (.float bits)
  | long value => intern (.long value)
  | double bits => intern (.double bits)
  | classNamed name => internClass name

/-- Requests one after another, with the indexes that they are given. -/
def makeAll : List Request → Write (List UInt16)
  | [] => return []
  | request :: requests => do
      let index ← request.make
      let rest ← makeAll requests
      return index :: rest

/-- What a request is told by: a class, by the internal form of its name. -/
def key : Request → Request
  | classNamed name => classNamed (TypeName.toInternal name)
  | request => request

/-- All that a request puts into the table: a class comes with its name. -/
def keys : Request → Finset Request
  | classNamed name =>
      let internal := TypeName.toInternal name
      {text internal, classNamed internal}
  | request => {request}

/-- The slots that what is asked for takes. -/
def slots : Request → Nat
  | long _ => 2
  | double _ => 2
  | _ => 1

/-- The slots that requests take together, each key being stored once. -/
def slotsUsed (requests : List Request) : Nat :=
  ∑ key ∈ requests.toFinset.biUnion keys, key.slots

/-- Whether the text that is asked for, if any, has at most 65535 bytes. -/
def IsShort : Request → Prop
  | text value => Short value
  | classNamed name => Short name
  | _ => True

instance : DecidablePred IsShort
  | text value => inferInstanceAs (Decidable (Short value))
  | classNamed name => inferInstanceAs (Decidable (Short name))
  | integer _ => inferInstanceAs (Decidable True)
  | float _ => inferInstanceAs (Decidable True)
  | long _ => inferInstanceAs (Decidable True)
  | double _ => inferInstanceAs (Decidable True)

/-- The constant is the one that was asked for, going by its table. -/
def Gets
    (pool : ConstantPool)
    (constant : Constant) :
    Request → Prop
  | text value => constant = .text value
  | integer value => constant = .integer value
  | float bits => constant = .float bits
  | long value => constant = .long value
  | double bits => constant = .double bits
  | classNamed name =>
      ∃ nameIndex : UInt16,
        constant = .classRef nameIndex ∧
          pool.slots[nameIndex.toNat]? = some (.text (TypeName.toInternal name))

/-- A table has at an index what was asked for. -/
structure FoundAt
    (pool : ConstantPool)
    (request : Request)
    (index : UInt16) :
    Prop where
  usable : index ≠ 0
  found :
    ∃ constant,
      pool.slots[index.toNat]? = some constant ∧ request.Gets pool constant
  /-- The slot after an eight-byte constant is blocked. -/
  blocked :
    request.slots = 2 → pool.slots[index.toNat + 1]? = some .unusable

end Request

/-! ## Slots of a table -/

namespace Constant

theorem mem_slots
    {constant slot : Constant}
    (member : slot ∈ constant.slots)
    (usable : slot ≠ unusable) :
    slot = constant := by
  cases constant <;> simp_all [slots]

theorem Writable.usable
    {constant : Constant}
    (writable : constant.Writable) :
    constant ≠ unusable := by
  rintro rfl
  exact writable

end Constant

namespace Draft

/-- What stands in a slot, and is no blocked slot, was put into the draft. -/
theorem mem_of_getElem?
    {draft : Draft}
    {constant : Constant}
    (usable : constant ≠ .unusable)
    {index : Nat}
    (there : draft.pool.slots[index]? = some constant) :
    constant ∈ draft := by
  have member := List.mem_of_getElem? there
  simp only [pool, List.mem_cons, usable, false_or, List.mem_flatMap] at member
  obtain ⟨owner, inside, slot⟩ := member
  rw [Constant.mem_slots slot usable]
  exact inside

/-- A constant is the first one, or stands among the slots of the others. -/
theorem cases_of_getElem?_pool_cons
    {first : Constant}
    {draft : Draft}
    {constant : Constant}
    (usable : constant ≠ .unusable)
    {index : Nat}
    (there : (pool (first :: draft)).slots[index]? = some constant) :
    index = 1 ∧ constant = first ∨
      ∃ place,
        index = place + 1 + first.width ∧
          draft.pool.slots[place + 1]? = some constant := by
  rcases Nat.lt_or_ge first.width index with beyond | within
  · obtain ⟨place, rfl⟩ : ∃ place, index = place + 1 + first.width :=
      ⟨index - first.width - 1, by omega⟩
    rw [getElem?_pool_cons] at there
    exact Or.inr ⟨place, rfl, there⟩
  · -- Slot zero is unusable, and so is what else the first constant takes.
    refine Or.inl ?_
    cases index with
    | zero =>
        simp only [pool, List.getElem?_cons_zero, Option.some.injEq] at there
        exact absurd there.symm usable
    | succ place =>
        have width : first.slots.length = first.width := rfl
        simp only [pool, List.flatMap_cons, List.getElem?_cons_succ] at there
        rw [List.getElem?_append_left (by omega)] at there
        have same := Constant.mem_slots (List.mem_of_getElem? there) usable
        refine ⟨?_, same⟩
        subst same
        cases constant with
        | long _ | double _ =>
            cases place with
            | zero =>
                rfl
            | succ place =>
                cases place <;> simp [Constant.slots] at there
        | text _ | integer _ | float _ | classRef _ | other | unusable =>
            cases place <;> simp [Constant.slots] at there ⊢

/-- A slot that is not blocked is the one that its constant is known by. -/
theorem index?_of_getElem?
    {draft : Draft}
    (distinct : draft.Nodup)
    {constant : Constant}
    (usable : constant ≠ .unusable)
    {index : Nat}
    (there : draft.pool.slots[index]? = some constant) :
    draft.index? constant = some index := by
  induction draft generalizing index with
  | nil =>
      have nothing := mem_of_getElem? usable there
      simp at nothing
  | cons first draft inductionHypothesis =>
      obtain ⟨absent, apart⟩ := List.nodup_cons.mp distinct
      rcases cases_of_getElem?_pool_cons usable there with
        ⟨rfl, rfl⟩ | ⟨place, rfl, later⟩
      · rw [index?, if_pos rfl]
      · have other : first ≠ constant := by
          rintro rfl
          exact absent (mem_of_getElem? usable later)
        rw [index?, if_neg other, inductionHypothesis apart later,
          Option.map_some]

theorem index?_eq_none_iff
    {draft : Draft}
    {constant : Constant} :
    draft.index? constant = none ↔ constant ∉ draft := by
  induction draft with
  | nil =>
      simp [index?]
  | cons first draft inductionHypothesis =>
      by_cases same : first = constant
      · simp [index?, same]
      · simp [index?, same, inductionHypothesis, Ne.symm same]

/-- The slot after an eight-byte constant is blocked. -/
theorem unusable_behind
    {draft : Draft}
    {constant : Constant}
    (wide : constant.width = 2)
    {index : Nat}
    (there : draft.pool.slots[index]? = some constant) :
    draft.pool.slots[index + 1]? = some .unusable := by
  have usable : constant ≠ .unusable := by
    rintro rfl
    simp [Constant.width, Constant.slots] at wide
  induction draft generalizing index with
  | nil =>
      have nothing := mem_of_getElem? usable there
      simp at nothing
  | cons first draft inductionHypothesis =>
      rcases cases_of_getElem?_pool_cons usable there with
        ⟨rfl, rfl⟩ | ⟨place, rfl, later⟩
      · cases constant with
        | long _ | double _ =>
            rfl
        | text _ | integer _ | float _ | classRef _ | other | unusable =>
            simp [Constant.width, Constant.slots] at wide
      · have moved :
            place + 1 + first.width + 1 = place + 1 + 1 + first.width := by
          omega
        rw [moved, getElem?_pool_cons]
        exact inductionHypothesis later

end Draft

/-! ## Keys and constants -/

theorem toInternal_toInternal
    (name : TypeName) :
    TypeName.toInternal (TypeName.toInternal name) =
      TypeName.toInternal name := by
  refine replaceChar_eq_self ?_
  simp only [TypeName.toInternal, replaceChar, String.toList_ofList,
    List.mem_map, not_exists, not_and]
  intro c _
  split
  · decide
  · assumption

namespace Request

variable {pool : ConstantPool} {request other : Request} {constant : Constant}

theorem key_key
    (request : Request) :
    request.key.key = request.key := by
  cases request with
  | classNamed name =>
      simp only [key, toInternal_toInternal]
  | text _ | integer _ | float _ | long _ | double _ =>
      rfl

/-- Going by its key, a request asks for the same. -/
theorem gets_key_iff :
    request.key.Gets pool constant ↔ request.Gets pool constant := by
  cases request with
  | classNamed name =>
      simp only [key, Gets, toInternal_toInternal]
  | text _ | integer _ | float _ | long _ | double _ =>
      exact Iff.rfl

theorem Gets.width_eq
    (gets : request.Gets pool constant) :
    constant.width = request.slots := by
  cases request with
  | classNamed name =>
      obtain ⟨nameIndex, rfl, -⟩ := gets
      rfl
  | text _ | integer _ | float _ | long _ | double _ =>
      cases gets
      rfl

theorem Gets.usable
    (gets : request.Gets pool constant) :
    constant ≠ .unusable := by
  rintro rfl
  cases request <;> simp [Gets] at gets

/-- A constant, with the table that it is in, tells what was asked for. -/
theorem Gets.key_eq
    (gets : request.Gets pool constant)
    (otherGets : other.Gets pool constant) :
    request.key = other.key := by
  cases request with
  | classNamed name =>
      obtain ⟨nameIndex, rfl, named⟩ := gets
      cases other with
      | classNamed otherName =>
          obtain ⟨otherIndex, same, otherNamed⟩ := otherGets
          cases same
          rw [named, Option.some.injEq, Constant.text.injEq] at otherNamed
          simp only [key, otherNamed]
      | text _ | integer _ | float _ | long _ | double _ =>
          exact absurd otherGets (by simp [Gets])
  | text _ | integer _ | float _ | long _ | double _ =>
      cases gets
      cases other with
      | classNamed otherName =>
          exact absurd otherGets (by simp [Gets])
      | text _ | integer _ | float _ | long _ | double _ =>
          cases otherGets <;> rfl

/-- What was asked for is found in every later table. -/
theorem Gets.of_prefix
    {draft final : Draft}
    (grows : draft <+: final)
    (gets : request.Gets draft.pool constant) :
    request.Gets final.pool constant := by
  cases request with
  | classNamed name =>
      obtain ⟨nameIndex, isClass, named⟩ := gets
      exact ⟨nameIndex, isClass, Draft.getElem?_pool_of_prefix grows named⟩
  | text _ | integer _ | float _ | long _ | double _ =>
      exact gets

/-- In a table without repetition, a key stands for one constant only. -/
theorem Gets.unique
    {draft : Draft}
    (distinct : draft.Nodup)
    {first second : Constant}
    (same : request.key = other.key)
    (gets : request.Gets draft.pool first)
    (otherGets : other.Gets draft.pool second) :
    first = second := by
  rw [← gets_key_iff, same, gets_key_iff] at gets
  cases other with
  | classNamed name =>
      obtain ⟨firstIndex, rfl, firstNamed⟩ := gets
      obtain ⟨secondIndex, rfl, secondNamed⟩ := otherGets
      have usable : Constant.text (TypeName.toInternal name) ≠ .unusable := by
        simp
      have place := (Draft.index?_of_getElem? distinct usable
        firstNamed).symm.trans
          (Draft.index?_of_getElem? distinct usable secondNamed)
      rw [Option.some.injEq, UInt16.toNat_inj] at place
      rw [place]
  | text _ | integer _ | float _ | long _ | double _ =>
      exact gets.trans otherGets.symm

end Request

/-! ## What a draft holds -/

/-- The constants of a draft and the keys asked for stand for each other. -/
structure Draft.Holds
    (keys : Finset Request)
    (draft : Draft) :
    Prop where
  distinct : draft.Nodup
  writable : ∀ constant ∈ draft, constant.Writable
  normal : ∀ key ∈ keys, key.key = key
  stored : ∀ key ∈ keys, ∃ constant ∈ draft, key.Gets draft.pool constant
  asked : ∀ constant ∈ draft, ∃ key ∈ keys, key.Gets draft.pool constant
  count :
    (draft.flatMap Constant.slots).length = ∑ key ∈ keys, key.slots

namespace Draft.Holds

variable {keys : Finset Request} {draft : Draft}

theorem empty :
    Holds ∅ [] := by
  constructor <;> simp

/-- As long as its slots fit, a draft is a table of the format. -/
theorem fits
    (holds : draft.Holds keys)
    (room : ∑ key ∈ keys, key.slots + 1 ≤ 65535) :
    draft.Fits := by
  refine ⟨?_, holds.writable⟩
  rw [holds.count]
  omega

/-- A request for one constant adds its key. -/
theorem intern
    (holds : draft.Holds keys)
    {key : Request}
    (normal : key.key = key)
    {constant : Constant}
    (writable : constant.Writable)
    (gets : key.Gets draft.pool constant) :
    Holds (insert key keys) ((intern constant).run draft).2 := by
  by_cases known : constant ∈ draft
  · -- The constant stands for a key already, and so it is this one.
    obtain ⟨other, member, otherGets⟩ := holds.asked constant known
    have same : other = key := by
      rw [← normal, ← holds.normal other member]
      exact otherGets.key_eq gets
    subst same
    obtain ⟨index, found⟩ := Option.ne_none_iff_exists'.mp
      (mt index?_eq_none_iff.mp (not_not.mpr known))
    rw [intern_run_known found, Finset.insert_eq_of_mem member]
    exact holds
  · have fresh : key ∉ keys := by
      intro member
      obtain ⟨stored, inside, storedGets⟩ := holds.stored key member
      rw [storedGets.unique holds.distinct rfl gets] at inside
      exact known inside
    have grows : draft <+: draft ++ [constant] := List.prefix_append _ _
    rw [intern_run_new (index?_eq_none_iff.mpr known)]
    exact
      { distinct := by
          simpa [List.nodup_append] using
            ⟨holds.distinct, fun present inside same => known (same ▸ inside)⟩
        writable := by
          intro present member
          rcases List.mem_append.mp member with old | new
          · exact holds.writable present old
          · rw [List.mem_singleton.mp new]
            exact writable
        normal := by
          intro other member
          rcases Finset.mem_insert.mp member with rfl | old
          · exact normal
          · exact holds.normal other old
        stored := by
          intro other member
          rcases Finset.mem_insert.mp member with rfl | old
          · exact ⟨constant, by simp, gets.of_prefix grows⟩
          · obtain ⟨stored, inside, storedGets⟩ := holds.stored other old
            exact ⟨stored, List.mem_append_left _ inside,
              storedGets.of_prefix grows⟩
        asked := by
          intro present member
          rcases List.mem_append.mp member with old | new
          · obtain ⟨asked, inside, askedGets⟩ := holds.asked present old
            exact ⟨asked, Finset.mem_insert_of_mem inside,
              askedGets.of_prefix grows⟩
          · rw [List.mem_singleton.mp new]
            exact ⟨key, Finset.mem_insert_self _ _, gets.of_prefix grows⟩
        count := by
          have width : constant.slots.length = key.slots := gets.width_eq
          rw [List.flatMap_append, List.length_append, holds.count,
            Finset.sum_insert fresh, Nat.add_comm]
          simp [width] }

/-- A request adds its keys, as long as there is room for them. -/
theorem make
    (holds : draft.Holds keys)
    {request : Request}
    (short : request.IsShort)
    (room : ∑ key ∈ request.keys ∪ keys, key.slots + 1 ≤ 65535) :
    Holds (request.keys ∪ keys) (request.make.run draft).2 := by
  cases request with
  | text value =>
      exact holds.intern rfl short rfl
  | integer _ | float _ | long _ | double _ =>
      exact holds.intern rfl trivial rfl
  | classNamed name =>
      let internal := TypeName.toInternal name
      have spelled : Short internal := by
        rw [Short, length_encodeText_toInternal]
        exact short
      let named := ((internText internal).run draft).2
      have holdsName : named.Holds (insert (.text internal) keys) :=
        holds.intern rfl spelled rfl
      have both :
          (Request.classNamed name).keys ∪ keys =
            insert (.classNamed internal) (insert (.text internal) keys) := by
        rw [Request.keys, Finset.insert_union, Finset.singleton_union,
          Finset.insert_comm]
      rw [both] at room ⊢
      -- The name is in the table by then, at the index that the class refers to.
      have fits : named.Fits := by
        refine holdsName.fits (le_trans ?_ room)
        exact Nat.add_le_add_right
          (Finset.sum_le_sum_of_subset (Finset.subset_insert _ _)) 1
      have leads :=
        (internText_yields spelled).result draft named List.prefix_rfl fits
      refine holdsName.intern (Request.key_key (.classNamed name)) trivial
        ⟨_, rfl, ?_⟩
      rw [toInternal_toInternal]
      exact leads.2

/-- All requests add their keys, as long as there is room for them. -/
theorem makeAll
    {requests : List Request}
    (short : ∀ request ∈ requests, request.IsShort)
    (holds : draft.Holds keys)
    (room :
      ∑ key ∈ requests.toFinset.biUnion Request.keys ∪ keys, key.slots + 1 ≤
        65535) :
    Holds (requests.toFinset.biUnion Request.keys ∪ keys)
      ((Request.makeAll requests).run draft).2 := by
  induction requests generalizing keys draft with
  | nil =>
      rw [List.toFinset_nil, Finset.biUnion_empty, Finset.empty_union]
      exact holds
  | cons request requests inductionHypothesis =>
      have together :
          (request :: requests).toFinset.biUnion Request.keys ∪ keys =
            requests.toFinset.biUnion Request.keys ∪
              (request.keys ∪ keys) := by
        rw [List.toFinset_cons, Finset.biUnion_insert, Finset.union_assoc,
          Finset.union_left_comm]
      rw [together] at room ⊢
      have first := holds.make (short request (by simp)) (le_trans
        (Nat.add_le_add_right
          (Finset.sum_le_sum_of_subset Finset.subset_union_right) 1) room)
      exact inductionHypothesis
        (fun later member => short later (List.mem_cons_of_mem _ member))
        first room

end Draft.Holds

/-! ## What requests are given -/

namespace Request

/-- A request is given an index that is not zero and leads to its constant. -/
theorem make_yields
    {request : Request}
    (short : request.IsShort) :
    Yields request.make fun pool index =>
      ∃ constant, LeadsTo constant pool index ∧ request.Gets pool constant := by
  cases request with
  | text value =>
      exact (internText_yields short).mono
        fun _ _ leads => ⟨_, leads, rfl⟩
  | integer _ | float _ | long _ | double _ =>
      refine (intern_yields ?_).mono fun _ _ leads => ⟨_, leads, rfl⟩
      trivial
  | classNamed name =>
      refine (internClass_leads short).mono ?_
      rintro pool index ⟨nameIndex, toText, toClass⟩
      exact ⟨_, toClass, nameIndex, rfl, toText.2⟩

theorem makeAll_yields
    {requests : List Request}
    (short : ∀ request ∈ requests, request.IsShort) :
    Yields (makeAll requests) fun pool indexes =>
      List.Forall₂
        (fun request index =>
          ∃ constant,
            LeadsTo constant pool index ∧ request.Gets pool constant)
        requests indexes := by
  induction requests with
  | nil =>
      exact (Yields.pure []).mono fun _ _ none => none ▸ .nil
  | cons request requests inductionHypothesis =>
      have first := make_yields (short request (by simp))
      have rest := inductionHypothesis fun later member =>
        short later (List.mem_cons_of_mem _ member)
      refine (first.bind fun index =>
        rest.bind fun indexes => Yields.pure (index :: indexes)).mono ?_
      rintro pool _ ⟨index, given, indexes, others, rfl⟩
      exact .cons given others

/-- Two requests are given one index exactly if they have one key. -/
theorem key_eq_iff
    {draft : Draft}
    (distinct : draft.Nodup)
    {request other : Request}
    {index otherIndex : UInt16}
    (found : request.FoundAt draft.pool index)
    (otherFound : other.FoundAt draft.pool otherIndex) :
    request.key = other.key ↔ index = otherIndex := by
  obtain ⟨constant, there, gets⟩ := found.found
  obtain ⟨otherConstant, otherThere, otherGets⟩ := otherFound.found
  constructor
  · intro same
    have one := gets.unique distinct same otherGets
    subst one
    have place := (Draft.index?_of_getElem? distinct gets.usable
      there).symm.trans
        (Draft.index?_of_getElem? distinct gets.usable otherThere)
    rwa [Option.some.injEq, UInt16.toNat_inj] at place
  · rintro rfl
    rw [there, Option.some.injEq] at otherThere
    subst otherThere
    exact gets.key_eq otherGets

/--
Requests whose slots fit are given indexes that are not zero, one for each key.
The table that is written begins with one more than the number of slots used.
It is read back from its bytes and from no more than these, and at each index
it has what was asked for.
-/
theorem constants_read_back
    {requests : List Request}
    (short : ∀ request ∈ requests, request.IsShort)
    (room : slotsUsed requests + 1 ≤ 65535) :
    let written := (makeAll requests).run []
    let indexes := written.1
    let draft := written.2
    ∃ (pool : ConstantPool) (count : UInt16) (constants : Bytes),
      draft.bytes = writeU2 count ++ constants ∧
        count.toNat = slotsUsed requests + 1 ∧
        pool.slots.length = slotsUsed requests + 1 ∧
        (∀ rest,
          ConstantPool.read.run (draft.bytes ++ rest) = .ok (pool, rest)) ∧
        List.Forall₂ (FoundAt pool) requests indexes ∧
        ∀ one ∈ requests.zip indexes, ∀ another ∈ requests.zip indexes,
          one.1.key = another.1.key ↔ one.2 = another.2 := by
  intro written indexes draft
  have everything :
      requests.toFinset.biUnion keys ∪ ∅ = requests.toFinset.biUnion keys :=
    Finset.union_empty _
  have holds : draft.Holds (requests.toFinset.biUnion keys) := by
    have all := Draft.Holds.empty.makeAll short (by rw [everything]; exact room)
    rwa [everything] at all
  have fits : draft.Fits := holds.fits room
  have size : (draft.flatMap Constant.slots).length = slotsUsed requests :=
    holds.count
  have found : List.Forall₂ (FoundAt draft.pool) requests indexes := by
    refine ((makeAll_yields short).result [] draft List.prefix_rfl fits).imp ?_
    rintro request index ⟨constant, leads, gets⟩
    refine ⟨leads.1, ⟨constant, leads.2, gets⟩, fun wide => ?_⟩
    exact Draft.unusable_behind (gets.width_eq.trans wide) leads.2
  refine ⟨draft.pool, UInt16.ofNat draft.nextIndex,
    draft.flatMap Constant.bytes, rfl, ?_, ?_, Draft.reads_pool fits, found, ?_⟩
  · rw [UInt16.toNat_ofNat', Draft.nextIndex, size]
    omega
  · simp [Draft.pool, size]
  · rintro ⟨request, index⟩ member ⟨other, otherIndex⟩ otherMember
    exact key_eq_iff holds.distinct
      ((List.forall₂_iff_zip.mp found).2 member)
      ((List.forall₂_iff_zip.mp found).2 otherMember)

/--
Requests of every width, some of them made twice: a class under both forms of
its name, which was asked for as a text before.
-/
def mixed : List Request :=
  [.text "a/B", .long (-1), .classNamed "a.B", .double 0, .classNamed "a/B",
    .float 0, .integer 0, .long (-1), .text ""]

theorem constants_read_back_mixed :
    (∀ request ∈ mixed, request.IsShort) ∧
      slotsUsed mixed = 9 ∧
      ((makeAll mixed).run []).1 = [1, 2, 4, 5, 4, 7, 8, 2, 9] ∧
      ∃ pool : ConstantPool,
        (∀ rest,
          ConstantPool.read.run (((makeAll mixed).run []).2.bytes ++ rest) =
            .ok (pool, rest)) ∧
          pool.slots.length = 10 ∧
          List.Forall₂ (FoundAt pool) mixed ((makeAll mixed).run []).1 := by
  have short : ∀ request ∈ mixed, request.IsShort := by
    decide +kernel
  have used : slotsUsed mixed = 9 := by
    decide +kernel
  obtain ⟨pool, -, -, -, -, size, read, found, -⟩ :=
    constants_read_back short (by rw [used]; decide)
  exact ⟨short, used, by decide +kernel, pool, read, by rw [size, used], found⟩

end Request

end TypeAtlas.ClassFile
