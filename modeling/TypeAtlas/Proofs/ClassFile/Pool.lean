import TypeAtlas.Proofs.ClassFile.Fields

namespace TypeAtlas.ClassFile

/-!
# Reading back constants

The indexes that writing hands out are good for the table as it is in the end:
constants are only ever added behind the others, so an index that leads to a
constant leads to it in every later table. A table that fits the format is read
back from its bytes, eight-byte constants with the slot they block.
-/

namespace Constant

/-- Constants that have bytes of their own, texts being short enough. -/
def Writable : Constant → Prop
  | text value => (encodeText value).length ≤ 65535
  | other => False
  | unusable => False
  | _ => True

theorem slots_eq_cons
    (constant : Constant) :
    ∃ rest, constant.slots = constant :: rest := by
  cases constant with
  | long _ | double _ =>
      exact ⟨[unusable], rfl⟩
  | text _ | integer _ | float _ | classRef _ | other | unusable =>
      exact ⟨[], rfl⟩

theorem width_pos
    (constant : Constant) :
    0 < constant.width := by
  obtain ⟨rest, shape⟩ := constant.slots_eq_cons
  simp [width, shape]

end Constant

/-- A constant is read back from its bytes. -/
theorem reads_constant
    {constant : Constant}
    (writable : constant.Writable) :
    Reads readConstant constant.bytes constant := by
  cases constant with
  | text value =>
      have length :
          (UInt16.ofNat (encodeText value).length).toNat =
            (encodeText value).length :=
        toNat_count16 writable
      have content :
          Reads (readBytes (UInt16.ofNat (encodeText value).length).toNat)
            (encodeText value) (encodeText value) :=
        reads_bytes length.symm
      have decoded := content.map fun bytes => Constant.text (decodeText bytes)
      rw [decodeText_encodeText] at decoded
      exact (reads_u1 1).bind ((reads_u2 _).bind decoded)
  | integer value =>
      exact (reads_u1 3).bind ((reads_u4 value.toUInt32).bindNil (reads_pure _))
  | float bits =>
      exact (reads_u1 4).bind ((reads_u4 bits).bindNil (reads_pure _))
  | long value =>
      exact (reads_u1 5).bind ((reads_u8 value.toUInt64).bindNil (reads_pure _))
  | double bits =>
      exact (reads_u1 6).bind ((reads_u8 bits).bindNil (reads_pure _))
  | classRef nameIndex =>
      exact (reads_u1 7).bind ((reads_u2 nameIndex).bindNil (reads_pure _))
  | other | unusable =>
      exact writable.elim

namespace Draft

/-- The table that a draft becomes. -/
def pool (draft : Draft) : ConstantPool :=
  ⟨.unusable :: draft.flatMap Constant.slots⟩

/-- A table that fits the format. -/
structure Fits (draft : Draft) : Prop where
  slots : (draft.flatMap Constant.slots).length ≤ 65534
  writable : ∀ constant ∈ draft, constant.Writable

end Draft

theorem reads_slots
    {draft : Draft}
    (writable : ∀ constant ∈ draft, constant.Writable) :
    Reads (readSlots (draft.flatMap Constant.slots).length)
      (draft.flatMap Constant.bytes) (draft.flatMap Constant.slots) := by
  induction draft with
  | nil =>
      rw [List.flatMap_nil, List.length_nil, readSlots]
      exact reads_pure []
  | cons constant draft inductionHypothesis =>
      have first := reads_constant (writable constant (by simp))
      have rest := inductionHypothesis fun later member =>
        writable later (List.mem_cons_of_mem _ member)
      have positive := constant.width_pos
      obtain ⟨missing, count⟩ :
          ∃ missing,
            ((constant :: draft).flatMap Constant.slots).length =
              missing + 1 := by
        refine Nat.exists_eq_add_one.mpr ?_
        simp only [List.flatMap_cons, List.length_append]
        exact Nat.add_pos_left positive _
      have left :
          missing - (constant.width - 1) =
            (draft.flatMap Constant.slots).length := by
        simp only [List.flatMap_cons, List.length_append] at count
        have width : constant.slots.length = constant.width := rfl
        omega
      rw [count, readSlots]
      simp only [List.flatMap_cons]
      refine first.bind ?_
      rw [left]
      exact rest.bindNil (reads_pure _)

namespace Draft

/-- A table that fits the format is read back from its bytes. -/
theorem reads_pool
    {draft : Draft}
    (fits : draft.Fits) :
    Reads ConstantPool.read draft.bytes draft.pool := by
  have count : (UInt16.ofNat draft.nextIndex).toNat = draft.nextIndex := by
    rw [UInt16.toNat_ofNat']
    have bound := fits.slots
    simp only [nextIndex]
    omega
  refine (reads_u2 _).bind ?_
  have missing :
      (UInt16.ofNat draft.nextIndex).toNat - 1 =
        (draft.flatMap Constant.slots).length := by
    rw [count, nextIndex]
    omega
  rw [missing]
  exact (reads_slots fits.writable).bindNil (reads_pure _)

/-! ## Indexes -/

/-- What an index leads to stays when constants are added. -/
theorem getElem?_pool_of_prefix
    {draft final : Draft}
    (grows : draft <+: final)
    {index : Nat}
    {constant : Constant}
    (there : draft.pool.slots[index]? = some constant) :
    final.pool.slots[index]? = some constant := by
  obtain ⟨added, rfl⟩ := grows
  have longer :
      (draft ++ added).pool.slots =
        draft.pool.slots ++ added.flatMap Constant.slots := by
    simp [pool]
  rw [longer, List.getElem?_append_left (List.getElem?_eq_some_iff.mp there).1,
    there]

/-- The slots of further constants stand behind those of the first one. -/
theorem getElem?_pool_cons
    (first : Constant)
    (draft : Draft)
    (place : Nat) :
    (pool (first :: draft)).slots[place + 1 + first.width]? =
      draft.pool.slots[place + 1]? := by
  have width : first.slots.length = first.width := rfl
  have moved : place + 1 + first.width = place + first.width + 1 := by
    omega
  rw [moved]
  simp only [pool, List.flatMap_cons, List.getElem?_cons_succ]
  rw [List.getElem?_append_right (by omega), width, Nat.add_sub_cancel]

/-- The index of a constant that was requested before leads to it. -/
theorem getElem?_of_index?
    {draft : Draft}
    {constant : Constant}
    {index : Nat}
    (known : draft.index? constant = some index) :
    0 < index ∧ draft.pool.slots[index]? = some constant := by
  induction draft generalizing index with
  | nil =>
      simp [index?] at known
  | cons first draft inductionHypothesis =>
      obtain ⟨rest, shape⟩ := first.slots_eq_cons
      simp only [index?] at known
      split at known
      · next same =>
          rw [Option.some.injEq] at known
          rw [← known, ← same]
          exact ⟨Nat.one_pos, by simp [pool, shape]⟩
      · obtain ⟨place, later, shifted⟩ := Option.map_eq_some_iff.mp known
        obtain ⟨positive, there⟩ := inductionHypothesis later
        obtain ⟨before, rfl⟩ := Nat.exists_eq_add_one.mpr positive
        have moved : index = before + 1 + first.width := by
          omega
        rw [moved, getElem?_pool_cons]
        exact ⟨by omega, there⟩

/-- The next index leads to the constant that is added. -/
theorem getElem?_nextIndex
    (draft : Draft)
    (constant : Constant) :
    (draft ++ [constant] : Draft).pool.slots[draft.nextIndex]? =
      some constant := by
  obtain ⟨rest, shape⟩ := constant.slots_eq_cons
  simp only [pool, nextIndex, List.flatMap_append, List.flatMap_cons,
    List.flatMap_nil, List.append_nil, Nat.add_comm 1,
    List.getElem?_cons_succ]
  rw [List.getElem?_append_right (Nat.le_refl _), Nat.sub_self, shape]
  rfl

end Draft

end TypeAtlas.ClassFile
