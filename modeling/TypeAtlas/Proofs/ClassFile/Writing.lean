import TypeAtlas.Proofs.ClassFile.Canonical
import TypeAtlas.Proofs.ClassFile.Pool

namespace TypeAtlas.ClassFile

/-!
# What writing yields

Writing is stated against the table as it is in the end. A step of writing
yields a property if it only adds constants that can be written, and its result
has the property for every table that grows out of the one it leaves. Mostly
the property is that the bytes written are read back with that table.
-/

/--
A step only adds constants that can be written, and its result has a property
for every later table that fits the format.
-/
structure Yields
    (write : Write α)
    (Result : ConstantPool → α → Prop) :
    Prop where
  grows : ∀ draft, draft <+: (write.run draft).2
  writable :
    ∀ draft : Draft, (∀ constant ∈ draft, constant.Writable) →
      ∀ constant ∈ (write.run draft).2, constant.Writable
  result :
    ∀ draft final : Draft, (write.run draft).2 <+: final → final.Fits →
      Result final.pool (write.run draft).1

namespace Yields

theorem pure
    (value : α) :
    Yields (Pure.pure value) fun _ result => result = value :=
  ⟨fun _ => List.prefix_rfl, fun _ writable => writable, fun _ _ _ _ => rfl⟩

/-- A property of the result can be weakened. -/
theorem mono
    {write : Write α}
    {First Second : ConstantPool → α → Prop}
    (yields : Yields write First)
    (implies : ∀ pool result, First pool result → Second pool result) :
    Yields write Second :=
  ⟨yields.grows, yields.writable, fun draft final grows fits =>
    implies _ _ (yields.result draft final grows fits)⟩

/-- Two properties of the result hold together. -/
theorem and
    {write : Write α}
    {First Second : ConstantPool → α → Prop}
    (first : Yields write First)
    (second : Yields write Second) :
    Yields write fun pool result => First pool result ∧ Second pool result :=
  ⟨first.grows, first.writable, fun draft final grows fits =>
    ⟨first.result draft final grows fits,
      second.result draft final grows fits⟩⟩

/--
Steps one after another, the second knowing what the first one gave. What the
first one gives whatever was requested before is known at once.
-/
theorem bindGiven
    {write : Write α}
    {next : α → Write β}
    {First : ConstantPool → α → Prop}
    {Second : α → ConstantPool → β → Prop}
    (before : Yields write First)
    (Given : α → Prop)
    (gives : ∀ draft, Given (write.run draft).1)
    (after : ∀ value, Given value → Yields (next value) (Second value)) :
    Yields (write >>= next) fun pool result =>
      ∃ value, First pool value ∧ Second value pool result := by
  have later := fun draft => after _ (gives draft)
  refine ⟨fun draft => ?_, fun draft writable => ?_,
    fun draft final grows fits => ?_⟩
  · exact (before.grows draft).trans ((later draft).grows _)
  · exact (later draft).writable _ (before.writable draft writable)
  · refine ⟨(write.run draft).1, ?_, ?_⟩
    · exact before.result draft final
        (((later draft).grows _).trans grows) fits
    · exact (later draft).result _ final grows fits

/-- Steps in a row have the properties of each of them. -/
theorem bind
    {write : Write α}
    {next : α → Write β}
    {First : ConstantPool → α → Prop}
    {Second : α → ConstantPool → β → Prop}
    (before : Yields write First)
    (after : ∀ value, Yields (next value) (Second value)) :
    Yields (write >>= next) fun pool result =>
      ∃ value, First pool value ∧ Second value pool result :=
  before.bindGiven (fun _ => True) (fun _ => trivial) fun value _ => after value

/-- A step whose result is put into shape. -/
theorem map
    {write : Write α}
    {First : ConstantPool → α → Prop}
    {Second : ConstantPool → β → Prop}
    (yields : Yields write First)
    {change : α → β}
    (implies : ∀ pool result, First pool result → Second pool (change result)) :
    Yields (do return change (← write)) Second := by
  refine (yields.bind fun value => Yields.pure (change value)).mono ?_
  rintro pool result ⟨value, held, rfl⟩
  exact implies pool value held

end Yields

/-! ## Constants -/

/-- An index that is not zero leads to a constant. -/
def LeadsTo
    (constant : Constant)
    (pool : ConstantPool)
    (index : UInt16) :
    Prop :=
  index ≠ 0 ∧ pool.slots[index.toNat]? = some constant

/-- An index within a table that fits the format is not cut off. -/
theorem leadsTo_of_getElem?
    {final : Draft}
    (fits : final.Fits)
    {constant : Constant}
    {index : Nat}
    (positive : 0 < index)
    (there : final.pool.slots[index]? = some constant) :
    LeadsTo constant final.pool (UInt16.ofNat index) := by
  have bound : index ≤ 65534 := by
    have inside := (List.getElem?_eq_some_iff.mp there).1
    have slots := fits.slots
    simp only [Draft.pool, List.length_cons] at inside
    omega
  have whole : (UInt16.ofNat index).toNat = index := by
    rw [UInt16.toNat_ofNat']
    omega
  refine ⟨fun zero => ?_, by rw [whole, there]⟩
  rw [zero] at whole
  exact absurd whole.symm (Nat.ne_of_gt positive)

/-- A constant that is in the draft is not added again. -/
theorem intern_run_known
    {constant : Constant}
    {draft : Draft}
    {index : Nat}
    (known : draft.index? constant = some index) :
    (intern constant).run draft = (UInt16.ofNat index, draft) := by
  simp only [intern, StateT.run_bind, StateT.run_get, pure_bind, known]
  rfl

/-- A constant that is new is added at the end. -/
theorem intern_run_new
    {constant : Constant}
    {draft : Draft}
    (unknown : draft.index? constant = none) :
    (intern constant).run draft =
      (UInt16.ofNat draft.nextIndex, draft ++ [constant]) := by
  simp only [intern, StateT.run_bind, StateT.run_get, pure_bind, unknown]
  rfl

/-- The index handed out for a constant leads to it in every later table. -/
theorem intern_yields
    {constant : Constant}
    (writable : constant.Writable) :
    Yields (intern constant) (LeadsTo constant) := by
  constructor
  · intro draft
    cases known : Draft.index? constant draft with
    | some index =>
        rewrite [intern_run_known known]
        exact List.prefix_rfl
    | none =>
        rw [intern_run_new known]
        exact List.prefix_append _ _
  · intro draft others
    cases known : Draft.index? constant draft with
    | some index =>
        rw [intern_run_known known]
        exact others
    | none =>
        rw [intern_run_new known]
        intro added member
        rcases List.mem_append.mp member with old | new
        · exact others added old
        · rw [List.mem_singleton.mp new]
          exact writable
  · intro draft final grows fits
    cases known : Draft.index? constant draft with
    | some index =>
        rw [intern_run_known known] at grows ⊢
        obtain ⟨positive, there⟩ := Draft.getElem?_of_index? known
        exact leadsTo_of_getElem? fits positive
          (Draft.getElem?_pool_of_prefix grows there)
    | none =>
        rw [intern_run_new known] at grows ⊢
        refine leadsTo_of_getElem? fits ?_
          (Draft.getElem?_pool_of_prefix grows
            (draft.getElem?_nextIndex constant))
        exact Nat.lt_of_lt_of_le Nat.one_pos (Nat.le_add_right 1 _)

/-- The index of a text leads to the text. -/
theorem internText_yields
    {text : String}
    (short : Short text) :
    Yields (internText text) (LeadsTo (.text text)) :=
  intern_yields short

/-- What an index leads to is selected. -/
theorem LeadsTo.reads_get
    {constant : Constant}
    {pool : ConstantPool}
    {index : UInt16}
    (leads : LeadsTo constant pool index)
    {select : Constant → Option α}
    {value : α}
    (selects : select constant = some value) :
    Reads (pool.get select index) [] value := by
  intro rest
  simp only [ConstantPool.get, leads.2, Option.bind_some, selects]
  rfl

/-- A text is read at an index that leads to it. -/
theorem LeadsTo.reads_text
    {text : String}
    {pool : ConstantPool}
    {index : UInt16}
    (leads : LeadsTo (.text text) pool index) :
    Reads (pool.text index) [] text :=
  leads.reads_get rfl

/-- A two-byte field with the index of a text. -/
theorem LeadsTo.reads_textField
    {text : String}
    {pool : ConstantPool}
    {index : UInt16}
    (leads : LeadsTo (.text text) pool index) :
    Reads (do pool.text (← readU2)) (writeU2 index) text :=
  (reads_u2 index).bindNil leads.reads_text

/-- An index is written in two bytes. -/
theorem writeIndex_yields
    {request : Write UInt16}
    {Result : ConstantPool → UInt16 → Prop}
    (requests : Yields request Result) :
    Yields (writeIndex request) fun pool bytes =>
      ∃ index, Result pool index ∧ bytes = writeU2 index :=
  requests.map fun _ index held => ⟨index, held, rfl⟩

/-! ## Class names -/

/-- A name with slashes for points is read as the name. -/
theorem ofInternal_toInternal
    (name : TypeName) :
    TypeName.ofInternal (TypeName.toInternal name) =
      TypeName.ofInternal name :=
  replaceChar_replaceChar '/' '.' name

/-- A name is as long in its internal form. -/
theorem length_encodeText_toInternal
    (name : TypeName) :
    (encodeText (TypeName.toInternal name)).length =
      (encodeText name).length := by
  simp only [encodeText, Text.utf8Bytes, TypeName.toInternal, replaceChar,
    String.toList_ofList]
  induction name.toList with
  | nil =>
      rfl
  | cons c cs inductionHypothesis =>
      simp only [List.map_cons, List.flatMap_cons, List.length_append,
        inductionHypothesis]
      congr 1
      split
      · next isDot =>
          rw [isDot]
          rfl
      · rfl

/-- The index of a class, from which its name is read with dots. -/
def NamesClass
    (name : TypeName)
    (pool : ConstantPool)
    (index : UInt16) :
    Prop :=
  index ≠ 0 ∧ Reads (pool.className index) [] (TypeName.ofInternal name)

/-- A class is given an index behind that of its name. -/
theorem internClass_leads
    {name : TypeName}
    (short : Short name) :
    Yields (internClass name) fun pool index =>
      ∃ nameIndex,
        LeadsTo (.text (TypeName.toInternal name)) pool nameIndex ∧
          LeadsTo (.classRef nameIndex) pool index := by
  have internal : Short (TypeName.toInternal name) := by
    rw [Short, length_encodeText_toInternal]
    exact short
  exact (internText_yields internal).bind fun nameIndex =>
    intern_yields (show (Constant.classRef nameIndex).Writable from trivial)

/-- The index of a class leads to its name. -/
theorem internClass_yields
    {name : TypeName}
    (short : Short name) :
    Yields (internClass name) (NamesClass name) := by
  refine (internClass_leads short).mono ?_
  rintro pool index ⟨nameIndex, toText, toClass⟩
  refine ⟨toClass.1, ?_⟩
  have text : Reads (pool.text nameIndex) [] (TypeName.toInternal name) :=
    toText.reads_get rfl
  have named := text.map TypeName.ofInternal
  rw [ofInternal_toInternal] at named
  unfold ConstantPool.className
  refine Reads.bindNil (toClass.reads_get ?_) named
  rfl

/-! ## Lists -/

/-- What each item is read back as, all items are read back as in a row. -/
theorem writeEach_yields
    {write : α → Write Bytes}
    {read : ConstantPool → Read β}
    {value : α → β}
    {items : List α}
    (each :
      ∀ item ∈ items,
        Yields (write item) fun pool bytes =>
          Reads (read pool) bytes (value item)) :
    Yields (writeEach write items) fun pool bytes =>
      Reads (readMany (read pool) items.length) bytes (items.map value) := by
  induction items with
  | nil =>
      refine (Yields.pure []).mono fun pool bytes written => ?_
      rw [written]
      exact reads_pure []
  | cons item items inductionHypothesis =>
      have first := each item (by simp)
      have rest := inductionHypothesis fun later member =>
        each later (List.mem_cons_of_mem _ member)
      refine (first.bind fun head =>
        rest.bind fun tail => Yields.pure (head ++ tail)).mono ?_
      rintro pool bytes ⟨head, headRead, tail, tailRead, rfl⟩
      exact headRead.bind (tailRead.bindNil (reads_pure _))

/-- Items that are changed have the sizes of what they are changed to. -/
theorem totalSize_map
    (size : β → Nat)
    (change : α → β)
    (items : List α) :
    totalSize size (items.map change) =
      totalSize (fun item => size (change item)) items := by
  induction items with
  | nil =>
      rfl
  | cons item items inductionHypothesis =>
      simp only [List.map_cons, totalSize, inductionHypothesis]

/-- Items of one size add up to a multiple of it. -/
theorem totalSize_const
    (size : Nat)
    (items : List α) :
    totalSize (fun _ => size) items = size * items.length := by
  induction items with
  | nil =>
      rfl
  | cons item items inductionHypothesis =>
      rw [totalSize, inductionHypothesis, List.length_cons, Nat.mul_succ,
        Nat.add_comm]

/-- Items take as many bytes as they take one by one. -/
theorem writeEach_size
    {write : α → Write Bytes}
    {size : α → Nat}
    {items : List α}
    (each :
      ∀ item ∈ items,
        Yields (write item) fun _ bytes => bytes.length = size item) :
    Yields (writeEach write items) fun _ bytes =>
      bytes.length = totalSize size items := by
  induction items with
  | nil =>
      exact (Yields.pure []).mono fun _ _ written => by rw [written]; rfl
  | cons item items inductionHypothesis =>
      have first := each item (by simp)
      have rest := inductionHypothesis fun later member =>
        each later (List.mem_cons_of_mem _ member)
      refine (first.bind fun head =>
        rest.bind fun tail => Yields.pure (head ++ tail)).mono ?_
      rintro pool bytes ⟨head, headSize, tail, tailSize, rfl⟩
      rw [List.length_append, headSize, tailSize, totalSize]

end TypeAtlas.ClassFile
