import TypeAtlas.Proofs.ClassFile.Writing

namespace TypeAtlas.ClassFile

/-!
# Reading back annotations

An element value is read back from its bytes by every reader that goes deep
enough, and as many values inside one another as there are bytes is always
enough. Annotations inside it come back with the visibility of the outermost
one.
-/

/-! ## Readers of values -/

/--
A reader of values that reads whatever is written on at most the given number
of bytes.
-/
def ReadsUpTo
    (pool : ConstantPool)
    (visible : Bool)
    (read : Read ElementValue)
    (limit : Nat) :
    Prop :=
  ∀ (bytes : Bytes) (value : ElementValue),
    bytes.length ≤ limit →
      (∀ depth, bytes.length ≤ depth →
        Reads (readValueWithin pool visible depth) bytes value) →
        Reads read bytes value

theorem readsUpTo_within
    {pool : ConstantPool}
    {visible : Bool}
    {depth limit : Nat}
    (enough : limit ≤ depth) :
    ReadsUpTo pool visible (readValueWithin pool visible depth) limit :=
  fun _ _ short reads => reads depth (Nat.le_trans short enough)

/-- As many values inside one another as there are bytes is always enough. -/
theorem readsUpTo_readValue
    (pool : ConstantPool)
    (visible : Bool)
    (limit : Nat) :
    ReadsUpTo pool visible (readValue pool visible) limit := by
  intro bytes value _ reads rest
  have here := reads (bytes ++ rest).length (by simp) rest
  exact here

theorem ReadsUpTo.mono
    {pool : ConstantPool}
    {visible : Bool}
    {read : Read ElementValue}
    {limit smaller : Nat}
    (reads : ReadsUpTo pool visible read limit)
    (less : smaller ≤ limit) :
    ReadsUpTo pool visible read smaller :=
  fun bytes value short => reads bytes value (Nat.le_trans short less)

/-! ## Plain values -/

/-- A value is read from its tag and what its tag leads the reader to. -/
theorem reads_tagged
    {pool : ConstantPool}
    {visible : Bool}
    {depth : Nat}
    {tag : UInt8}
    {next : Read ElementValue}
    {content : Bytes}
    {value : ElementValue}
    (reads : Reads next content value)
    (dispatch :
      ∀ bytes,
        (readValueWithin pool visible (depth + 1)).run (tag :: bytes) =
          next.run bytes) :
    Reads (readValueWithin pool visible (depth + 1)) (tag :: content) value :=
  fun rest => (dispatch (content ++ rest)).trans (reads rest)

/--
A value written as a tag and the index of a constant is read back if the tag
leads the reader to that kind of constant.
-/
theorem writeTagged_yields
    (visible : Bool)
    (tag : Char)
    (convert : α → ElementValue)
    {constant : Constant}
    {select : ConstantPool → UInt16 → Read α}
    {raw : α}
    (selects :
      ∀ pool index, LeadsTo constant pool index →
        Reads (select pool index) [] raw)
    (writable : constant.Writable)
    (dispatch :
      ∀ pool depth bytes,
        (readValueWithin pool visible (depth + 1)).run
            (tag.toUInt8 :: bytes) =
          StateT.run (do return convert (← select pool (← readU2))) bytes) :
    Yields (writeTagged tag (intern constant)) fun pool bytes =>
      bytes.length = 3 ∧
        ∀ depth,
          Reads (readValueWithin pool visible (depth + 1)) bytes
            (convert raw) := by
  refine (intern_yields writable).map fun pool index leads =>
    ⟨rfl, fun depth => ?_⟩
  have selected :
      Reads (do return convert (← select pool (← readU2))) (writeU2 index)
        (convert raw) :=
    (reads_u2 index).bindNil
      ((selects pool index leads).bindNil (reads_pure (convert raw)))
  exact reads_tagged selected (dispatch pool depth)

theorem charOfCode_toUInt32
    (c : Char) :
    charOfCode c.val.toInt32.toUInt32 = c := by
  have code : c.val.toInt32.toUInt32 = c.val := rfl
  rw [charOfCode, code, dif_pos c.valid]

/-- A plain value is read back as it is. -/
theorem writeScalar_yields
    (visible : Bool)
    {scalar : Scalar}
    (fits : (ElementValue.scalar scalar).Fits) :
    Yields (writeScalar scalar) fun pool bytes =>
      bytes.length = 3 ∧
        ∀ depth,
          Reads (readValueWithin pool visible (depth + 1)) bytes
            (.scalar scalar) := by
  have integer :
      ∀ (value : Int32) (pool : ConstantPool) (index : UInt16),
        LeadsTo (.integer value) pool index →
          Reads (pool.integer index) [] value :=
    fun _ _ _ leads => leads.reads_get rfl
  cases scalar with
  | byte value =>
      have yields := writeTagged_yields visible 'B'
        (fun read : Int32 => .scalar (.byte read.toInt8))
        (integer value.toInt32) trivial fun _ _ _ => rfl
      rwa [Int8.toInt8_toInt32] at yields
  | char value =>
      have yields := writeTagged_yields visible 'C'
        (fun read : Int32 => .scalar (.char (charOfCode read.toUInt32)))
        (integer value.val.toInt32) trivial fun _ _ _ => rfl
      rwa [charOfCode_toUInt32] at yields
  | short value =>
      have yields := writeTagged_yields visible 'S'
        (fun read : Int32 => .scalar (.short read.toInt16))
        (integer value.toInt32) trivial fun _ _ _ => rfl
      rwa [Int16.toInt16_toInt32] at yields
  | boolean value =>
      have yields := writeTagged_yields visible 'Z'
        (fun read : Int32 => .scalar (.boolean (read != 0)))
        (integer (if value then 1 else 0)) trivial fun _ _ _ => rfl
      have decoded : ((if value then 1 else 0 : Int32) != 0) = value := by
        cases value <;> rfl
      rwa [decoded] at yields
  | int value =>
      exact writeTagged_yields visible 'I'
        (fun read : Int32 => .scalar (.int read))
        (integer value) trivial fun _ _ _ => rfl
  | long value =>
      exact writeTagged_yields visible 'J'
        (fun read : Int64 => .scalar (.long read))
        (fun pool index leads => show Reads (pool.long index) [] value from
          leads.reads_get rfl)
        trivial fun _ _ _ => rfl
  | float bits =>
      exact writeTagged_yields visible 'F'
        (fun read : UInt32 => .scalar (.float read))
        (fun pool index leads => show Reads (pool.float index) [] bits from
          leads.reads_get rfl)
        trivial fun _ _ _ => rfl
  | double bits =>
      exact writeTagged_yields visible 'D'
        (fun read : UInt64 => .scalar (.double read))
        (fun pool index leads => show Reads (pool.double index) [] bits from
          leads.reads_get rfl)
        trivial fun _ _ _ => rfl
  | text value =>
      have short : Short value := by
        simpa only [ElementValue.Fits] using fits
      exact writeTagged_yields visible 's'
        (fun read : String => .scalar (.text read))
        (fun _ _ leads => leads.reads_text)
        short fun _ _ _ => rfl

/-! ## Values and annotations -/

/-- Bytes that every reader that goes deep enough reads a value from. -/
structure HoldsValue
    (visible : Bool)
    (value : ElementValue)
    (pool : ConstantPool)
    (bytes : Bytes) :
    Prop where
  size : bytes.length = value.byteSize
  reads :
    ∀ depth, bytes.length ≤ depth →
      Reads (readValueWithin pool visible depth) bytes
        (value.withVisibility visible)

/-- Bytes that hold the items of an array. -/
structure HoldsItems
    (visible : Bool)
    (items : List ElementValue)
    (pool : ConstantPool)
    (bytes : Bytes) :
    Prop where
  size : bytes.length = ElementValue.byteSizeOfItems items
  reads :
    ∀ read, ReadsUpTo pool visible read bytes.length →
      Reads (readMany read items.length) bytes
        (ElementValue.itemsWithVisibility visible items)

/-- Bytes that hold an annotation. -/
structure HoldsAnnotationDecl
    (visible : Bool)
    (decl : AnnotationDecl)
    (pool : ConstantPool)
    (bytes : Bytes) :
    Prop where
  size : bytes.length = decl.byteSize
  reads :
    ∀ read, ReadsUpTo pool visible read bytes.length →
      Reads (readAnnotationWith pool visible read) bytes
        (decl.withVisibility visible)

/-- Bytes that hold named values. -/
structure HoldsPairs
    (visible : Bool)
    (pairs : List (String × ElementValue))
    (pool : ConstantPool)
    (bytes : Bytes) :
    Prop where
  size : bytes.length = AnnotationDecl.byteSizeOfPairs pairs
  reads :
    ∀ read, ReadsUpTo pool visible read bytes.length →
      Reads
        (readMany (do
            let name ← pool.text (← readU2)
            return (name, ← read))
          pairs.length)
        bytes (AnnotationDecl.pairsWithVisibility visible pairs)

/-- Every value is read a step deeper than nothing, as it takes a byte. -/
theorem HoldsValue.of_succ
    {visible : Bool}
    {value : ElementValue}
    {pool : ConstantPool}
    {bytes : Bytes}
    (size : bytes.length = value.byteSize)
    (positive : 0 < bytes.length)
    (reads :
      ∀ depth, bytes.length ≤ depth + 1 →
        Reads (readValueWithin pool visible (depth + 1)) bytes
          (value.withVisibility visible)) :
    HoldsValue visible value pool bytes := by
  refine ⟨size, fun depth enough => ?_⟩
  obtain ⟨inner, rfl⟩ : ∃ inner, depth = inner + 1 :=
    Nat.exists_eq_add_one.mpr (Nat.lt_of_lt_of_le positive enough)
  exact reads inner enough

/-- A tag and an index hold a value that no annotation is inside of. -/
theorem HoldsValue.of_index
    {visible : Bool}
    {value : ElementValue}
    {pool : ConstantPool}
    {bytes : Bytes}
    (size : value.byteSize = 3)
    (plain : value.withVisibility visible = value)
    (held :
      bytes.length = 3 ∧
        ∀ depth,
          Reads (readValueWithin pool visible (depth + 1)) bytes value) :
    HoldsValue visible value pool bytes := by
  refine .of_succ (held.1.trans size.symm) (by simp [held.1]) fun depth _ => ?_
  rw [plain]
  exact held.2 depth

mutual

/-- A value is read back with the visibility it is read with. -/
theorem writeValue_yields
    (visible : Bool) :
    (value : ElementValue) →
      value.Fits →
        Yields (writeValue value) (HoldsValue visible value)
  | .scalar scalar, fits => by
      rw [writeValue]
      exact (writeScalar_yields visible fits).mono fun _ _ =>
        .of_index (by rw [ElementValue.byteSize])
          (by rw [ElementValue.withVisibility])
  | .enumConstant descriptor constant, fits => by
      rw [ElementValue.Fits] at fits
      rw [writeValue]
      refine ((writeIndex_yields (internText_yields fits.1)).bind fun type =>
        (writeIndex_yields (internText_yields fits.2)).bind fun name =>
          Yields.pure ('e'.toUInt8 :: type ++ name)).mono ?_
      rintro pool bytes
        ⟨_, ⟨type, toType, rfl⟩, _, ⟨name, toName, rfl⟩, rfl⟩
      refine HoldsValue.of_succ ?_ (by simp) fun depth _ => ?_
      · rw [ElementValue.byteSize]
        rfl
      · rw [ElementValue.withVisibility]
        have content :
            Reads
              (do
                let descriptor ← pool.text (← readU2)
                let constant ← pool.text (← readU2)
                return ElementValue.enumConstant descriptor constant)
              (writeU2 type ++ writeU2 name)
              (.enumConstant descriptor constant) :=
          (reads_u2 type).bind (toType.reads_text.bind
            ((reads_u2 name).bind (toName.reads_text.bind (reads_pure _))))
        exact reads_tagged content fun _ => rfl
  | .classLiteral descriptor, fits => by
      rw [ElementValue.Fits] at fits
      rw [writeValue]
      exact (writeTagged_yields visible 'c'
        (fun read : String => .classLiteral read)
        (fun _ _ leads => leads.reads_text)
        (show (Constant.text descriptor).Writable from fits)
        fun _ _ _ => rfl).mono fun _ _ =>
          .of_index (by rw [ElementValue.byteSize])
            (by rw [ElementValue.withVisibility])
  | .annotated decl, fits => by
      rw [ElementValue.Fits] at fits
      rw [writeValue]
      refine (writeAnnotationDecl_yields visible decl fits).map
        fun pool bytes held => ?_
      refine HoldsValue.of_succ ?_ (by simp) fun depth enough => ?_
      · rw [ElementValue.byteSize, List.length_cons, held.size, Nat.add_comm]
      · rw [ElementValue.withVisibility]
        have inside := held.reads _
          (readsUpTo_within (Nat.le_of_succ_le_succ enough))
        exact reads_tagged (inside.map ElementValue.annotated) fun _ => rfl
  | .array items, fits => by
      rw [ElementValue.Fits] at fits
      rw [writeValue]
      refine (writeItems_yields visible items fits.2).map
        fun pool bytes held => ?_
      refine HoldsValue.of_succ ?_ (by simp) fun depth enough => ?_
      · rw [ElementValue.byteSize, ← held.size]
        simp [count16]
        omega
      · rw [ElementValue.withVisibility]
        have inside := held.reads (readValueWithin pool visible depth)
          (readsUpTo_within (by simp [count16] at enough; omega))
        rw [← toNat_count16 fits.1] at inside
        have content :
            Reads
              (do
                let count ← readU2
                let items ← readMany (readValueWithin pool visible depth)
                  count.toNat
                return ElementValue.array items)
              (count16 items ++ bytes)
              (.array (ElementValue.itemsWithVisibility visible items)) :=
          (reads_u2 _).bind (inside.bindNil (reads_pure _))
        exact reads_tagged content fun _ => rfl

theorem writeItems_yields
    (visible : Bool) :
    (items : List ElementValue) →
      ElementValue.FitItems items →
        Yields (writeItems items) (HoldsItems visible items)
  | [], _ => by
      rw [writeItems]
      refine (Yields.pure []).mono fun pool bytes written => ?_
      refine ⟨?_, fun read _ => ?_⟩
      · rw [written, ElementValue.byteSizeOfItems, List.length_nil]
      · rw [written, ElementValue.itemsWithVisibility]
        exact reads_pure []
  | item :: items, fits => by
      rw [ElementValue.FitItems] at fits
      rw [writeItems]
      refine ((writeValue_yields visible item fits.1).bind fun first =>
        (writeItems_yields visible items fits.2).bind fun rest =>
          Yields.pure (first ++ rest)).mono ?_
      rintro pool bytes ⟨first, firstHeld, rest, restHeld, rfl⟩
      refine ⟨?_, fun read upTo => ?_⟩
      · rw [ElementValue.byteSizeOfItems, List.length_append, firstHeld.size,
          restHeld.size]
      · rw [ElementValue.itemsWithVisibility]
        rw [List.length_append] at upTo
        have head := upTo first _ (Nat.le_add_right _ _) firstHeld.reads
        have tail := restHeld.reads read (upTo.mono (Nat.le_add_left _ _))
        exact head.bind (tail.bindNil (reads_pure _))

/-- An annotation is read back with the visibility it is read with. -/
theorem writeAnnotationDecl_yields
    (visible : Bool) :
    (decl : AnnotationDecl) →
      decl.Fits →
        Yields (writeAnnotationDecl decl) (HoldsAnnotationDecl visible decl)
  | ⟨descriptor, own, values⟩, fits => by
      rw [AnnotationDecl.Fits] at fits
      rw [writeAnnotationDecl]
      refine ((writeIndex_yields (internText_yields fits.1)).bind fun type =>
        (writePairs_yields visible values fits.2.2).bind fun pairs =>
          Yields.pure (type ++ count16 values ++ pairs)).mono ?_
      rintro pool bytes ⟨_, ⟨type, toType, rfl⟩, pairs, pairsHeld, rfl⟩
      refine ⟨?_, fun read upTo => ?_⟩
      · rw [AnnotationDecl.byteSize, ← pairsHeld.size]
        simp [count16]
        omega
      · rw [AnnotationDecl.withVisibility]
        have inside := pairsHeld.reads read
          (upTo.mono (by simp only [List.length_append]; omega))
        rw [← toNat_count16 fits.2.1] at inside
        exact (reads_u2 type).bind (toType.reads_text.bind
          ((reads_u2 _).bind (inside.bindNil (reads_pure _))))

theorem writePairs_yields
    (visible : Bool) :
    (pairs : List (String × ElementValue)) →
      AnnotationDecl.FitPairs pairs →
        Yields (writePairs pairs) (HoldsPairs visible pairs)
  | [], _ => by
      rw [writePairs]
      refine (Yields.pure []).mono fun pool bytes written => ?_
      refine ⟨?_, fun read _ => ?_⟩
      · rw [written, AnnotationDecl.byteSizeOfPairs, List.length_nil]
      · rw [written, AnnotationDecl.pairsWithVisibility]
        exact reads_pure []
  | (key, value) :: pairs, fits => by
      rw [AnnotationDecl.FitPairs] at fits
      rw [writePairs]
      refine ((writeIndex_yields (internText_yields fits.1)).bind fun name =>
        (writeValue_yields visible value fits.2.1).bind fun first =>
          (writePairs_yields visible pairs fits.2.2).bind fun rest =>
            Yields.pure (name ++ first ++ rest)).mono ?_
      rintro pool bytes ⟨_, ⟨name, toName, rfl⟩, first, firstHeld, rest,
        restHeld, rfl⟩
      refine ⟨?_, fun read upTo => ?_⟩
      · rw [AnnotationDecl.byteSizeOfPairs, List.length_append,
          List.length_append, length_writeU2, firstHeld.size, restHeld.size]
      · rw [AnnotationDecl.pairsWithVisibility]
        simp only [List.length_append] at upTo
        have head := upTo first _ (by omega) firstHeld.reads
        have tail := restHeld.reads read (upTo.mono (by omega))
        have pair :
            Reads
              (do
                let name ← pool.text (← readU2)
                return (name, ← read))
              (writeU2 name ++ first) (key, value.withVisibility visible) :=
          (reads_u2 name).bind (toName.reads_text.bind
            (head.bindNil (reads_pure _)))
        exact pair.bind (tail.bindNil (reads_pure _))

end

/-! ## Lists of annotations -/

/-- Bytes that hold a counted list of annotations. -/
structure HoldsAnnotations
    (visible : Bool)
    (annotations : List AnnotationDecl)
    (pool : ConstantPool)
    (bytes : Bytes) :
    Prop where
  size : bytes.length = annotationsSize annotations
  reads :
    Reads (readAnnotations pool visible) bytes
      (annotations.map (·.withVisibility visible))

theorem writeAnnotations_yields
    (visible : Bool)
    {annotations : List AnnotationDecl}
    (each : ∀ annotation ∈ annotations, annotation.Fits)
    (count : annotations.length ≤ 65535) :
    Yields (writeAnnotations annotations)
      (HoldsAnnotations visible annotations) := by
  have written :
      ∀ annotation ∈ annotations,
        Yields (writeAnnotationDecl annotation)
          (HoldsAnnotationDecl visible annotation) :=
    fun annotation member =>
      writeAnnotationDecl_yields visible annotation (each annotation member)
  have sizes := writeEach_size fun annotation member =>
    (written annotation member).mono fun _ _ held => held.size
  have reads := writeEach_yields fun annotation member =>
    (written annotation member).mono fun pool _ held =>
      held.reads (readValue pool visible) (readsUpTo_readValue pool visible _)
  refine (sizes.and reads).map fun pool bytes held => ⟨?_, ?_⟩
  · rw [List.length_append, held.1]
    rfl
  · have inside := held.2
    rw [← toNat_count16 count] at inside
    exact (reads_u2 _).bind inside

/-- The annotations of each slot are read back, on a byte count of slots. -/
theorem writeSlots_yields
    (visible : Bool)
    {slots : List (List AnnotationDecl)}
    (each :
      ∀ slot ∈ slots,
        (∀ annotation ∈ slot, annotation.Fits) ∧ slot.length ≤ 65535)
    (count : slots.length ≤ 255) :
    Yields (writeEach writeAnnotations slots) fun pool bytes =>
      bytes.length = totalSize annotationsSize slots ∧
        Reads (readParameterAnnotations pool visible) (count8 slots ++ bytes)
          (slots.map (·.map (·.withVisibility visible))) := by
  have written :
      ∀ slot ∈ slots,
        Yields (writeAnnotations slot) (HoldsAnnotations visible slot) :=
    fun slot member =>
      writeAnnotations_yields visible (each slot member).1 (each slot member).2
  have sizes := writeEach_size fun slot member =>
    (written slot member).mono fun _ _ held => held.size
  have reads := writeEach_yields fun slot member =>
    (written slot member).mono fun _ _ held => held.reads
  refine (sizes.and reads).mono fun pool bytes held => ⟨held.1, ?_⟩
  have inside := held.2
  rw [← toNat_count8 count] at inside
  exact (reads_u1 _).bind inside

end TypeAtlas.ClassFile
