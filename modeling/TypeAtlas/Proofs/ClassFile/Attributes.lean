import TypeAtlas.Proofs.ClassFile.Values

namespace TypeAtlas.ClassFile

/-!
# Reading back attributes

A declaration is spread over attributes, each of which is left out if it has
nothing to say. The reader takes them in one by one, so what matters of an
attribute is how it changes what was read before it.
-/

/-! ## Attributes in a row -/

/--
Attributes that take a reader from one state to another, with contents whose
length fits the format.
-/
inductive Carries (handle : σ → String → Read σ) :
    σ → List Attribute → σ → Prop where
  | none (state : σ) :
      Carries handle state [] state
  | next
      {start middle final : σ}
      {name : String}
      {content : Bytes}
      {attributes : List Attribute}
      (fits : content.length < UInt32.size)
      (reads : Reads (handle start name) content middle)
      (rest : Carries handle middle attributes final) :
      Carries handle start ((name, content) :: attributes) final

/-- Attributes are taken in one after the other. -/
theorem Carries.append
    {handle : σ → String → Read σ}
    {start middle final : σ}
    {front back : List Attribute}
    (first : Carries handle start front middle)
    (second : Carries handle middle back final) :
    Carries handle start (front ++ back) final := by
  induction first with
  | none =>
      exact second
  | next fits reads _ inductionHypothesis =>
      exact .next fits reads (inductionHypothesis second)

/-- Attributes whose names are short enough to be written. -/
def Named (attributes : List Attribute) : Prop :=
  ∀ entry ∈ attributes, Short entry.1

/-- Short names stay short next to others. -/
theorem Named.append
    {front back : List Attribute}
    (first : Named front)
    (second : Named back) :
    Named (front ++ back) := by
  intro entry member
  rcases List.mem_append.mp member with early | late
  · exact first entry early
  · exact second entry late

/--
An attribute is written as the index of its name, its length and its content.
-/
theorem writeAttribute_yields
    {name : String}
    (short : Short name)
    (content : Bytes) :
    Yields (writeAttribute (name, content)) fun pool bytes =>
      ∃ index, LeadsTo (.text name) pool index ∧
        bytes =
          writeU2 index ++ writeU4 (UInt32.ofNat content.length) ++ content := by
  refine (writeIndex_yields (internText_yields short)).map ?_
  rintro pool _ ⟨index, leads, rfl⟩
  exact ⟨index, leads, rfl⟩

/-- One attribute is read as its name and content. -/
theorem reads_attribute
    {pool : ConstantPool}
    {name : String}
    {index : UInt16}
    {content : Bytes}
    {handle : σ → String → Read σ}
    {state next : σ}
    (leads : LeadsTo (.text name) pool index)
    (fits : content.length < UInt32.size)
    (reads : Reads (handle state name) content next) :
    Reads (readAttribute pool handle state)
      (writeU2 index ++ writeU4 (UInt32.ofNat content.length) ++ content)
      next := by
  have length :
      (UInt32.ofNat content.length).toNat = content.length := by
    rw [UInt32.toNat_ofNat']
    exact Nat.mod_eq_of_lt fits
  rw [List.append_assoc]
  refine (reads_u2 index).bind ((reads_u4 _).bind ?_)
  refine (reads_bytes length.symm).bindNil ?_
  exact leads.reads_text.bindNil reads.within

/-- Attributes that are written one by one are read one by one. -/
theorem writeEach_writeAttribute_yields
    {attributes : List Attribute}
    (named : Named attributes) :
    Yields (writeEach writeAttribute attributes) fun pool bytes =>
      ∀ (σ : Type) (handle : σ → String → Read σ) (start final : σ),
        Carries handle start attributes final →
          Reads (readFold (readAttribute pool handle) attributes.length start)
            bytes final := by
  induction attributes with
  | nil =>
      refine (Yields.pure []).mono ?_
      rintro pool bytes rfl σ handle start final carries
      cases carries with
      | none =>
          exact reads_pure start
  | cons entry attributes inductionHypothesis =>
      obtain ⟨name, content⟩ := entry
      have first := writeAttribute_yields (named (name, content) (by simp))
        content
      have rest := inductionHypothesis fun later member =>
        named later (List.mem_cons_of_mem _ member)
      refine (first.bind fun head =>
        rest.bind fun tail => Yields.pure (head ++ tail)).mono ?_
      rintro pool bytes ⟨_, ⟨index, leads, rfl⟩, tail, tailReads, rfl⟩
        σ handle start final carries
      cases carries with
      | next fits reads later =>
          exact (reads_attribute leads fits reads).bind
            (tailReads σ handle _ final later)

/-- The reader ends in the state that the attributes take it to. -/
theorem writeAttributes_yields
    {attributes : List Attribute}
    (named : Named attributes) :
    Yields (writeAttributes attributes) fun pool bytes =>
      ∀ (σ : Type) (handle : σ → String → Read σ) (start final : σ),
        attributes.length ≤ 65535 →
          Carries handle start attributes final →
            Reads (readAttributes pool handle start) bytes final := by
  refine (writeEach_writeAttribute_yields named).map
    fun pool bytes reads σ handle start final count carries => ?_
  have inside := reads σ handle start final carries
  rw [← toNat_count16 count] at inside
  exact (reads_u2 _).bind inside

/-! ## Optional content -/

/-- A handler takes in what a reader reads from an attribute's content. -/
def Takes
    (handle : σ → String → Read σ)
    (name : String)
    (read : Read β)
    (add : σ → β → σ) :
    Prop :=
  ∀ (state : σ) (content : Bytes) (value : β),
    Reads read content value →
      Reads (handle state name) content (add state value)

/-- A handler takes in what it reads whatever state it is in. -/
theorem takes_of_eq
    {handle : σ → String → Read σ}
    {name : String}
    {read : Read β}
    {add : σ → β → σ}
    (same : ∀ state, handle state name = do return add state (← read)) :
    Takes handle name read add := by
  intro state content value reads
  rw [same]
  exact reads.bindNil (reads_pure _)

/-- No attribute for no value, and otherwise one that the value is read from. -/
def HoldsOption
    (name : String)
    (read : ConstantPool → Read β)
    (value? : Option β)
    (pool : ConstantPool)
    (attributes : List Attribute) :
    Prop :=
  match value? with
  | none => attributes = []
  | some value =>
      ∃ content, attributes = [(name, content)] ∧
        content.length < UInt32.size ∧ Reads (read pool) content value

namespace HoldsOption

/-- A value is held by one attribute at most. -/
theorem length_le
    {name : String}
    {read : ConstantPool → Read β}
    {value? : Option β}
    {pool : ConstantPool}
    {attributes : List Attribute}
    (holds : HoldsOption name read value? pool attributes) :
    attributes.length ≤ 1 := by
  cases value? with
  | none =>
      rw [show attributes = [] from holds]
      exact Nat.zero_le 1
  | some value =>
      obtain ⟨content, rfl, -, -⟩ := holds
      exact Nat.le_refl 1

/-- A value is set, where to set none is to change nothing. -/
theorem carries
    {name : String}
    {read : ConstantPool → Read β}
    {value? : Option β}
    {pool : ConstantPool}
    {attributes : List Attribute}
    (holds : HoldsOption name read value? pool attributes)
    {handle : σ → String → Read σ}
    (set : σ → Option β → σ)
    (takes :
      Takes handle name (read pool) fun state value => set state (some value))
    (start : σ)
    (fresh : set start none = start) :
    Carries handle start attributes (set start value?) := by
  cases value? with
  | none =>
      rw [show attributes = [] from holds, fresh]
      exact .none start
  | some value =>
      obtain ⟨content, rfl, fits, reads⟩ := holds
      exact .next fits (takes start content value reads) (.none _)

/-- A list is added, where to add the empty list is to change nothing. -/
theorem carries_list
    {name : String}
    {read : ConstantPool → Read (List β)}
    {list? : Option (List β)}
    {pool : ConstantPool}
    {attributes : List Attribute}
    (holds : HoldsOption name read list? pool attributes)
    {handle : σ → String → Read σ}
    {add : σ → List β → σ}
    (takes : Takes handle name (read pool) add)
    (idle : ∀ state, add state [] = state)
    (start : σ) :
    Carries handle start attributes (add start (list?.getD [])) :=
  holds.carries (fun state list? => add state (list?.getD [])) takes start
    (idle start)

end HoldsOption

/-- The attributes of a list for each visibility, visible items first. -/
def HoldsBoth
    (visibleName invisibleName : String)
    (read : ConstantPool → Bool → Read (List β))
    (list? : Bool → Option (List β))
    (pool : ConstantPool)
    (attributes : List Attribute) :
    Prop :=
  ∃ before after,
    HoldsOption visibleName (read · true) (list? true) pool before ∧
      HoldsOption invisibleName (read · false) (list? false) pool after ∧
        attributes = before ++ after

namespace HoldsBoth

/-- Items of both visibilities are held by two attributes at most. -/
theorem length_le
    {visibleName invisibleName : String}
    {read : ConstantPool → Bool → Read (List β)}
    {list? : Bool → Option (List β)}
    {pool : ConstantPool}
    {attributes : List Attribute}
    (holds :
      HoldsBoth visibleName invisibleName read list? pool attributes) :
    attributes.length ≤ 2 := by
  obtain ⟨before, after, visible, invisible, rfl⟩ := holds
  rw [List.length_append]
  exact Nat.add_le_add visible.length_le invisible.length_le

/-- Visible items are added before the others. -/
theorem carries
    {visibleName invisibleName : String}
    {read : ConstantPool → Bool → Read (List β)}
    {list? : Bool → Option (List β)}
    {pool : ConstantPool}
    {attributes : List Attribute}
    (holds :
      HoldsBoth visibleName invisibleName read list? pool attributes)
    {handle : σ → String → Read σ}
    {add : σ → List β → σ}
    (takesVisible : Takes handle visibleName (read pool true) add)
    (takesInvisible : Takes handle invisibleName (read pool false) add)
    (idle : ∀ state, add state [] = state)
    (start : σ) :
    Carries handle start attributes
      (add (add start ((list? true).getD [])) ((list? false).getD [])) := by
  obtain ⟨before, after, visible, invisible, rfl⟩ := holds
  exact (visible.carries_list takesVisible idle start).append
    (invisible.carries_list takesInvisible idle _)

end HoldsBoth

/-! ## The attributes of declarations -/

/-- A step that gives attributes with short names. -/
structure YieldsAttributes
    (write : Write (List Attribute))
    (Result : ConstantPool → List Attribute → Prop) :
    Prop where
  named : ∀ draft, Named (write.run draft).1
  yields : Yields write Result

/-- No attribute is given for nothing. -/
theorem yieldsAttributes_none
    (name : String)
    (read : ConstantPool → Read β) :
    YieldsAttributes (return []) (HoldsOption name read none) :=
  ⟨fun _ _ member => absurd member List.not_mem_nil, Yields.pure []⟩

/-- An attribute is given for content that is read back. -/
theorem yieldsAttributes_some
    {name : String}
    (short : Short name)
    {read : ConstantPool → Read β}
    {value : β}
    {write : Write Bytes}
    {content : Bytes → Bytes}
    (yields :
      Yields write fun pool bytes =>
        (content bytes).length < UInt32.size ∧
          Reads (read pool) (content bytes) value) :
    YieldsAttributes (do return [(name, content (← write))])
      (HoldsOption name read (some value)) := by
  refine ⟨fun draft entry member => ?_, yields.map ?_⟩
  · rw [show entry = (name, _) from List.mem_singleton.mp member]
    exact short
  · exact fun _ bytes held => ⟨content bytes, rfl, held⟩

/-- Attributes behind others. -/
theorem YieldsAttributes.append
    {front back : Write (List Attribute)}
    {First Second : ConstantPool → List Attribute → Prop}
    (first : YieldsAttributes front First)
    (second : YieldsAttributes back Second) :
    YieldsAttributes
      (do
        let before ← front
        let after ← back
        return before ++ after)
      fun pool attributes =>
        ∃ before after, First pool before ∧ Second pool after ∧
          attributes = before ++ after := by
  constructor
  · intro draft
    exact (first.named draft).append (second.named (front.run draft).2)
  · refine (first.yields.bind fun before =>
      second.yields.bind fun after => Yields.pure (before ++ after)).mono ?_
    rintro pool _ ⟨before, held, after, alsoHeld, rfl⟩
    exact ⟨before, after, held, alsoHeld, rfl⟩

/-- A list, if there is anything in it. -/
def listed? (items : List α) : Option (List α) :=
  if items.isEmpty then none else some items

/-- A list that is left out when it is empty reads as the empty list. -/
theorem getD_listed?
    (items : List α) :
    (listed? items).getD [] = items := by
  cases items with
  | nil =>
      rfl
  | cons item items =>
      rfl

abbrev HoldsSignature (signature : Option String) :=
  HoldsOption "Signature" (fun pool => do pool.text (← readU2)) signature

/-- The attribute of a signature holds the signature. -/
theorem signatureAttributes_yields
    {signature : Option String}
    (short : ∀ text ∈ signature, Short text) :
    YieldsAttributes (signatureAttributes signature)
      (HoldsSignature signature) := by
  cases signature with
  | none =>
      exact yieldsAttributes_none _ _
  | some text =>
      refine yieldsAttributes_some (by decide +kernel)
        ((writeIndex_yields (internText_yields (short text rfl))).mono ?_)
      rintro pool content ⟨index, leads, rfl⟩
      exact ⟨by simp [UInt32.size], leads.reads_textField⟩

/-- The annotations of one visibility, as they are read back. -/
def seen
    (visible : Bool)
    (annotations : List AnnotationDecl) :
    List AnnotationDecl :=
  (ofVisibility visible annotations).map (·.withVisibility visible)

/-- An attribute of annotations holds those of its visibility. -/
theorem annotationAttribute_yields
    {name : String}
    (short : Short name)
    (visible : Bool)
    {annotations : List AnnotationDecl}
    (fits : AttributesFit annotations) :
    YieldsAttributes (annotationAttribute name visible annotations)
      (HoldsOption name (readAnnotations · visible)
        (listed? (seen visible annotations))) := by
  simp only [annotationAttribute, listed?, seen, List.isEmpty_map]
  split
  · exact yieldsAttributes_none _ _
  · refine yieldsAttributes_some short ((writeAnnotations_yields visible
      (fun annotation member => fits.lists.each annotation
        (List.mem_filter.mp member).1)
      (fits.lists.count visible)).mono fun pool content held => ?_)
    exact ⟨held.size ▸ fits.content visible, held.reads⟩

abbrev HoldsAnnotationLists (annotations : List AnnotationDecl) :=
  HoldsBoth "RuntimeVisibleAnnotations" "RuntimeInvisibleAnnotations"
    readAnnotations fun visible => listed? (seen visible annotations)

/-- The attributes of annotations hold all of them, the visible ones first. -/
theorem annotationAttributes_yields
    {annotations : List AnnotationDecl}
    (fits : AttributesFit annotations) :
    YieldsAttributes (annotationAttributes annotations)
      (HoldsAnnotationLists annotations) :=
  (annotationAttribute_yields (by decide +kernel) true fits).append
    (annotationAttribute_yields (by decide +kernel) false fits)

/-- The table of one visibility, if there is any annotation. -/
def seenTable?
    (visible : Bool)
    (table : List (List AnnotationDecl)) :
    Option (List (List AnnotationDecl)) :=
  if table.all (fun slot => (ofVisibility visible slot).isEmpty) then
    none
  else
    some (table.map (seen visible))

/-- An attribute of parameter annotations holds the table of its visibility. -/
theorem parameterAttribute_yields
    {name : String}
    (short : Short name)
    (visible : Bool)
    {table : List (List AnnotationDecl)}
    (fits : TableFits table) :
    YieldsAttributes (parameterAttribute name visible table)
      (HoldsOption name (readParameterAnnotations · visible)
        (seenTable? visible table)) := by
  have each :
      ∀ slot ∈ table.map (ofVisibility visible),
        (∀ annotation ∈ slot, annotation.Fits) ∧ slot.length ≤ 65535 := by
    intro slot member
    obtain ⟨whole, inside, rfl⟩ := List.mem_map.mp member
    have slotFits := fits.slots whole inside
    exact ⟨fun annotation selected =>
      slotFits.each annotation (List.mem_filter.mp selected).1,
      slotFits.count visible⟩
  have slots := writeSlots_yields visible each (by simpa using fits.count)
  simp only [parameterAttribute, seenTable?, List.all_map, Function.comp_def]
  split
  · exact yieldsAttributes_none _ _
  · refine yieldsAttributes_some short (slots.mono fun pool bytes held => ?_)
    obtain ⟨size, reads⟩ := held
    constructor
    · have content := fits.content visible
      rw [List.length_append, size, totalSize_map]
      exact content
    · rw [List.map_map, count8, List.length_map] at reads
      exact reads

abbrev HoldsTables (table : List (List AnnotationDecl)) :=
  HoldsBoth "RuntimeVisibleParameterAnnotations"
    "RuntimeInvisibleParameterAnnotations" readParameterAnnotations
    fun visible => seenTable? visible table

/-- The attributes of parameter annotations hold both tables. -/
theorem parameterAttributes_yields
    {table : List (List AnnotationDecl)}
    (fits : TableFits table) :
    YieldsAttributes (parameterAttributes table) (HoldsTables table) :=
  (parameterAttribute_yields (by decide +kernel) true fits).append
    (parameterAttribute_yields (by decide +kernel) false fits)

abbrev HoldsDefault (value? : Option ElementValue) :=
  HoldsOption "AnnotationDefault" (readValue · true)
    (value?.map (·.withVisibility true))

/-- The attribute of a default holds the value. -/
theorem defaultAttributes_yields
    {value? : Option ElementValue}
    (fits : ∀ value ∈ value?, value.Fits ∧ value.byteSize < UInt32.size) :
    YieldsAttributes (defaultAttributes value?) (HoldsDefault value?) := by
  cases value? with
  | none =>
      exact yieldsAttributes_none _ _
  | some value =>
      obtain ⟨valueFits, size⟩ := fits value rfl
      refine yieldsAttributes_some (by decide +kernel)
        ((writeValue_yields true value valueFits).mono fun pool bytes held => ?_)
      exact ⟨held.size ▸ size,
        readsUpTo_readValue pool true _ _ _ (Nat.le_refl _) held.reads⟩

/-- The name of a parameter is recorded in four bytes, and read from them. -/
theorem writeParameterName_yields
    {recorded : Option String}
    (short : ∀ name ∈ recorded, Short name) :
    Yields (writeParameterName recorded) fun pool bytes =>
      bytes.length = 4 ∧
        Reads (readParameterName pool) bytes recorded := by
  cases recorded with
  | none =>
      refine (Yields.pure _).mono ?_
      rintro pool bytes rfl
      exact ⟨rfl, (reads_u2 0).bind ((reads_u2 0).bindNil (reads_pure none))⟩
  | some name =>
      refine (internText_yields (short name rfl)).map fun pool index leads => ?_
      refine ⟨rfl, (reads_u2 index).bind ((reads_u2 0).bindNil ?_)⟩
      rw [if_neg leads.1]
      exact leads.reads_text.bindNil (reads_pure _)

abbrev HoldsNames (names : List (Option String)) :=
  HoldsOption "MethodParameters" readParameterNames (listed? names)

/-- The attribute of parameter names holds those that are recorded. -/
theorem nameAttributes_yields
    {names : List (Option String)}
    (count : names.length ≤ 255)
    (short : ∀ recorded ∈ names, ∀ name ∈ recorded, Short name) :
    YieldsAttributes (nameAttributes names) (HoldsNames names) := by
  have written := fun recorded member =>
    writeParameterName_yields (short recorded member)
  have sizes := writeEach_size fun recorded member =>
    (written recorded member).mono fun _ _ held => held.1
  have reads := writeEach_yields fun recorded member =>
    (written recorded member).mono fun _ _ held => held.2
  simp only [nameAttributes, HoldsNames, listed?]
  split
  · exact yieldsAttributes_none _ _
  · refine yieldsAttributes_some (by decide +kernel)
      ((sizes.and reads).mono fun pool bytes held => ⟨?_, ?_⟩)
    · rw [List.length_append, held.1, totalSize_const]
      simp only [count8, List.length_singleton, UInt32.size]
      omega
    · have inside := held.2
      rw [List.map_id', ← toNat_count8 count] at inside
      exact (reads_u1 _).bind inside

end TypeAtlas.ClassFile
