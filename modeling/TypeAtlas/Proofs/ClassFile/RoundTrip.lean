import TypeAtlas.Proofs.ClassFile.Attributes

namespace TypeAtlas.ClassFile

/-!
# Reading back classes

A class file gives back the canonical form of the declaration it was written
from. The annotations of the two visibilities meet again in one list, and the
tables of parameter annotations slot by slot.
-/

/-! ## Both visibilities -/

/-- Visible annotations and the others make up the canonical list. -/
theorem seen_append_seen
    (annotations : List AnnotationDecl) :
    seen true annotations ++ seen false annotations =
      canonicalAnnotations annotations := by
  have own :
      ∀ visible,
        seen visible annotations =
          (ofVisibility visible annotations).map fun annotation =>
            annotation.withVisibility annotation.visible := by
    intro visible
    refine List.map_congr_left fun annotation member => ?_
    have same := (List.mem_filter.mp member).2
    rw [beq_iff_eq.mp same]
  rw [own, own, ← List.map_append, canonicalAnnotations]
  simp [ofVisibility]

/-- Tables over the same slots are joined slot by slot. -/
theorem mergeTables_map
    (front back : α → List β)
    (table : List α) :
    mergeTables (table.map front) (table.map back) =
      table.map fun slot => front slot ++ back slot := by
  induction table with
  | nil =>
      rfl
  | cons slot table inductionHypothesis =>
      simp only [List.map_cons, mergeTables, inductionHypothesis]

/-- Joining an empty table changes nothing. -/
theorem mergeTables_nil
    (table : List (List α)) :
    mergeTables table [] = table := by
  cases table with
  | nil =>
      rfl
  | cons slot table =>
      rfl

/-- A table holds no annotation if it holds none of either visibility. -/
theorem all_isEmpty_eq
    (table : List (List AnnotationDecl)) :
    table.all (·.isEmpty) =
      ((table.all fun slot => (ofVisibility true slot).isEmpty) &&
        table.all fun slot => (ofVisibility false slot).isEmpty) := by
  have slot :
      ∀ slot : List AnnotationDecl,
        slot.isEmpty =
          ((ofVisibility true slot).isEmpty &&
            (ofVisibility false slot).isEmpty) := by
    intro slot
    cases slot with
    | nil =>
        rfl
    | cons annotation slot =>
        cases shown : annotation.visible <;> simp [ofVisibility, shown]
  induction table with
  | nil =>
      rfl
  | cons first table inductionHypothesis =>
      simp only [List.all_cons, inductionHypothesis, slot first]
      ac_rfl

/-- The tables of the two visibilities make up the canonical table. -/
theorem mergeTables_seenTable?
    (table : List (List AnnotationDecl)) :
    mergeTables ((seenTable? true table).getD [])
        ((seenTable? false table).getD []) =
      canonicalTable table := by
  have slots :
      table.map canonicalAnnotations =
        table.map fun slot => seen true slot ++ seen false slot :=
    List.map_congr_left fun slot _ => (seen_append_seen slot).symm
  have nothing :
      ∀ visible,
        (table.all fun slot => (ofVisibility visible slot).isEmpty) = true →
          ∀ slot ∈ table, seen visible slot = [] := by
    intro visible empty slot member
    have none := List.all_eq_true.mp empty slot member
    rw [seen, List.isEmpty_iff.mp none, List.map_nil]
  rw [canonicalTable, all_isEmpty_eq, slots]
  cases visible : table.all fun slot => (ofVisibility true slot).isEmpty with
  | true =>
      cases invisible : table.all fun slot =>
        (ofVisibility false slot).isEmpty with
      | true =>
          simp [seenTable?, visible, invisible, mergeTables]
      | false =>
          simp only [seenTable?, visible, invisible]
          refine List.map_congr_left fun slot member => ?_
          rw [nothing true visible slot member, List.nil_append]
  | false =>
      cases invisible : table.all fun slot =>
        (ofVisibility false slot).isEmpty with
      | true =>
          simp only [seenTable?, visible, invisible]
          refine (mergeTables_nil _).trans ?_
          refine List.map_congr_left fun slot member => ?_
          rw [nothing false invisible slot member, List.append_nil]
      | false =>
          simp only [seenTable?, visible, invisible]
          exact mergeTables_map _ _ table

/-! ## Signatures and annotations -/

/-- A handler of attributes that all declarations may have. -/
structure TakesCommon
    (pool : ConstantPool)
    (handle : σ → String → Read σ)
    (setSignature : σ → Option String → σ)
    (addAnnotations : σ → List AnnotationDecl → σ) :
    Prop where
  signature :
    Takes handle "Signature" (do pool.text (← readU2)) fun state text =>
      setSignature state (some text)
  visible :
    Takes handle "RuntimeVisibleAnnotations" (readAnnotations pool true)
      addAnnotations
  invisible :
    Takes handle "RuntimeInvisibleAnnotations" (readAnnotations pool false)
      addAnnotations
  idle : ∀ state, addAnnotations state [] = state

/-- The signature is set and the annotations are added, visible ones first. -/
theorem TakesCommon.carries
    {pool : ConstantPool}
    {handle : σ → String → Read σ}
    {setSignature : σ → Option String → σ}
    {addAnnotations : σ → List AnnotationDecl → σ}
    (takes : TakesCommon pool handle setSignature addAnnotations)
    {signature : Option String}
    {annotations : List AnnotationDecl}
    {front back : List Attribute}
    (signatureHeld : HoldsSignature signature pool front)
    (annotationsHeld : HoldsAnnotationLists annotations pool back)
    (start : σ)
    (fresh : setSignature start none = start) :
    Carries handle start (front ++ back)
      (addAnnotations
        (addAnnotations (setSignature start signature) (seen true annotations))
        (seen false annotations)) := by
  have second := annotationsHeld.carries takes.visible takes.invisible
    takes.idle (setSignature start signature)
  rw [getD_listed?, getD_listed?] at second
  exact (signatureHeld.carries _ takes.signature start fresh).append second

/-- What is written of a signature and annotations alone. -/
theorem writeCommon_yields
    {signature : Option String}
    {annotations : List AnnotationDecl}
    (short : ∀ text ∈ signature, Short text)
    (fits : AttributesFit annotations) :
    Yields
      (do
        let front ← signatureAttributes signature
        let back ← annotationAttributes annotations
        writeAttributes (front ++ back))
      fun pool bytes =>
        ∀ (σ : Type) (handle : σ → String → Read σ)
          (setSignature : σ → Option String → σ)
          (addAnnotations : σ → List AnnotationDecl → σ) (start : σ),
          TakesCommon pool handle setSignature addAnnotations →
            setSignature start none = start →
              Reads (readAttributes pool handle start) bytes
                (addAnnotations
                  (addAnnotations (setSignature start signature)
                    (seen true annotations))
                  (seen false annotations)) := by
  have signatures := signatureAttributes_yields short
  have lists := annotationAttributes_yields fits
  refine (signatures.yields.bindGiven Named signatures.named
    fun front named =>
    lists.yields.bindGiven Named lists.named fun back alsoNamed =>
    writeAttributes_yields (named.append alsoNamed)).mono ?_
  rintro pool bytes ⟨front, frontHeld, back, backHeld, reads⟩
    σ handle setSignature addAnnotations start takes fresh
  have count : (front ++ back).length ≤ 65535 := by
    have first := frontHeld.length_le
    have second := backHeld.length_le
    rw [List.length_append]
    omega
  exact reads _ _ _ _ count (takes.carries frontHeld backHeld start fresh)

/-- The reader of fields takes in what all readers of members do. -/
theorem takesCommon_field
    (pool : ConstantPool) :
    TakesCommon pool (readFieldAttribute pool)
      (fun field text? => { field with signature := text? })
      (fun field annotations =>
        { field with annotations := field.annotations ++ annotations }) where
  signature := takes_of_eq fun field => by rw [readFieldAttribute, bind_assoc]
  visible := takes_of_eq fun field => by rw [readFieldAttribute]
  invisible := takes_of_eq fun field => by rw [readFieldAttribute]
  idle := fun field => by rw [List.append_nil]

/-- The reader of methods takes in what all readers of members do. -/
theorem takesCommon_method
    (pool : ConstantPool) :
    TakesCommon pool (readMethodAttribute pool)
      (fun method text? => { method with signature := text? })
      (fun method annotations =>
        { method with annotations := method.annotations ++ annotations }) where
  signature := takes_of_eq fun method => by rw [readMethodAttribute, bind_assoc]
  visible := takes_of_eq fun method => by rw [readMethodAttribute]
  invisible := takes_of_eq fun method => by rw [readMethodAttribute]
  idle := fun method => by rw [List.append_nil]

/-- The reader of classes takes in what all readers of members do. -/
theorem takesCommon_class
    (pool : ConstantPool) :
    TakesCommon pool (readClassAttribute pool)
      (fun decl text? => { decl with signature := text? })
      (fun decl annotations =>
        { decl with annotations := decl.annotations ++ annotations }) where
  signature := takes_of_eq fun decl => by rw [readClassAttribute, bind_assoc]
  visible := takes_of_eq fun decl => by rw [readClassAttribute]
  invisible := takes_of_eq fun decl => by rw [readClassAttribute]
  idle := fun decl => by rw [List.append_nil]

/-! ## Members -/

/-- The three fields before the attributes of a member. -/
theorem reads_member
    {pool : ConstantPool}
    {access name descriptor : UInt16}
    {nameText descriptorText : String}
    {attributes : Bytes}
    {next : UInt16 → String → String → Read σ}
    {member : σ}
    (toName : LeadsTo (.text nameText) pool name)
    (toDescriptor : LeadsTo (.text descriptorText) pool descriptor)
    (reads : Reads (next access nameText descriptorText) attributes member) :
    Reads
      (do
        let access ← readU2
        let name ← pool.text (← readU2)
        let descriptor ← pool.text (← readU2)
        next access name descriptor)
      (writeU2 access ++ writeU2 name ++ writeU2 descriptor ++ attributes)
      member := by
  simp only [List.append_assoc]
  exact (reads_u2 access).bind ((reads_u2 name).bind (toName.reads_text.bind
    ((reads_u2 descriptor).bind (toDescriptor.reads_text.bind reads))))

/-- A field is read back in its canonical form. -/
theorem writeField_yields
    {field : FieldDecl}
    (fits : field.Fits) :
    Yields (writeField field) fun pool bytes =>
      Reads (readField pool) bytes field.canonical := by
  refine ((writeIndex_yields (internText_yields fits.name)).bind fun name =>
    (writeIndex_yields (internText_yields fits.descriptor)).bind
      fun descriptor =>
    (writeCommon_yields fits.signature fits.annotations).bind
      fun attributes =>
    Yields.pure
      (writeU2 field.access ++ name ++ descriptor ++ attributes)).mono ?_
  rintro pool bytes ⟨_, ⟨name, toName, rfl⟩, _, ⟨descriptor, toDescriptor, rfl⟩,
    attributes, reads, rfl⟩
  have last := reads _ _ _ _
    { access := field.access
      name := field.name
      descriptor := field.descriptor }
    (takesCommon_field pool) rfl
  rw [FieldDecl.canonical, ← seen_append_seen]
  exact reads_member toName toDescriptor last

/-- The visible table of parameters is taken in. -/
theorem takes_visibleTable
    (pool : ConstantPool) :
    Takes (readMethodAttribute pool) "RuntimeVisibleParameterAnnotations"
      (readParameterAnnotations pool true) fun method table =>
        { method with
          parameterAnnotations :=
            mergeTables method.parameterAnnotations table } :=
  takes_of_eq fun method => by rw [readMethodAttribute]

/-- The invisible table of parameters is taken in. -/
theorem takes_invisibleTable
    (pool : ConstantPool) :
    Takes (readMethodAttribute pool) "RuntimeInvisibleParameterAnnotations"
      (readParameterAnnotations pool false) fun method table =>
        { method with
          parameterAnnotations :=
            mergeTables method.parameterAnnotations table } :=
  takes_of_eq fun method => by rw [readMethodAttribute]

/-- The default of an annotation element is taken in. -/
theorem takes_default
    (pool : ConstantPool) :
    Takes (readMethodAttribute pool) "AnnotationDefault"
      (readValue pool true) fun method value =>
        { method with default := some value } :=
  takes_of_eq fun method => by rw [readMethodAttribute]

/-- The names of parameters are taken in. -/
theorem takes_names
    (pool : ConstantPool) :
    Takes (readMethodAttribute pool) "MethodParameters"
      (readParameterNames pool) fun method names =>
        { method with parameterNames := method.parameterNames ++ names } :=
  takes_of_eq fun method => by rw [readMethodAttribute]

/-- The attributes of a method take the reader to its canonical form. -/
theorem carries_method
    {pool : ConstantPool}
    {method : MethodDecl}
    {signature annotations parameters default names : List Attribute}
    (signatureHeld : HoldsSignature method.signature pool signature)
    (annotationsHeld :
      HoldsAnnotationLists method.annotations pool annotations)
    (tablesHeld : HoldsTables method.parameterAnnotations pool parameters)
    (defaultHeld : HoldsDefault method.default pool default)
    (namesHeld : HoldsNames method.parameterNames pool names) :
    Carries (readMethodAttribute pool)
      { access := method.access
        name := method.name
        descriptor := method.descriptor }
      (signature ++ annotations ++ parameters ++ default ++ names)
      method.canonical := by
  rw [MethodDecl.canonical, ← seen_append_seen, ← mergeTables_seenTable?]
  have common := (takesCommon_method pool).carries signatureHeld annotationsHeld
  have tables := tablesHeld.carries (takes_visibleTable pool)
    (takes_invisibleTable pool) fun method => by rw [mergeTables_nil]
  have defaults := defaultHeld.carries _ (takes_default pool)
  have listing := namesHeld.carries_list (takes_names pool)
    fun method => by rw [List.append_nil]
  rw [getD_listed?] at listing
  exact (((common _ rfl).append (tables _)).append (defaults _ rfl)).append
    (listing _)

/-- A method is read back in its canonical form. -/
theorem writeMethod_yields
    {method : MethodDecl}
    (fits : method.Fits) :
    Yields (writeMethod method) fun pool bytes =>
      Reads (readMethod pool) bytes method.canonical := by
  have signatures := signatureAttributes_yields fits.signature
  have annotations := annotationAttributes_yields fits.annotations
  have parameters := parameterAttributes_yields fits.parameterAnnotations
  have defaults := defaultAttributes_yields fits.default
  have names := nameAttributes_yields fits.parameterCount fits.parameterNames
  refine ((writeIndex_yields (internText_yields fits.name)).bind fun name =>
    (writeIndex_yields (internText_yields fits.descriptor)).bind
      fun descriptor =>
    signatures.yields.bindGiven Named signatures.named fun first named₁ =>
    annotations.yields.bindGiven Named annotations.named fun second named₂ =>
    parameters.yields.bindGiven Named parameters.named fun third named₃ =>
    defaults.yields.bindGiven Named defaults.named fun fourth named₄ =>
    names.yields.bindGiven Named names.named fun fifth named₅ =>
    (writeAttributes_yields
      ((((named₁.append named₂).append named₃).append named₄).append
        named₅)).bind fun attributes =>
    Yields.pure
      (writeU2 method.access ++ name ++ descriptor ++ attributes)).mono ?_
  rintro pool bytes ⟨_, ⟨name, toName, rfl⟩, _, ⟨descriptor, toDescriptor, rfl⟩,
    first, held₁, second, held₂, third, held₃, fourth, held₄, fifth, held₅,
    attributes, reads, rfl⟩
  have count :
      (first ++ second ++ third ++ fourth ++ fifth).length ≤ 65535 := by
    have length₁ := held₁.length_le
    have length₂ := held₂.length_le
    have length₃ := held₃.length_le
    have length₄ := held₄.length_le
    have length₅ := held₅.length_le
    simp only [List.length_append]
    omega
  have whole := carries_method held₁ held₂ held₃ held₄ held₅
  exact reads_member toName toDescriptor (reads _ _ _ _ count whole)

/-! ## Classes -/

/-- The superclass is written as an index, which is zero for none. -/
theorem writeSuper_yields
    {superName : Option TypeName}
    (short : ∀ name ∈ superName, Short name) :
    Yields (writeSuper superName) fun pool bytes =>
      ∃ index, bytes = writeU2 index ∧
        Reads (pool.superName index) []
          (superName.map TypeName.ofInternal) := by
  cases superName with
  | none =>
      refine (Yields.pure (writeU2 0)).mono ?_
      rintro pool bytes rfl
      exact ⟨0, rfl, reads_pure none⟩
  | some name =>
      refine (writeIndex_yields (internClass_yields (short name rfl))).mono ?_
      rintro pool bytes ⟨index, names, rfl⟩
      refine ⟨index, rfl, ?_⟩
      rw [ConstantPool.superName, if_neg names.1]
      exact names.2.map some

/-- A list behind its two-byte count, and what comes after. -/
theorem reads_counted
    {step : Read β}
    {next : List β → Read γ}
    {items : List α}
    {values : List β}
    {bytes more : Bytes}
    {result : γ}
    (fits : items.length ≤ 65535)
    (each : Reads (readMany step items.length) bytes values)
    (after : Reads (next values) more result) :
    Reads
      (do
        let count ← readU2
        let read ← readMany step count.toNat
        next read)
      (count16 items ++ (bytes ++ more)) result := by
  rw [← toNat_count16 fits] at each
  exact (reads_u2 _).bind (each.bind after)

/-- What follows the constants is read back in its canonical form. -/
theorem writeBody_yields
    {decl : ClassDecl}
    (fits : decl.Fits) :
    Yields (writeBody decl) fun pool bytes =>
      Reads (readBody decl.majorVersion pool) bytes decl.canonical := by
  have interfaces :
      Yields (writeEach (writeIndex <| internClass ·) decl.interfaces)
        fun pool bytes =>
          Reads
            (readMany (do pool.className (← readU2)) decl.interfaces.length)
            bytes (decl.interfaces.map TypeName.ofInternal) := by
    refine writeEach_yields fun name member =>
      (writeIndex_yields (internClass_yields
        (fits.interfaces name member))).mono ?_
    rintro pool bytes ⟨index, names, rfl⟩
    exact (reads_u2 index).bindNil names.2
  have fields := writeEach_yields fun field member =>
    writeField_yields (fits.fields field member)
  have methods := writeEach_yields fun method member =>
    writeMethod_yields (fits.methods method member)
  refine ((writeIndex_yields (internClass_yields fits.name)).bind
      fun thisClass =>
    (writeSuper_yields fits.superName).bind fun superClass =>
    interfaces.bind fun interfaces =>
    fields.bind fun fields =>
    methods.bind fun methods =>
    (writeCommon_yields fits.signature fits.annotations).bind
      fun attributes =>
    Yields.pure
      (writeU2 decl.access ++ thisClass ++ superClass
        ++ count16 decl.interfaces ++ interfaces
        ++ count16 decl.fields ++ fields
        ++ count16 decl.methods ++ methods
        ++ attributes)).mono ?_
  rintro pool bytes ⟨_, ⟨thisClass, thisNamed, rfl⟩,
    _, ⟨superClass, rfl, superRead⟩, interfaces, interfacesRead,
    fields, fieldsRead, methods, methodsRead, attributes, reads, rfl⟩
  have last := reads _ _ _ _
    { majorVersion := decl.majorVersion
      access := decl.access
      name := TypeName.ofInternal decl.name
      superName := decl.superName.map TypeName.ofInternal
      interfaces := decl.interfaces.map TypeName.ofInternal
      fields := decl.fields.map (·.canonical)
      methods := decl.methods.map (·.canonical) }
    (takesCommon_class pool) rfl
  rw [ClassDecl.canonical, ← seen_append_seen]
  simp only [List.append_assoc]
  exact (reads_u2 decl.access).bind ((reads_u2 thisClass).bind
    ((reads_u2 superClass).bind (thisNamed.2.bind (superRead.bind
      (reads_counted fits.interfaceCount interfacesRead
        (reads_counted fits.fieldCount fieldsRead
          (reads_counted fits.methodCount methodsRead last)))))))

/-- The whole file, from the magic number on. -/
theorem reads_encode
    {decl : ClassDecl}
    (fits : decl.Fits) :
    Reads readClass (encode decl) decl.canonical := by
  have yields := writeBody_yields fits
  have table : Draft.Fits ((writeBody decl).run []).2 :=
    ⟨fits.constants, yields.writable [] fun _ member =>
      absurd member List.not_mem_nil⟩
  have body := yields.result [] _ List.prefix_rfl table
  have rest :
      Reads
        (do
          let _minorVersion ← readU2
          let majorVersion ← readU2
          readBody majorVersion (← ConstantPool.read))
        (writeU2 0 ++ (writeU2 decl.majorVersion ++
          (Draft.bytes ((writeBody decl).run []).2 ++
            ((writeBody decl).run []).1)))
        decl.canonical :=
    (reads_u2 0).bind ((reads_u2 decl.majorVersion).bind
      ((Draft.reads_pool table).bind body))
  simp only [encode, List.append_assoc]
  refine (reads_u4 magic).bind ?_
  exact rest

/--
Reading what was written gives the canonical form, and so the declaration
itself exactly if it is canonical.
-/
theorem decode_encode
    {decl : ClassDecl}
    (fits : decl.Fits) :
    decode (encode decl) = .ok decl.canonical ∧
      (decode (encode decl) = .ok decl ↔ decl.canonical = decl) := by
  have whole := reads_encode fits []
  rw [List.append_nil] at whole
  have decoded : decode (encode decl) = .ok decl.canonical := by
    rw [decode, whole]
    rfl
  refine ⟨decoded, ?_⟩
  rw [decoded, Except.ok.injEq]

/--
A declaration that is canonical in no respect: there are slashes in its names,
an invisible annotation comes before a visible one and has a visible one inside
it, and a table of parameter annotations is blank.
-/
def crossedDecl : ClassDecl :=
  { access := 0x2601
    name := "demo/Box"
    superName := some "demo.Base"
    interfaces := ["demo/Sized"]
    annotations :=
      [⟨"Ldemo/Hidden;", false,
          [("note", .annotated ⟨"Ldemo/Note;", true, []⟩)]⟩,
        ⟨"Ldemo/Shown;", true, [("size", .scalar (.long 7))]⟩]
    methods :=
      [{ access := 0x0401
         name := "put"
         descriptor := "(II)V"
         parameterAnnotations := [[], []]
         parameterNames := [some "key", none]
         default := some (.annotated ⟨"Ldemo/Note;", false, []⟩) }] }

theorem decode_encode_crossedDecl :
    crossedDecl.Fits ∧
      decode (encode crossedDecl) = .ok crossedDecl.canonical ∧
      decode (encode crossedDecl) ≠ .ok crossedDecl := by
  have annotations : AttributesFit crossedDecl.annotations := by
    refine ⟨⟨?_, ?_⟩, by decide +kernel⟩
    · simp only [crossedDecl, List.forall_mem_cons, List.not_mem_nil,
        false_implies, implies_true, AnnotationDecl.Fits,
        AnnotationDecl.FitPairs, ElementValue.Fits]
      decide +kernel
    · decide +kernel
  have blank : AnnotationsFit [] :=
    ⟨fun _ member => absurd member List.not_mem_nil, by decide +kernel⟩
  have methods : ∀ method ∈ crossedDecl.methods, method.Fits := by
    simp only [crossedDecl, List.forall_mem_cons, List.not_mem_nil,
      false_implies, implies_true, and_true]
    exact
      { name := by decide +kernel
        descriptor := by decide +kernel
        signature := by decide +kernel
        annotations := ⟨blank, by decide +kernel⟩
        parameterAnnotations :=
          ⟨by decide +kernel, by simp [blank], by decide +kernel⟩
        parameterCount := by decide +kernel
        parameterNames := by decide +kernel
        default := by
          rintro _ ⟨⟩
          simp only [ElementValue.Fits, AnnotationDecl.Fits,
            AnnotationDecl.FitPairs]
          decide +kernel }
  have fits : crossedDecl.Fits :=
    { name := by decide +kernel
      superName := by decide +kernel
      interfaceCount := by decide +kernel
      interfaces := by decide +kernel
      fieldCount := by decide +kernel
      fields := fun _ member => absurd member List.not_mem_nil
      methodCount := by decide +kernel
      methods := methods
      signature := by decide +kernel
      annotations := annotations
      constants := by decide +kernel }
  have named : crossedDecl.canonical.name ≠ crossedDecl.name := by
    decide +kernel
  refine ⟨fits, (decode_encode fits).1, fun same => named ?_⟩
  rw [(decode_encode fits).2.mp same]

end TypeAtlas.ClassFile
