import Mathlib.Data.List.Forall2
import Mathlib.Data.List.InsertIdx
import TypeAtlas.Proofs.ClassFile.Anatomy

namespace TypeAtlas.ClassFile

/-!
# Attributes that are not known

The reader looks into attributes of a few names and steps over all others by
their length. So a file stays what it is when an attribute of another name is
put into one of its tables: into that of the class, of a field or of a method,
at any place between the attributes that are there, and with any content.

What a reader makes of the parts of a file is an answer that does not hang on
the bytes behind them, be it a value or a fault. Two files are read alike if
they have the same answer, and this passes from a table to its member, and from
there to the class.
-/

/-! ## Answers -/

/-- A reader gives an answer on bytes of its own, whatever comes after them. -/
def Answers
    (read : Read α)
    (bytes : Bytes)
    (answer : Except Fault α) :
    Prop :=
  ∀ rest, read.run (bytes ++ rest) = answer.map (·, rest)

/-- Bytes that are read for sure, before those that are answered. -/
theorem Reads.answers
    {read : Read α}
    {next : α → Read β}
    {bytes more : Bytes}
    {value : α}
    {answer : Except Fault β}
    (reads : Reads read bytes value)
    (after : Answers (next value) more answer) :
    Answers (read >>= next) (bytes ++ more) answer := by
  intro rest
  rw [StateT.run_bind, List.append_assoc, reads]
  exact after rest

/-- A reader that answers without any bytes, after one that reads for sure. -/
theorem Reads.answersNil
    {read : Read α}
    {next : α → Read β}
    {bytes : Bytes}
    {value : α}
    {answer : Except Fault β}
    (reads : Reads read bytes value)
    (after : Answers (next value) [] answer) :
    Answers (read >>= next) bytes answer := by
  have whole := reads.answers after
  rwa [List.append_nil] at whole

/-- Answers in a row are those of each reader in turn. -/
theorem Answers.bind
    {read : Read α}
    {next : α → Read β}
    {bytes more : Bytes}
    {first : Except Fault α}
    {second : α → Except Fault β}
    (before : Answers read bytes first)
    (after : ∀ value, Answers (next value) more (second value)) :
    Answers (read >>= next) (bytes ++ more) (first >>= second) := by
  intro rest
  rw [StateT.run_bind, List.append_assoc, before]
  cases first with
  | error fault =>
      rfl
  | ok value =>
      exact after value rest

/-- Two byte strings on which a reader gives the same answer. -/
def Alike
    (read : Read α)
    (bytes other : Bytes) :
    Prop :=
  ∃ answer, Answers read bytes answer ∧ Answers read other answer

/-- What is read from bytes is read from them alike. -/
theorem Reads.alike
    {read : Read α}
    {bytes : Bytes}
    {value : α}
    (reads : Reads read bytes value) :
    Alike read bytes bytes :=
  ⟨.ok value, reads, reads⟩

/-- What is answered on bytes is answered on them alike. -/
theorem Answers.alike
    {read : Read α}
    {bytes : Bytes}
    {answer : Except Fault α}
    (answers : Answers read bytes answer) :
    Alike read bytes bytes :=
  ⟨answer, answers, answers⟩

/-- Bytes that are read for sure, before those that are read alike. -/
theorem Reads.bindAlike
    {read : Read α}
    {next : α → Read β}
    {bytes more others : Bytes}
    {value : α}
    (reads : Reads read bytes value)
    (after : Alike (next value) more others) :
    Alike (read >>= next) (bytes ++ more) (bytes ++ others) := by
  obtain ⟨answer, one, another⟩ := after
  exact ⟨answer, reads.answers one, reads.answers another⟩

namespace Alike

/-- Readers that go alike can be put behind each other. -/
theorem bind
    {read : Read α}
    {next : α → Read β}
    {bytes other more others : Bytes}
    (before : Alike read bytes other)
    (after : ∀ value, Alike (next value) more others) :
    Alike (read >>= next) (bytes ++ more) (other ++ others) := by
  obtain ⟨first, one, another⟩ := before
  choose second oneMore anotherMore using after
  exact ⟨first >>= second, one.bind oneMore, another.bind anotherMore⟩

/-- A reader that needs no bytes, before one that does. -/
theorem still
    {read : Read α}
    {next : α → Read β}
    {bytes other : Bytes}
    (before : Alike read [] [])
    (after : ∀ value, Alike (next value) bytes other) :
    Alike (read >>= next) bytes other :=
  before.bind after

/-- A reader that needs no bytes, after one that does. -/
theorem bindNil
    {read : Read α}
    {next : α → Read β}
    {bytes other : Bytes}
    (before : Alike read bytes other)
    (after : ∀ value, Alike (next value) [] []) :
    Alike (read >>= next) bytes other := by
  have whole := before.bind after
  rwa [List.append_nil, List.append_nil] at whole

/-- A list that is preceded by its length, and what follows it. -/
theorem counted
    {step : Read α}
    {next : List α → Read β}
    {bytes other more others : Bytes}
    (before :
      Alike (do
        let count ← readU2
        readMany step count.toNat) bytes other)
    (after : ∀ items, Alike (next items) more others) :
    Alike (do
      let count ← readU2
      let items ← readMany step count.toNat
      next items) (bytes ++ more) (other ++ others) := by
  rw [← bind_assoc]
  exact before.bind after

/-- What is read alike is decoded alike. -/
theorem decode_eq
    {bytes other : Bytes}
    (alike : Alike readClass bytes other)
    (rest : Bytes) :
    decode (other ++ rest) = decode (bytes ++ rest) := by
  obtain ⟨answer, one, another⟩ := alike
  rw [decode, decode, one rest, another rest]

end Alike

namespace ConstantPool

/-- Looking up a constant gives an answer without any bytes. -/
theorem alike_get
    (pool : ConstantPool)
    (select : Constant → Option α)
    (index : UInt16) :
    Alike (pool.get select index) [] [] := by
  unfold get
  split
  · exact (reads_pure _).alike
  · have answers :
        Answers (throw (.invalidIndex index) : Read α) []
          (.error (.invalidIndex index)) :=
      fun _ => rfl
    exact answers.alike

/-- The name of a class is looked up without bytes. -/
theorem alike_className
    (pool : ConstantPool)
    (index : UInt16) :
    Alike (pool.className index) [] [] :=
  .still (pool.alike_get _ index) fun nameIndex =>
    .still (pool.alike_get _ nameIndex) fun _ => (reads_pure _).alike

/-- So is the name of a superclass. -/
theorem alike_superName
    (pool : ConstantPool)
    (index : UInt16) :
    Alike (pool.superName index) [] [] := by
  unfold superName
  split
  · exact (reads_pure _).alike
  · rw [← bind_pure_comp]
    exact .still (pool.alike_className index) fun _ => (reads_pure _).alike

end ConstantPool

/-! ## Tables -/

/-- What a reader makes of one attribute. -/
def takeIn
    (pool : ConstantPool)
    (handle : σ → String → Read σ)
    (state : σ)
    (part : AttributePart) :
    Except Fault σ :=
  ((pool.text part.nameIndex >>= handle state).run part.content).map Prod.fst

/-- A content is answered within its own bytes. -/
theorem answers_within
    (pool : ConstantPool)
    (handle : String → Read σ)
    (nameIndex : UInt16)
    (content : Bytes) :
    Answers (do
      let name ← pool.text nameIndex
      readWithin content (handle name)) []
      (((pool.text nameIndex >>= handle).run content).map Prod.fst) := by
  intro rest
  unfold ConstantPool.text ConstantPool.get
  cases pool.slots[nameIndex.toNat]?.bind _ with
  | none =>
      rfl
  | some name =>
      change (readWithin content (handle name)).run rest =
        (((handle name).run content).map Prod.fst).map (·, rest)
      unfold readWithin
      cases (handle name).run content <;> rfl

/-- An attribute is answered as its content is taken in. -/
theorem answers_attribute
    {part : AttributePart}
    (fits : part.Fits)
    (pool : ConstantPool)
    (handle : σ → String → Read σ)
    (state : σ) :
    Answers (readAttribute pool handle state) part.bytes
      (takeIn pool handle state part) := by
  have length :
      (UInt32.ofNat part.content.length).toNat = part.content.length := by
    rw [UInt32.toNat_ofNat']
    exact Nat.mod_eq_of_lt fits
  refine (reads_u2 part.nameIndex).answers ((reads_u4 _).answers ?_)
  refine (reads_bytes length.symm).answersNil ?_
  exact answers_within pool (handle state) part.nameIndex part.content

/-- A table is taken in attribute by attribute. -/
theorem answers_fold
    {parts : List AttributePart}
    (fits : ∀ part ∈ parts, part.Fits)
    (pool : ConstantPool)
    (handle : σ → String → Read σ)
    (start : σ) :
    Answers (readFold (readAttribute pool handle) parts.length start)
      (parts.flatMap AttributePart.bytes)
      (parts.foldlM (takeIn pool handle) start) := by
  induction parts generalizing start with
  | nil =>
      exact reads_pure start
  | cons part parts inductionHypothesis =>
      rw [List.forall_mem_cons] at fits
      rw [List.foldlM_cons]
      exact (answers_attribute fits.1 pool handle start).bind fun next =>
        inductionHypothesis fits.2 next

/-- Attributes are answered as they are taken in one by one. -/
theorem answers_attributes
    {parts : List AttributePart}
    (fits : FitsCounted AttributePart.Fits parts)
    (pool : ConstantPool)
    (handle : σ → String → Read σ)
    (start : σ) :
    Answers (readAttributes pool handle start)
      (countedBytes AttributePart.bytes parts)
      (parts.foldlM (takeIn pool handle) start) := by
  refine (reads_u2 _).answers ?_
  rw [toNat_count16 fits.count]
  exact answers_fold fits.each pool handle start

/-- A step that does nothing may be put anywhere between the others. -/
theorem foldlM_insertIdx
    {step : σ → α → Except ε σ}
    {item : α}
    (idle : ∀ state, step state item = .ok state)
    (items : List α)
    (position : Nat)
    (start : σ) :
    (items.insertIdx position item).foldlM step start =
      items.foldlM step start := by
  induction items generalizing position start with
  | nil =>
      cases position with
      | zero =>
          rw [List.insertIdx_zero, List.foldlM_cons, idle]
          rfl
      | succ position =>
          rfl
  | cons first items inductionHypothesis =>
      cases position with
      | zero =>
          rw [List.insertIdx_zero, List.foldlM_cons, idle]
          rfl
      | succ position =>
          rw [List.insertIdx_succ_cons, List.foldlM_cons, List.foldlM_cons]
          exact congrArg _ (funext fun next => inductionHypothesis position next)

/-- An attribute by a name of which the reader makes nothing. -/
structure AttributePart.IsUnknown
    (part : AttributePart)
    (pool : ConstantPool)
    (names : List String) :
    Prop where
  fits : part.Fits
  named :
    ∃ name,
      pool.slots[part.nameIndex.toNat]? = some (.text name) ∧ name ∉ names

/-- An attribute that the reader does not know changes no state. -/
theorem AttributePart.IsUnknown.takeIn_eq
    {part : AttributePart}
    {pool : ConstantPool}
    {names : List String}
    (unknown : part.IsUnknown pool names)
    {handle : σ → String → Read σ}
    (ignores : ∀ state, ∀ name ∉ names, handle state name = pure state)
    (state : σ) :
    takeIn pool handle state part = .ok state := by
  obtain ⟨name, found, notKnown⟩ := unknown.named
  have looked : pool.text part.nameIndex = pure name := by
    unfold ConstantPool.text ConstantPool.get
    rw [found]
    rfl
  rw [takeIn, looked, pure_bind, ignores state name notKnown]
  rfl

/-- A table with one more attribute of which the reader makes nothing. -/
theorem alike_insertIdx
    {parts : List AttributePart}
    (fits : FitsCounted AttributePart.Fits parts)
    (room : parts.length < 65535)
    {part : AttributePart}
    {pool : ConstantPool}
    {names : List String}
    (unknown : part.IsUnknown pool names)
    {handle : σ → String → Read σ}
    (ignores : ∀ state, ∀ name ∉ names, handle state name = pure state)
    (position : Nat)
    (start : σ) :
    Alike (readAttributes pool handle start)
      (countedBytes AttributePart.bytes parts)
      (countedBytes AttributePart.bytes (parts.insertIdx position part)) := by
  have longer :
      FitsCounted AttributePart.Fits (parts.insertIdx position part) := by
    refine ⟨?_, fun other member => ?_⟩
    · have most : (parts.insertIdx position part).length ≤ parts.length + 1 :=
        List.length_insertIdx_le_succ
      omega
    · rcases List.eq_or_mem_of_mem_insertIdx member with rfl | there
      · exact unknown.fits
      · exact fits.each other there
  refine ⟨_, answers_attributes fits pool handle start, ?_⟩
  have same :=
    foldlM_insertIdx (unknown.takeIn_eq ignores) parts position start
  rw [← same]
  exact answers_attributes longer pool handle start

/-! ## Members and classes -/

/-- Fields and methods are read alike if their tables are. -/
theorem alike_member
    (pool : ConstantPool)
    (handle : σ → String → Read σ)
    (start : UInt16 → String → String → σ)
    {part : MemberPart}
    {attributes : List AttributePart}
    (alike :
      ∀ state,
        Alike (readAttributes pool handle state)
          (countedBytes AttributePart.bytes part.attributes)
          (countedBytes AttributePart.bytes attributes)) :
    Alike
      (do
        let access ← readU2
        let name ← pool.text (← readU2)
        let descriptor ← pool.text (← readU2)
        readAttributes pool handle (start access name descriptor))
      part.bytes { part with attributes := attributes }.bytes :=
  (reads_u2 part.access).bindAlike <| (reads_u2 part.nameIndex).bindAlike <|
    .still (pool.alike_get _ part.nameIndex) fun name =>
      (reads_u2 part.descriptorIndex).bindAlike <|
        .still (pool.alike_get _ part.descriptorIndex) fun descriptor =>
          alike (start part.access name descriptor)

/-- Lists are read alike if they are so part by part. -/
theorem alike_counted
    {step : Read α}
    {bytes : β → Bytes}
    {parts others : List β}
    (count : parts.length ≤ 65535)
    (alike :
      List.Forall₂ (fun part other => Alike step (bytes part) (bytes other))
        parts others) :
    Alike
      (do
        let count ← readU2
        readMany step count.toNat)
      (countedBytes bytes parts) (countedBytes bytes others) := by
  have many :
      Alike (readMany step parts.length) (parts.flatMap bytes)
        (others.flatMap bytes) := by
    clear count
    induction alike with
    | nil =>
        exact (reads_pure []).alike
    | cons first _ inductionHypothesis =>
        exact first.bind fun item =>
          inductionHypothesis.bindNil fun items => (reads_pure _).alike
  obtain ⟨answer, one, another⟩ := many
  have length : others.length = parts.length := alike.length_eq.symm
  refine ⟨answer, (reads_u2 _).answers ?_, (reads_u2 _).answers ?_⟩
  · rwa [toNat_count16 count]
  · rwa [length, toNat_count16 count]

/-- One part of a list is changed, and the others stay. -/
theorem forall₂_modify
    {Like : β → β → Prop}
    {change : β → β}
    {parts : List β}
    {index : Nat}
    (same : ∀ part ∈ parts, Like part part)
    (changed : ∀ part ∈ parts[index]?, Like part (change part)) :
    List.Forall₂ Like parts (parts.modify index change) := by
  induction parts generalizing index with
  | nil =>
      rw [List.modify_nil]
      exact .nil
  | cons part parts inductionHypothesis =>
      rw [List.forall_mem_cons] at same
      cases index with
      | zero =>
          rw [List.modify_zero_cons]
          exact .cons (changed part rfl) (List.forall₂_same.mpr same.2)
      | succ index =>
          rw [List.modify_succ_cons]
          exact .cons same.1 (inductionHypothesis same.2 changed)

/-- A class is read alike if its members and its table are. -/
theorem alike_class
    {parts : ClassParts}
    {pool : ConstantPool}
    (fits : parts.Fits pool)
    {fields methods : List MemberPart}
    {attributes : List AttributePart}
    (alikeFields :
      List.Forall₂
        (fun part other => Alike (readField pool) part.bytes other.bytes)
        parts.fields fields)
    (alikeMethods :
      List.Forall₂
        (fun part other => Alike (readMethod pool) part.bytes other.bytes)
        parts.methods methods)
    (alikeAttributes :
      ∀ decl,
        Alike (readAttributes pool (readClassAttribute pool) decl)
          (countedBytes AttributePart.bytes parts.attributes)
          (countedBytes AttributePart.bytes attributes)) :
    Alike readClass parts.bytes
      { parts with
        fields := fields
        methods := methods
        attributes := attributes }.bytes := by
  have interface :
      ∀ index, Alike (do pool.className (← readU2)) (writeU2 index)
        (writeU2 index) :=
    fun index => (reads_u2 index).alike.bindNil pool.alike_className
  have body :
      Alike (readBody parts.majorVersion pool) parts.bodyBytes
        { parts with
          fields := fields
          methods := methods
          attributes := attributes }.bodyBytes := by
    refine (reads_u2 parts.access).bindAlike ?_
    refine (reads_u2 parts.thisClass).bindAlike ?_
    refine (reads_u2 parts.superClass).bindAlike ?_
    refine .still (pool.alike_className parts.thisClass) fun name => ?_
    refine .still (pool.alike_superName parts.superClass) fun superName => ?_
    refine .counted (alike_counted fits.interfaces
      (List.forall₂_same.mpr fun index _ => interface index)) fun _ => ?_
    refine .counted (alike_counted fits.fields.count alikeFields) fun _ => ?_
    refine .counted (alike_counted fits.methods.count alikeMethods) fun _ => ?_
    exact alikeAttributes _
  refine (reads_u4 magic).bindAlike ?_
  refine (reads_u2 parts.minorVersion).bindAlike ?_
  refine (reads_u2 parts.majorVersion).bindAlike ?_
  exact fits.constants.bindAlike body

/-! ## Insertion -/

/-- Where attributes are listed: in the class, in a field or in a method. -/
inductive Table where
  | ofClass
  | ofField (index : Nat)
  | ofMethod (index : Nat)
  deriving Repr, DecidableEq

namespace Table

/-- The names of the attributes that the reader looks into. -/
def names : Table → List String
  | ofMethod _ =>
      ["Signature", "RuntimeVisibleAnnotations", "RuntimeInvisibleAnnotations",
        "RuntimeVisibleParameterAnnotations",
        "RuntimeInvisibleParameterAnnotations", "AnnotationDefault",
        "MethodParameters"]
  | _ =>
      ["Signature", "RuntimeVisibleAnnotations", "RuntimeInvisibleAnnotations"]

end Table

namespace ClassParts

/-- The attributes in a table. -/
def attributesIn
    (parts : ClassParts) :
    Table → Option (List AttributePart)
  | .ofClass => some parts.attributes
  | .ofField index => parts.fields[index]?.map (·.attributes)
  | .ofMethod index => parts.methods[index]?.map (·.attributes)

/-- One more attribute at a position of a table. -/
def insert
    (parts : ClassParts)
    (table : Table)
    (position : Nat)
    (added : AttributePart) :
    ClassParts :=
  let longer (member : MemberPart) : MemberPart :=
    { member with attributes := member.attributes.insertIdx position added }
  match table with
  | .ofClass =>
      { parts with
        attributes := parts.attributes.insertIdx position added }
  | .ofField index => { parts with fields := parts.fields.modify index longer }
  | .ofMethod index =>
      { parts with methods := parts.methods.modify index longer }

/-- A table has room for an attribute that the reader does not look into. -/
structure Admits
    (parts : ClassParts)
    (pool : ConstantPool)
    (table : Table)
    (added : AttributePart) :
    Prop where
  unknown : added.IsUnknown pool table.names
  room :
    ∃ attributes,
      parts.attributesIn table = some attributes ∧ attributes.length < 65535

end ClassParts

/-! The reader of each kind of table makes nothing of other names. -/

/-- The reader of classes passes over other attributes. -/
theorem readClassAttribute_of_notMem
    (pool : ConstantPool)
    (decl : ClassDecl)
    (name : String)
    (notKnown : name ∉ Table.ofClass.names) :
    readClassAttribute pool decl name = pure decl := by
  unfold readClassAttribute
  split <;> simp_all [Table.names]

/-- The reader of fields passes over other attributes. -/
theorem readFieldAttribute_of_notMem
    (pool : ConstantPool)
    (index : Nat)
    (field : FieldDecl)
    (name : String)
    (notKnown : name ∉ (Table.ofField index).names) :
    readFieldAttribute pool field name = pure field := by
  unfold readFieldAttribute
  split <;> simp_all [Table.names]

/-- The reader of methods passes over other attributes. -/
theorem readMethodAttribute_of_notMem
    (pool : ConstantPool)
    (index : Nat)
    (method : MethodDecl)
    (name : String)
    (notKnown : name ∉ (Table.ofMethod index).names) :
    readMethodAttribute pool method name = pure method := by
  unfold readMethodAttribute
  split <;> simp_all [Table.names]

/-! Unchanged members are read alike. -/

/-- A field as it stands is read like itself. -/
theorem MemberPart.Fits.alike_field
    {part : MemberPart}
    (fits : part.Fits)
    (pool : ConstantPool) :
    Alike (readField pool) part.bytes part.bytes :=
  alike_member pool (readFieldAttribute pool) _ fun state =>
    (answers_attributes fits pool _ state).alike

/-- A method as it stands is read like itself. -/
theorem MemberPart.Fits.alike_method
    {part : MemberPart}
    (fits : part.Fits)
    (pool : ConstantPool) :
    Alike (readMethod pool) part.bytes part.bytes :=
  alike_member pool (readMethodAttribute pool) _ fun state =>
    (answers_attributes fits pool _ state).alike

/-- A class is read alike with an attribute that the reader does not know. -/
theorem ClassParts.Admits.alike
    {parts : ClassParts}
    {pool : ConstantPool}
    {table : Table}
    {added : AttributePart}
    (admits : parts.Admits pool table added)
    (fits : parts.Fits pool)
    (position : Nat) :
    Alike readClass parts.bytes (parts.insert table position added).bytes := by
  obtain ⟨unknown, attributes, there, room⟩ := admits
  have sameFields := fun part member =>
    (fits.fields.each part member).alike_field pool
  have sameMethods := fun part member =>
    (fits.methods.each part member).alike_method pool
  have sameAttributes := fun decl =>
    (answers_attributes fits.attributes pool (readClassAttribute pool)
      decl).alike
  cases table with
  | ofClass =>
      cases there
      exact alike_class fits (List.forall₂_same.mpr sameFields)
        (List.forall₂_same.mpr sameMethods) fun decl =>
          alike_insertIdx fits.attributes room unknown
            (readClassAttribute_of_notMem pool) position decl
  | ofField index =>
      refine alike_class fits (forall₂_modify sameFields ?_)
        (List.forall₂_same.mpr sameMethods) sameAttributes
      intro part found
      obtain rfl : part.attributes = attributes := by
        simpa [attributesIn, Option.mem_def.mp found] using there
      exact alike_member pool (readFieldAttribute pool) _ fun field =>
        alike_insertIdx (fits.fields.each part (List.mem_of_getElem? found)) room
          unknown (readFieldAttribute_of_notMem pool index) position field
  | ofMethod index =>
      refine alike_class fits (List.forall₂_same.mpr sameFields)
        (forall₂_modify sameMethods ?_) sameAttributes
      intro part found
      obtain rfl : part.attributes = attributes := by
        simpa [attributesIn, Option.mem_def.mp found] using there
      exact alike_member pool (readMethodAttribute pool) _ fun method =>
        alike_insertIdx (fits.methods.each part (List.mem_of_getElem? found))
          room unknown (readMethodAttribute_of_notMem pool index) position method

/--
A byte string that can be decoded is made up of parts in one way, and with one
more attribute that is not known, at any position of any of its tables, it is
decoded as the same class.
-/
theorem decode_ignores_unknown
    {bytes : Bytes}
    {decl : ClassDecl}
    (decoded : decode bytes = .ok decl) :
    (∃! whole : ClassParts × ConstantPool × Bytes,
      IsMadeUpOf bytes whole.1 whole.2.1 whole.2.2) ∧
      ∀ (parts : ClassParts) (pool : ConstantPool) (rest : Bytes),
        IsMadeUpOf bytes parts pool rest →
          ∀ (table : Table) (position : Nat) (added : AttributePart),
            parts.Admits pool table added →
              decode ((parts.insert table position added).bytes ++ rest) =
                .ok decl := by
  refine ⟨existsUnique_parts_of_decode decoded, ?_⟩
  rintro parts pool rest ⟨fits, rfl⟩ table position added admits
  rw [(admits.alike fits position).decode_eq rest, decoded]

/-- The constants of a class with one method, and the name of an attribute. -/
def boxConstants : Draft :=
  [.text "demo/Box", .classRef 1, .text "run", .text "()V", .text "Code"]

/-- A class with one method, which has no attributes. -/
def boxParts : ClassParts :=
  { minorVersion := 0
    majorVersion := 52
    constants := boxConstants.bytes
    access := 0x21
    thisClass := 2
    superClass := 0
    interfaces := []
    fields := []
    methods := [⟨0x1, 3, 4, []⟩]
    attributes := [] }

/-- The class that is read from these parts. -/
def boxDecl : ClassDecl :=
  { majorVersion := 52
    access := 0x21
    name := "demo.Box"
    methods := [{ access := 0x1, name := "run", descriptor := "()V" }] }

/-- The code of the method does not matter. -/
theorem decode_ignores_unknown_boxParts :
    decode boxParts.bytes = .ok boxDecl ∧
      IsMadeUpOf boxParts.bytes boxParts boxConstants.pool [] ∧
      boxParts.Admits boxConstants.pool (.ofMethod 0) ⟨5, [0x2A, 0xB1]⟩ ∧
      decode ((boxParts.insert (.ofMethod 0) 0 ⟨5, [0x2A, 0xB1]⟩).bytes ++ []) =
        .ok boxDecl := by
  have decoded : decode boxParts.bytes = .ok boxDecl := by
    with_unfolding_all rfl
  have writable : ∀ constant ∈ boxConstants, constant.Writable := by
    simp only [boxConstants, List.forall_mem_cons, Constant.Writable,
      List.not_mem_nil, false_implies, implies_true]
    decide +kernel
  have fits : boxParts.Fits boxConstants.pool :=
    { constants := Draft.reads_pool ⟨by decide, writable⟩
      interfaces := by decide
      fields := ⟨by decide, fun _ member => absurd member List.not_mem_nil⟩
      methods := by
        refine ⟨by decide, fun part member => ?_⟩
        obtain rfl := List.mem_singleton.mp member
        exact ⟨by decide, fun _ member => absurd member List.not_mem_nil⟩
      attributes :=
        ⟨by decide, fun _ member => absurd member List.not_mem_nil⟩ }
  have madeUp : IsMadeUpOf boxParts.bytes boxParts boxConstants.pool [] :=
    ⟨fits, (List.append_nil _).symm⟩
  have admits :
      boxParts.Admits boxConstants.pool (.ofMethod 0) ⟨5, [0x2A, 0xB1]⟩ :=
    ⟨⟨by decide, "Code", by decide, by decide⟩, [], rfl, by decide⟩
  exact ⟨decoded, madeUp, admits,
    (decode_ignores_unknown decoded).2 _ _ _ madeUp _ 0 _ admits⟩

end TypeAtlas.ClassFile
