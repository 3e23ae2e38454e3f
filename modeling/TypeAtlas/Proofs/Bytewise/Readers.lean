import TypeAtlas.Proofs.Bytewise.Signatures

namespace TypeAtlas.Bytewise

/-!
# No reader missteps

Every walk over the bytes of a signature keeps level with its reader of
characters, from the first type to the last. The reader has a budget of calls
and the walk has none; a call needs at most two for every character that is
left, and one or two more, so the budget is never what ends the reading. With
the readers of descriptors this covers all that is read from texts: on every
text a walk over its bytes comes to an end, takes no misstep on the way, and
gives what the reader of characters gives.
-/

open Signature (Event Scan Trace)
open Track

variable
  {text : String}
  {rest : List Char}

/-! ## Types -/

/-- A type is read alike if the types behind its brackets are. -/
theorem mirrors_signatureType
    {reference : Scan Unit}
    (mirrors : Mirrors text rest (referenceType text) reference rest.length) :
    Mirrors text rest (signatureType text) (Signature.typeOr reference)
      rest.length := by
  rw [signatureType]
  refine .look fun c more remaining => ?_
  rw [coarse_ofTag?.leadByte_eq]
  cases tagged : BaseType.ofTag? c with
  | none =>
      exact mirrors
  | some type =>
      have ascii := ascii_of_ofTag? tagged
      subst remaining
      rw [(leadByte_eq_iff ascii).mpr rfl]
      exact .advance ascii (mirrors_tell _ (Nat.lt_succ_self _))

/-- The reader of a reference type, as questions asked one after another. -/
theorem referenceType_succ
    (fuel : Nat) :
    Signature.referenceType (fuel + 1) = (do
      let c ← Signature.peek
      if c = 'L' then
        Signature.classType fuel
      else if c = 'T' then
        Signature.advance 1
        let name ← Signature.identifier [';']
        Signature.advance 1
        Signature.emit (.typeVariable name)
      else if c = '[' then
        Signature.advance 1
        Signature.emit .array
        Signature.typeOr (Signature.referenceType fuel)
      else
        throw (.unexpectedTag c)) := by
  rw [Signature.referenceType]
  refine congrArg (Signature.peek >>= ·) (funext fun c => ?_)
  split
  · rfl
  · rfl
  · rfl
  · next notClass notVariable notArray =>
      rw [if_neg notClass, if_neg notVariable, if_neg notArray]

/-- The reader of type arguments, in the same form. -/
theorem argumentList_succ
    (fuel : Nat) :
    Signature.argumentList (fuel + 1) = (do
      let c ← Signature.peek
      if c = '>' then
        Signature.advance 1
      else if c = '*' then
        Signature.advance 1
        Signature.emit .anyArgument
        Signature.argumentList fuel
      else if c = '+' then
        Signature.advance 1
        Signature.emit (.argument .upper)
        Signature.referenceType fuel
        Signature.argumentList fuel
      else if c = '-' then
        Signature.advance 1
        Signature.emit (.argument .lower)
        Signature.referenceType fuel
        Signature.argumentList fuel
      else
        Signature.emit (.argument .exact)
        Signature.referenceType fuel
        Signature.argumentList fuel) := by
  rw [Signature.argumentList]
  refine congrArg (Signature.peek >>= ·) (funext fun c => ?_)
  split
  · rfl
  · rfl
  · rfl
  · rfl
  · next notClosing notAny notUpper notLower =>
      rw [if_neg notClosing, if_neg notAny, if_neg notUpper, if_neg notLower]

mutual

/-- A type that is not primitive is read alike, given enough fuel. -/
theorem mirrors_referenceType
    (fuel : Nat)
    {rest : List Char}
    (enough : 2 * rest.length + 1 ≤ fuel) :
    Mirrors text rest (referenceType text) (Signature.referenceType fuel)
      rest.length := by
  match fuel, enough with
  | fuel + 1, enough =>
      rw [referenceType, referenceType_succ]
      refine .look fun c more remaining => ?_
      subst remaining
      rw [List.length_cons] at enough ⊢
      refine .branch (by decide) ?_ fun _ => ?_
      · rintro rfl
        exact mirrors_classType fuel (by rw [List.length_cons]; omega)
      refine .branch (by decide) ?_ fun _ => ?_
      · rintro rfl
        refine .advance (by decide) ?_
        refine .identifier (by decide) fun name left shorter starts => ?_
        obtain ⟨stop, behind, rfl, member⟩ := starts
        obtain rfl := List.mem_singleton.mp member
        rw [List.length_cons] at shorter
        exact .advance (by decide) (mirrors_tell _ (by omega))
      refine .branch (by decide) ?_ fun _ => ?_
      · rintro rfl
        refine .advance (by decide) (.tell .array ?_)
        have element :
            Mirrors text more (referenceType text)
              (Signature.referenceType fuel) more.length :=
          mirrors_referenceType fuel (by omega)
        exact (mirrors_signatureType element).mono (by omega)
      · exact mirrors_refuse (.unexpectedTag c)

/-- A class type is read alike, down to the semicolon. -/
theorem mirrors_classType
    (fuel : Nat)
    {rest : List Char}
    (enough : 2 * rest.length ≤ fuel) :
    Mirrors text rest (classType text) (Signature.classType fuel)
      rest.length := by
  match fuel, enough with
  | 0, enough =>
      -- Without a character left, both readers are at their end at once.
      obtain rfl : rest = [] := List.length_eq_zero_iff.mp (by omega)
      rw [classType, Signature.classType]
      intro cursor place level remaining
      exact .refuses
        (ends_expect_nil 'L' (remaining ▸ level.stands)).bind_refused level
  | fuel + 1, enough =>
      rw [classType, Signature.classType]
      refine (mirrors_expect (by decide)).bind fun _ named less => ?_
      refine .identifier (by decide) fun name arguments shorter _ => ?_
      refine .tell _ ?_
      refine (mirrors_typeArguments fuel (by omega)).bind
        fun _ segments fewer => ?_
      refine (mirrors_nestedSegments fuel (by omega)).bind
        fun _ closing fewest => ?_
      refine (mirrors_expect (by decide)).bind fun _ left behind => ?_
      exact mirrors_tell .close (by omega)

/--
The segments of a class type are read alike, as long as a point goes before.
-/
theorem mirrors_nestedSegments
    (fuel : Nat)
    {rest : List Char}
    (enough : 2 * rest.length + 1 ≤ fuel) :
    Mirrors text rest (nestedSegments text) (Signature.nestedSegments fuel)
      (rest.length + 1) := by
  match fuel, enough with
  | fuel + 1, enough =>
      rw [nestedSegments, Signature.nestedSegments]
      refine .look fun c more remaining => .branch (by decide) ?_ fun _ => ?_
      · rintro rfl
        subst remaining
        rw [List.length_cons] at enough ⊢
        refine .advance (by decide) ?_
        refine .identifier (by decide) fun name arguments shorter _ => ?_
        refine .tell _ ?_
        refine (mirrors_typeArguments fuel (by omega)).bind
          fun _ segments fewer => ?_
        exact (mirrors_nestedSegments fuel (by omega)).mono (by omega)
      · exact mirrors_pure (Nat.lt_succ_self _)

/-- Type arguments are read alike, if there are any. -/
theorem mirrors_typeArguments
    (fuel : Nat)
    {rest : List Char}
    (enough : 2 * rest.length + 1 ≤ fuel) :
    Mirrors text rest (typeArguments text) (Signature.typeArguments fuel)
      (rest.length + 1) := by
  match fuel, enough with
  | fuel + 1, enough =>
      rw [typeArguments, Signature.typeArguments]
      refine .look fun c more remaining => .branch (by decide) ?_ fun _ => ?_
      · rintro rfl
        subst remaining
        rw [List.length_cons] at enough ⊢
        refine .advance (by decide) ?_
        exact (mirrors_argumentList fuel (by omega)).mono (by omega)
      · exact mirrors_pure (Nat.lt_succ_self _)

/--
The arguments between the angle brackets are read alike, wildcards included.
-/
theorem mirrors_argumentList
    (fuel : Nat)
    {rest : List Char}
    (enough : 2 * rest.length + 2 ≤ fuel) :
    Mirrors text rest (argumentList text) (Signature.argumentList fuel)
      rest.length := by
  match fuel, enough with
  | fuel + 1, enough =>
      -- An argument without a sign is read where the list begins, so only
      -- the type in it makes the text shorter.
      have more :
          ∀ {left : List Char}, left.length < rest.length →
            Mirrors text left (argumentList text) (Signature.argumentList fuel)
              rest.length :=
        fun fewer => (mirrors_argumentList fuel (by omega)).mono (by omega)
      have typed :
          ∀ {left : List Char}, left.length ≤ rest.length →
            Mirrors text left
              (do
                referenceType text
                argumentList text)
              (do
                Signature.referenceType fuel
                Signature.argumentList fuel)
              rest.length :=
        fun fewer => (mirrors_referenceType fuel (by omega)).bind
          fun _ _ shorter => more (by omega)
      rw [argumentList, argumentList_succ]
      refine .look fun c left remaining => ?_
      have shorter : left.length < rest.length := by
        rw [remaining]
        exact Nat.lt_succ_self _
      refine .branch (by decide) ?_ fun _ => ?_
      · rintro rfl
        rw [remaining]
        exact mirrors_advance (by decide) (Nat.lt_succ_self _)
      refine .branch (by decide) ?_ fun _ => ?_
      · rintro rfl
        nth_rewrite 1 [remaining]
        exact .advance (by decide) (.tell .anyArgument (more shorter))
      refine .branch (by decide) ?_ fun _ => ?_
      · rintro rfl
        nth_rewrite 1 [remaining]
        exact .advance (by decide) (.tell _ (typed shorter.le))
      refine .branch (by decide) ?_ fun _ => ?_
      · rintro rfl
        nth_rewrite 1 [remaining]
        exact .advance (by decide) (.tell _ (typed shorter.le))
      · exact .tell _ (typed le_rfl)

end

/-- A type of any kind is read alike. -/
theorem mirrors_type
    {fuel : Nat}
    {rest : List Char}
    (enough : 2 * rest.length + 1 ≤ fuel) :
    Mirrors text rest (signatureType text)
      (Signature.typeOr (Signature.referenceType fuel)) rest.length :=
  mirrors_signatureType (mirrors_referenceType fuel enough)

/-! ## Whole signatures -/

/--
The interface bounds of a formal are read alike, up to the first other
character.
-/
theorem mirrors_interfaceBounds
    (fuel : Nat)
    {rest : List Char}
    (enough : 2 * rest.length + 1 ≤ fuel) :
    Mirrors text rest (interfaceBounds text) (Signature.interfaceBounds fuel)
      (rest.length + 1) := by
  match fuel, enough with
  | fuel + 1, enough =>
      rw [interfaceBounds, Signature.interfaceBounds]
      refine .look fun c more remaining => .branch (by decide) ?_ fun _ => ?_
      · rintro rfl
        subst remaining
        rw [List.length_cons] at enough ⊢
        refine .advance (by decide) (.tell _ ?_)
        refine (mirrors_referenceType fuel (by omega)).bind
          fun _ left fewer => ?_
        exact (mirrors_interfaceBounds fuel (by omega)).mono (by omega)
      · exact mirrors_pure (Nat.lt_succ_self _)

/-- Formals are read alike, each with its name and its bounds. -/
theorem mirrors_formalList
    (fuel : Nat)
    {rest : List Char}
    (enough : 2 * rest.length + 1 ≤ fuel) :
    Mirrors text rest (formalList text) (Signature.formalList fuel)
      rest.length := by
  match fuel, enough with
  | fuel + 1, enough =>
      rw [formalList, Signature.formalList]
      refine .identifier (by decide) fun name left shorter _ => ?_
      refine .tell _ ?_
      refine (mirrors_expect (by decide)).bind fun _ bounds fewer => ?_
      have goesOn :
          ∀ {left : List Char}, left.length ≤ bounds.length →
            Mirrors text left
              (do
                interfaceBounds text
                if (← look text) = '>' then
                  advance text
                else
                  formalList text)
              (do
                Signature.interfaceBounds fuel
                if (← Signature.peek) = '>' then
                  Signature.advance 1
                else
                  Signature.formalList fuel)
              rest.length := by
        intro left within
        refine (mirrors_interfaceBounds fuel (by omega)).bind
          fun _ closing fewest => ?_
        refine .look fun c more remaining => .branch (by decide) ?_ fun _ => ?_
        · rintro rfl
          subst remaining
          rw [List.length_cons] at fewest
          exact mirrors_advance (by decide) (by omega)
        · exact (mirrors_formalList fuel (by omega)).mono (by omega)
      refine .look fun c more _ => ?_
      rw [(coarse_contains (by decide)).leadByte_eq c]
      split
      · refine .tell _ ?_
        exact (mirrors_referenceType fuel (by omega)).bind
          fun _ left fewest => goesOn (by omega)
      · exact goesOn le_rfl

/-- The formals of a signature are read alike, if there are any. -/
theorem mirrors_formals
    {fuel : Nat}
    {rest : List Char}
    (enough : 2 * rest.length + 1 ≤ fuel) :
    Mirrors text rest (formals text) (Signature.formals fuel)
      (rest.length + 1) := by
  refine .get fun cursor remaining => .aheadAtEnd ?_
  rw [remaining]
  cases rest with
  | nil =>
      exact mirrors_pure (Nat.lt_succ_self _)
  | cons c more =>
      refine .aheadLook ?_
      simp only [List.head?_cons, Option.some.injEq]
      rw [List.length_cons] at enough ⊢
      refine .branch (by decide) ?_ fun _ => mirrors_pure (Nat.lt_succ_self _)
      rintro rfl
      refine .advance (by decide) ?_
      exact (mirrors_formalList fuel (by omega)).mono (by omega)

/-- The interfaces of a class signature are read alike, up to the end. -/
theorem mirrors_interfaces
    (fuel : Nat)
    {rest : List Char}
    (enough : 2 * rest.length + 1 ≤ fuel) :
    Mirrors text rest (interfaces text) (Signature.interfaces fuel)
      (rest.length + 1) := by
  match fuel, enough with
  | fuel + 1, enough =>
      rw [interfaces, Signature.interfaces]
      refine .atEnd ?_
      cases rest.isEmpty with
      | true =>
          exact mirrors_pure (Nat.lt_succ_self _)
      | false =>
          refine .tell _ ?_
          refine (mirrors_classType fuel (by omega)).bind fun _ left fewer => ?_
          exact (mirrors_interfaces fuel (by omega)).mono (by omega)

/-- The parameters of a method signature are read alike, up to the bracket. -/
theorem mirrors_parameters
    (fuel : Nat)
    {rest : List Char}
    (enough : 2 * rest.length + 2 ≤ fuel) :
    Mirrors text rest (parameters text) (Signature.parameters fuel)
      (rest.length + 1) := by
  match fuel, enough with
  | fuel + 1, enough =>
      rw [parameters, Signature.parameters]
      refine .look fun c more remaining => ?_
      refine .branch (by decide) (fun _ => ?_) fun _ => ?_
      · exact mirrors_pure (Nat.lt_succ_self _)
      · refine .tell _ ?_
        refine (mirrors_type (by omega)).bind fun _ left fewer => ?_
        exact (mirrors_parameters fuel (by omega)).mono (by omega)

/-- The exceptions of a method signature are read alike, up to the end. -/
theorem mirrors_thrownTypes
    (fuel : Nat)
    {rest : List Char}
    (enough : 2 * rest.length + 1 ≤ fuel) :
    Mirrors text rest (thrownTypes text) (Signature.thrownTypes fuel)
      (rest.length + 1) := by
  match fuel, enough with
  | fuel + 1, enough =>
      rw [thrownTypes, Signature.thrownTypes]
      refine .atEnd ?_
      cases rest.isEmpty with
      | true =>
          exact mirrors_pure (Nat.lt_succ_self _)
      | false =>
          refine (mirrors_expect (by decide)).bind fun _ typed fewer => ?_
          refine .tell _ ?_
          refine (mirrors_referenceType fuel (by omega)).bind
            fun _ left fewest => ?_
          exact (mirrors_thrownTypes fuel (by omega)).mono (by omega)

/-- A class signature is read alike, from the formals to the last interface. -/
theorem mirrors_classSignature
    {fuel : Nat}
    {rest : List Char}
    (enough : 2 * rest.length + 1 ≤ fuel) :
    Mirrors text rest (classSignature text) (Signature.classSignature fuel)
      (rest.length + 1) := by
  refine (mirrors_formals enough).bind fun _ superclass fewer => ?_
  refine .tell _ ?_
  refine (mirrors_classType fuel (by omega)).bind fun _ left fewest => ?_
  exact (mirrors_interfaces fuel (by omega)).mono (by omega)

/-- A method signature is read alike, from the formals to the last exception. -/
theorem mirrors_methodSignature
    {fuel : Nat}
    {rest : List Char}
    (enough : 2 * rest.length + 1 ≤ fuel) :
    Mirrors text rest (methodSignature text) (Signature.methodSignature fuel)
      (rest.length + 1) := by
  refine (mirrors_formals enough).bind fun _ opening afterFormals => ?_
  refine (mirrors_expect (by decide)).bind fun _ listed afterOpening => ?_
  refine (mirrors_parameters fuel (by omega)).bind
    fun _ closing afterParameters => ?_
  refine (mirrors_expect (by decide)).bind fun _ result afterClosing => ?_
  refine .tell _ ?_
  refine .look fun c more remaining => .branch (by decide) ?_ fun _ => ?_
  · rintro rfl
    subst remaining
    rw [List.length_cons] at afterClosing
    refine .advance (by decide) (.tell _ ?_)
    exact (mirrors_thrownTypes fuel (by omega)).mono (by omega)
  · refine (mirrors_type (by omega)).bind fun _ thrown afterResult => ?_
    exact (mirrors_thrownTypes fuel (by omega)).mono (by omega)

/-- A field signature is read alike: it is one type. -/
theorem mirrors_fieldSignature
    {fuel : Nat}
    {rest : List Char}
    (enough : 2 * rest.length + 1 ≤ fuel) :
    Mirrors text rest (fieldSignature text) (Signature.fieldSignature fuel)
      (rest.length + 1) := by
  refine (mirrors_type enough).bind fun _ left fewer => ?_
  refine .atEnd ?_
  cases left.isEmpty with
  | true =>
      exact mirrors_pure (by omega)
  | false =>
      exact mirrors_refuse .trailing

/-! ## No missteps -/

/-- What a reader has reported of a text, with a fault in its wording. -/
def told (trace : Trace) : List Event × Option Complaint :=
  (trace.events,
    trace.malformed?.map fun malformed =>
      ⟨malformed.source, malformed.position, malformed.fault.reason⟩)

/--
A walk that keeps level with a reader reports what the reader does. A fault
quotes the whole text, and its position lies in the text.
-/
theorem Mirrors.traceBytes_eq
    {walk : String → Walk Event Unit}
    {reader : Nat → Scan Unit}
    {bound : Nat}
    (mirrors :
      Mirrors text text.toList (walk text)
        (reader (Signature.budget text.toList)) bound) :
    traceBytes walk text = some (.ok (told (Signature.trace reader text))) ∧
      ∀ malformed ∈ (Signature.trace reader text).malformed?,
        malformed.source = text ∧
          malformed.position ≤ text.utf8ByteSize := by
  have read :=
    mirrors { rest := text.toList } {} ⟨stands_start text, rfl, rfl⟩ rfl
  unfold traceBytes Signature.trace
  rw [Scan.at] at read
  generalize (reader (Signature.budget text.toList)).run.run _ = ran at read ⊢
  cases read with
  | reads ends level left =>
      rw [show (walk text).run.run {} = _ from ends]
      refine ⟨?_, fun malformed none => absurd none (Option.not_mem_none _)⟩
      simp only [told, ← level.events]
      rfl
  | refuses ends level =>
      rw [show (walk text).run.run {} = _ from ends]
      refine ⟨?_, ?_⟩
      · simp only [told, ← level.events, ← level.position]
        rfl
      · rintro malformed found
        obtain rfl := Option.mem_some_iff.mp found
        exact ⟨rfl, level.position ▸ level.stands.le_utf8ByteSize⟩

/--
No reader of descriptors or signatures can be led astray by a text. Walked
over byte by byte, with every move, look and cut checked, each of the five
readers comes to an end without a misstep and gives what it gives of
characters; and a fault in a signature quotes the whole text and lies in it.
-/
theorem readers_never_misstep
    (text : String) :
    readWhole typeDescriptor text =
        some (.ok ((Descriptor.parse text).mapError (·.message))) ∧
      readWhole methodDescriptor text =
        some (.ok ((MethodDescriptor.parse text).mapError (·.message))) ∧
      traceBytes classSignature text =
        some (.ok (told (Signature.traceClass text))) ∧
      traceBytes methodSignature text =
        some (.ok (told (Signature.traceMethod text))) ∧
      traceBytes fieldSignature text =
        some (.ok (told (Signature.traceField text))) ∧
      ∀ trace ∈
          [Signature.traceClass text, Signature.traceMethod text,
            Signature.traceField text],
        ∀ malformed ∈ trace.malformed?,
          malformed.source = text ∧
            malformed.position ≤ text.utf8ByteSize := by
  have enough :
      2 * text.toList.length + 1 ≤ Signature.budget text.toList := by
    rw [Signature.budget]
    omega
  obtain ⟨classRead, classFault⟩ :=
    (mirrors_classSignature enough).traceBytes_eq
  obtain ⟨methodRead, methodFault⟩ :=
    (mirrors_methodSignature enough).traceBytes_eq
  obtain ⟨fieldRead, fieldFault⟩ :=
    (mirrors_fieldSignature enough).traceBytes_eq
  refine ⟨readWhole_typeDescriptor text, readWhole_methodDescriptor text,
    classRead, methodRead, fieldRead, ?_⟩
  simp only [List.forall_mem_cons, List.not_mem_nil, false_implies,
    implies_true, and_true]
  exact ⟨classFault, methodFault, fieldFault⟩

end TypeAtlas.Bytewise
