import TypeAtlas.Descriptor.Basic
import TypeAtlas.Signature.Event

namespace TypeAtlas.Signature

/-!
# Reading signatures

A cursor walks the text and collects events as it goes. A fault stops the
walk; the events collected until then remain in the cursor.

The walk descends into type arguments, array elements and nested segments. The
descent takes a budget: no signature of `n` characters needs more than
`2 * n + 3` calls inside one another, because every call consumes a character
or is followed at once by one that does. `budget` is that bound, so the case of
an exhausted budget never decides an answer.
-/

/-- Where the walk stands: the unread text, its byte position, the events. -/
structure Cursor where
  rest : List Char
  position : Nat := 0
  events : List Event := []
  deriving Repr, DecidableEq

/-- A step of the walk. Faults keep the cursor as it was. -/
abbrev Scan :=
  ExceptT Fault (StateM Cursor)

/-- A bound on the calls inside one another for the given text. -/
def budget (cs : List Char) : Nat :=
  2 * cs.length + 3

/-- Report an event. -/
def emit (event : Event) : Scan Unit :=
  modify fun cursor =>
    { cursor with events := cursor.events ++ [event] }

def atEnd : Scan Bool := do
  return (← get).rest.isEmpty

/-- The next character, which has to exist. -/
def peek : Scan Char := do
  match (← get).rest with
  | [] => throw .unexpectedEnd
  | c :: _ => return c

/-- Step over characters already looked at. -/
def advance (count : Nat) : Scan Unit :=
  modify fun cursor =>
    { cursor with
      rest := cursor.rest.drop count
      position := cursor.position + Text.byteCount (cursor.rest.take count) }

/-- Step over one given character. -/
def expect (c : Char) : Scan Unit := do
  if (← peek) = c then
    advance 1
  else
    throw (.expected c)

/-- Read a non-empty name up to one of the stop characters, which is left. -/
def identifier (stops : List Char) : Scan String := do
  let cursor ← get
  let name := cursor.rest.takeWhile (!stops.contains ·)
  advance name.length
  if name.length = cursor.rest.length then
    throw .unexpectedEnd
  if name.isEmpty then
    throw .emptyIdentifier
  return String.ofList name

/-- The characters that end a class name. -/
def classStops : List Char :=
  ['<', '.', ';']

/-- Read a primitive type, or else a reference type. -/
def typeOr (reference : Scan Unit) : Scan Unit := do
  let c ← peek
  match BaseType.ofTag? c with
  | some _ =>
      advance 1
      emit (.base c)
  | none => reference

mutual

/-- Read a class type, a type variable or an array. -/
def referenceType : Nat → Scan Unit
  | 0 => throw .unexpectedEnd
  | fuel + 1 => do
      match ← peek with
      | 'L' => classType fuel
      | 'T' =>
          advance 1
          let name ← identifier [';']
          advance 1
          emit (.typeVariable name)
      | '[' =>
          advance 1
          emit .array
          typeOr (referenceType fuel)
      | c => throw (.unexpectedTag c)

/-- Read a class name with its arguments and nested segments. -/
def classType : Nat → Scan Unit
  | 0 => throw .unexpectedEnd
  | fuel + 1 => do
      expect 'L'
      let name ← identifier classStops
      emit (.classType (TypeName.ofInternal name))
      typeArguments fuel
      nestedSegments fuel
      expect ';'
      emit .close

/-- Read the nested segments that follow a class name. -/
def nestedSegments : Nat → Scan Unit
  | 0 => throw .unexpectedEnd
  | fuel + 1 => do
      if (← peek) = '.' then
        advance 1
        let name ← identifier classStops
        emit (.nested name)
        typeArguments fuel
        nestedSegments fuel

/-- Read an optional list of type arguments. -/
def typeArguments : Nat → Scan Unit
  | 0 => throw .unexpectedEnd
  | fuel + 1 => do
      if (← peek) = '<' then
        advance 1
        argumentList fuel

/-- Read type arguments up to the closing bracket, which is consumed. -/
def argumentList : Nat → Scan Unit
  | 0 => throw .unexpectedEnd
  | fuel + 1 => do
      match ← peek with
      | '>' => advance 1
      | '*' =>
          advance 1
          emit .anyArgument
          argumentList fuel
      | '+' =>
          advance 1
          emit (.argument .upper)
          referenceType fuel
          argumentList fuel
      | '-' =>
          advance 1
          emit (.argument .lower)
          referenceType fuel
          argumentList fuel
      | _ =>
          emit (.argument .exact)
          referenceType fuel
          argumentList fuel

end

/-- Read the interface bounds of a type parameter. -/
def interfaceBounds : Nat → Scan Unit
  | 0 => throw .unexpectedEnd
  | fuel + 1 => do
      if (← peek) = ':' then
        advance 1
        emit .interfaceBound
        referenceType fuel
        interfaceBounds fuel

/-- Read type parameters up to the closing bracket, which is consumed. -/
def formalList : Nat → Scan Unit
  | 0 => throw .unexpectedEnd
  | fuel + 1 => do
      let name ← identifier [':']
      emit (.formal name)
      expect ':'
      if ['L', 'T', '['].contains (← peek) then
        emit .classBound
        referenceType fuel
      interfaceBounds fuel
      if (← peek) = '>' then
        advance 1
      else
        formalList fuel

/-- Read an optional list of type parameters. -/
def formals (fuel : Nat) : Scan Unit := do
  if (← get).rest.head? = some '<' then
    advance 1
    formalList fuel

/-- Read interfaces up to the end of the text. -/
def interfaces : Nat → Scan Unit
  | 0 => throw .unexpectedEnd
  | fuel + 1 => do
      unless ← atEnd do
        emit .interface
        classType fuel
        interfaces fuel

/-- Read parameter types up to the closing bracket, which is left. -/
def parameters : Nat → Scan Unit
  | 0 => throw .unexpectedEnd
  | fuel + 1 => do
      unless (← peek) = ')' do
        emit .parameter
        typeOr (referenceType fuel)
        parameters fuel

/-- Read thrown types up to the end of the text. -/
def thrownTypes : Nat → Scan Unit
  | 0 => throw .unexpectedEnd
  | fuel + 1 => do
      unless ← atEnd do
        expect '^'
        emit .thrown
        referenceType fuel
        thrownTypes fuel

/-- A class signature: type parameters, the superclass, the interfaces. -/
def classSignature (fuel : Nat) : Scan Unit := do
  formals fuel
  emit .superclass
  classType fuel
  interfaces fuel

/-- A method signature: type parameters, parameters, result, thrown types. -/
def methodSignature (fuel : Nat) : Scan Unit := do
  formals fuel
  expect '('
  parameters fuel
  expect ')'
  emit .result
  if (← peek) = 'V' then
    advance 1
    emit (.base 'V')
  else
    typeOr (referenceType fuel)
  thrownTypes fuel

/-- A field signature: one type and nothing else. -/
def fieldSignature (fuel : Nat) : Scan Unit := do
  typeOr (referenceType fuel)
  unless ← atEnd do
    throw .trailing

/-- Walk a whole text. -/
def trace
    (walk : Nat → Scan Unit)
    (text : String) :
    Trace :=
  let (outcome, cursor) :=
    (walk (budget text.toList)).run.run { rest := text.toList }
  match outcome with
  | .ok _ => ⟨cursor.events, none⟩
  | .error fault => ⟨cursor.events, some ⟨text, cursor.position, fault⟩⟩

/-- The events of a class signature. -/
def traceClass : String → Trace :=
  trace classSignature

/-- The events of a method signature. -/
def traceMethod : String → Trace :=
  trace methodSignature

/-- The events of a field signature. -/
def traceField : String → Trace :=
  trace fieldSignature

end TypeAtlas.Signature
