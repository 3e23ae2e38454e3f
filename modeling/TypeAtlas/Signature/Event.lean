import TypeAtlas.Name
import TypeAtlas.Text.Utf8

namespace TypeAtlas.Signature

/-!
# Signature events

A generic signature is read from left to right as a flat sequence of events.
The position events (`superclass`, `parameter`, …) announce where the next
complete type belongs. Every `classType` is closed by exactly one `close`,
after its type arguments and its nested class segments.
-/

/-- How a type argument bounds the type it names. -/
inductive Wildcard where
  | upper
  | lower
  | exact
  deriving Repr, DecidableEq

/-- One step of a signature. -/
inductive Event where
  | formal (name : String)
  | classBound
  | interfaceBound
  | superclass
  | interface
  | parameter
  | result
  | thrown
  | base (tag : Char)
  | typeVariable (name : String)
  | array
  | classType (name : TypeName)
  | nested (name : String)
  | anyArgument
  | argument (wildcard : Wildcard)
  | close
  deriving Repr, DecidableEq

/-- Why a text is not a signature. -/
inductive Fault where
  | unexpectedEnd
  | expected (c : Char)
  | emptyIdentifier
  | unexpectedTag (c : Char)
  | trailing
  deriving Repr, DecidableEq

/-- The wording of a fault. -/
def Fault.reason : Fault → String
  | unexpectedEnd => "unexpected end"
  | expected c => s!"expected '{c}'"
  | emptyIdentifier => "empty identifier"
  | unexpectedTag c =>
      let shown := Text.leadByte c
      s!"unexpected type tag '{shown}'"
  | trailing => "trailing characters"

/-- A fault, the text that was read, and the byte it was found at. -/
structure Malformed where
  source : String
  position : Nat
  fault : Fault
  deriving Repr, DecidableEq

/-- The full wording of a fault. -/
def Malformed.message (malformed : Malformed) : String :=
  let source := malformed.source
  let position := malformed.position
  let reason := malformed.fault.reason
  s!"malformed signature '{source}' at {position}: {reason}"

/--
What reading a text gave: the events up to its end, or up to the first fault.
-/
structure Trace where
  events : List Event
  malformed? : Option Malformed
  deriving Repr, DecidableEq

end TypeAtlas.Signature
