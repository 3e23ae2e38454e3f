import TypeAtlas.Name
import TypeAtlas.Text.Split

namespace TypeAtlas.CommandLine

/-!
# Arguments

An invocation names the inputs first and then a command. Options may stand on
both sides of the command; an option given behind the command takes the place
of the same one in front of it. Before the command, a word that is the name of
a command always starts it, even where an option waits for its value.
-/

/-- What is asked of the graph. -/
inductive Command where
  | summary
  | implementations (interface : TypeName)
  /-- Also by way of annotations that carry the annotation, if `indirect`. -/
  | annotated (type : TypeName) (indirect : Bool)
  | subtypes (type : TypeName)
  | showType (type : TypeName)
  deriving Repr, DecidableEq

/-- Options that hold for every command. -/
structure Options where
  verbosity : Nat := 0
  settings? : Option String := none
  allMembers : Bool := false
  interest : List TypeName := []
  classPath : List String := []
  deriving Repr, DecidableEq

/-- Inputs, a command, and how to treat them. -/
structure Invocation where
  options : Options
  paths : List String
  command : Command
  deriving Repr, DecidableEq

/-- Options on both sides of the command: those behind it come first. -/
def Options.overriddenBy (outer inner : Options) : Options :=
  { verbosity :=
      if inner.verbosity = 0 then outer.verbosity else inner.verbosity
    settings? := inner.settings? <|> outer.settings?
    allMembers := inner.allMembers || outer.allMembers
    interest := if inner.interest.isEmpty then outer.interest else inner.interest
    classPath :=
      if inner.classPath.isEmpty then outer.classPath else inner.classPath }

/-! ## Words and options -/

/-- The form of an argument. -/
inductive Argument where
  | word (text : String)
  | long (name : String) (value? : Option String)
  | short (letters : List Char)
  /-- Everything behind this mark is a word. -/
  | mark
  deriving Repr, DecidableEq

/-- The form of an argument. A lone dash is a word. -/
def Argument.ofText (text : String) : Argument :=
  match text.toList with
  | ['-', '-'] => .mark
  | '-' :: '-' :: rest =>
      let name := String.ofList (rest.takeWhile (· != '='))
      match rest.dropWhile (· != '=') with
      | _ :: value => .long name (some (String.ofList value))
      | [] => .long name none
  | '-' :: c :: rest => .short (c :: rest)
  | _ => .word text

/-- What stands on one side of the command. -/
structure Side where
  options : Options := {}
  words : List String := []
  indirect : Bool := false
  deriving Repr, DecidableEq

/-- What may stand on a side. -/
structure Rules where
  /-- The words that start a command. -/
  commands : List String
  /-- Whether indirect answers can be asked for. -/
  allowsIndirect : Bool
  deriving Repr, DecidableEq

namespace Side

/-- Take options that are written as letters. -/
def takeLetters?
    (side : Side)
    (letters : List Char) :
    Option Side :=
  if letters.all (· == 'v') then
    let options := side.options
    some { side with
      options := { options with verbosity := options.verbosity + letters.length } }
  else
    none

/-- Take an option without a value. All but one may be given once only. -/
def takeFlag?
    (rules : Rules)
    (side : Side)
    (name : String) :
    Option Side :=
  let options := side.options
  match name with
  | "verbose" =>
      some { side with options := { options with verbosity := options.verbosity + 1 } }
  | "all-members" =>
      if options.allMembers then
        none
      else
        some { side with options := { options with allMembers := true } }
  | "meta" =>
      if rules.allowsIndirect && !side.indirect then
        some { side with indirect := true }
      else
        none
  | _ => none

/-- Take an option with its value. -/
def takeValue?
    (side : Side)
    (name value : String) :
    Option Side :=
  let options := side.options
  match name with
  | "config" =>
      if options.settings?.isSome || value = "" then
        none
      else
        some { side with options := { options with settings? := some value } }
  | "annotation" =>
      some { side with
        options := { options with interest := options.interest ++ [value] } }
  | "classpath" =>
      some { side with
        options := { options with classPath := options.classPath ++ [value] } }
  | _ => none

/-- Read a side, up to a word that starts a command. -/
def read
    (rules : Rules)
    (side : Side) :
    List String → Option (Side × List String)
  | [] => some (side, [])
  | text :: rest =>
      if rules.commands.contains text then
        some (side, text :: rest)
      else
        match Argument.ofText text with
        | .word word => read rules { side with words := side.words ++ [word] } rest
        | .mark => some ({ side with words := side.words ++ rest }, [])
        | .short letters =>
            match side.takeLetters? letters with
            | some side => read rules side rest
            | none => none
        | .long name (some value) =>
            match side.takeValue? name value with
            | some side => read rules side rest
            | none => none
        | .long name none =>
            match side.takeFlag? rules name, rest with
            | some side, rest => read rules side rest
            | none, [] => none
            | none, value :: rest =>
                match Argument.ofText value, side.takeValue? name value with
                | .word _, some side =>
                    if rules.commands.contains value then
                      none
                    else
                      read rules side rest
                | _, _ => none

end Side

/-! ## Commands -/

/-- The words that start a command; asking for help is no invocation. -/
def commandWords : List String :=
  ["summary", "implementations", "annotated", "subtypes", "show", "help"]

/-- The command that a word and the words behind it make up. -/
def Command.ofWords?
    (name : String)
    (side : Side) :
    Option Command :=
  match name, side.words with
  | "summary", [] => some .summary
  | "implementations", [interface] => some (.implementations interface)
  | "annotated", [type] => some (.annotated type side.indirect)
  | "subtypes", [type] => some (.subtypes type)
  | "show", [type] => some (.showType type)
  | _, _ => none

/-- The invocation that arguments make up, unless they are malformed. -/
def Invocation.ofArguments? (arguments : List String) : Option Invocation := do
  let (outer, rest) ← Side.read ⟨commandWords, false⟩ {} arguments
  match rest with
  | [] => none
  | name :: rest =>
      let (inner, _) ← Side.read ⟨[], name == "annotated"⟩ {} rest
      let command ← Command.ofWords? name inner
      if outer.words.isEmpty || outer.words.contains "" then
        none
      else
        return {
          options := outer.options.overriddenBy inner.options
          paths := outer.words
          command := command }

end TypeAtlas.CommandLine
