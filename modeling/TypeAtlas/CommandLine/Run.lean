import TypeAtlas.CommandLine.Arguments
import TypeAtlas.CommandLine.Report
import TypeAtlas.Settings.Toml

namespace TypeAtlas.CommandLine

/-!
# Running a command

A run loads the settings, surveys the inputs, looks up what is unresolved on
the class path if there is one, and answers the command. It ends at the first
fault, and then gives no answer at all.
-/

/-- Why a run gives no answer. -/
inductive RunFault where
  | settingsFile (path : String) (fault : FileFault)
  | settingsText (path : String)
  | inputs (fault : SurveyFault)
  | unknownType (name : TypeName)
  deriving Repr, DecidableEq

namespace RunFault

/-- What went wrong. -/
def message : RunFault → String
  | settingsFile path _ => s!"failed to load config {path}"
  | settingsText path => s!"failed to load config {path}"
  | inputs _ => "failed to read inputs"
  | unknownType name => s!"unknown type {name}"

/-- The reason behind it, if there is more to say. -/
def cause? : RunFault → Option String
  | settingsFile path fault =>
      let reason := fault.message
      some s!"failed to read parsing config {path}: {reason}"
  | settingsText _ => some "invalid parsing config"
  | inputs fault => some fault.message
  | unknownType _ => none

end RunFault

/-- The settings in a file. -/
def loadSettings
    (tree : FileTree)
    (path : String) :
    Except RunFault Settings :=
  match tree.readText path with
  | .error fault => .error (.settingsFile path fault)
  | .ok text =>
      match Settings.ofToml? text with
      | some settings => .ok settings
      | none => .error (.settingsText path)

/-- The settings of an invocation: those of its file, with its options added. -/
def Options.settings
    (options : Options)
    (tree : FileTree) :
    Except RunFault Settings := do
  let base ←
    match options.settings? with
    | some path => loadSettings tree path
    | none => .ok {}
  let settings :=
    { base with keepUnannotated := base.keepUnannotated || options.allMembers }
  return settings.addInterests options.interest

/-- Sorted names, one a line. -/
def nameLines (names : List TypeName) : List String :=
  Store.sortedNames names

/-- Answer a command. -/
def Command.answer
    (atlas : Atlas)
    (tally : Tally) :
    Command → Except RunFault (List String)
  | summary => .ok (Report.summary atlas tally)
  | implementations interface =>
      if (atlas.store.find? interface).isSome then
        .ok (nameLines (atlas.store.implementationsOf interface))
      else
        .error (.unknownType interface)
  | annotated type indirect =>
      if indirect && (atlas.store.visitedNode? type).isSome then
        .ok (nameLines (atlas.store.allAnnotatedTypes type))
      else
        .ok (nameLines (atlas.store.annotatedTypes type))
  | subtypes type =>
      if (atlas.store.node? type).isSome then
        .ok (nameLines (atlas.store.allSubTypes type))
      else
        .error (.unknownType type)
  | showType type =>
      match atlas.store.node? type with
      | some node => .ok (Report.typeLines atlas.store type node)
      | none => .error (.unknownType type)

/-- Run an invocation on a file tree; the answer is what it prints. -/
def Invocation.run
    (invocation : Invocation)
    (tree : FileTree) :
    Except RunFault String := do
  let settings ← invocation.options.settings tree
  let classPath := ClassPath.split invocation.options.classPath
  let (surveyed, atlas) :=
    Atlas.surveyAll { settings := settings } tree invocation.paths
  match surveyed with
  | .error fault => throw (.inputs fault)
  | .ok tally =>
      let atlas :=
        if classPath.isEmpty then
          atlas
        else
          (atlas.reconcile (some (Locator.ofPaths tree classPath))).atlas
      let lines ← invocation.command.answer atlas tally
      return Report.text lines

end TypeAtlas.CommandLine
