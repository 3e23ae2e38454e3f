import TypeAtlas.ClassFile.Reader
import TypeAtlas.Entering.Mentions
import TypeAtlas.Entering.Visit
import TypeAtlas.Files.Locator
import TypeAtlas.Query.Catalog

namespace TypeAtlas

/-!
# Surveys

A survey enters all classes found at a path: in a directory with everything
below it, in an archive, or in a single class file. All of them are application
types. Names that are still unresolved afterwards can be looked up with a
locator, again and again until no new names turn up.
-/

/-- How many classes were decoded, and how many could not be. -/
structure Tally where
  units : Nat := 0
  failures : Nat := 0
  deriving Repr, DecidableEq

namespace Tally

/-- The sum of two tallies. -/
def add (a b : Tally) : Tally :=
  ⟨a.units + b.units, a.failures + b.failures⟩

end Tally

/-- Why a path cannot be surveyed. -/
inductive SurveyFault where
  | file (path : String) (fault : FileFault)
  | archive (path : String)
  deriving Repr, DecidableEq

/-- The wording of a fault; a broken archive is named by its path alone. -/
def SurveyFault.message : SurveyFault → String
  | file path fault =>
      let reason := fault.message
      s!"IO error while reading {path}: {reason}"
  | archive path => path

namespace Atlas

/-- Decode and enter a class. -/
def enterBytes
    (atlas : Atlas)
    (bytes : ClassFile.Bytes)
    (location : Option String)
    (isApplication : Bool) :
    Except ClassFile.Fault (Option TypeName) × Atlas :=
  match ClassFile.decode bytes with
  | .error fault => (.error fault, atlas)
  | .ok decl =>
      let (name, atlas) := atlas.enter decl location isApplication
      (.ok name, atlas)

/-- Enter application classes one after another. -/
def enterAll
    (atlas : Atlas)
    (location : Option String) :
    List ClassFile.Bytes → Tally × Atlas
  | [] => ({}, atlas)
  | bytes :: rest =>
      let (answer, atlas) := atlas.enterBytes bytes location true
      let tally : Tally :=
        match answer with
        | .ok _ => ⟨1, 0⟩
        | .error _ => ⟨0, 1⟩
      let (more, atlas) := atlas.enterAll location rest
      (tally.add more, atlas)

/-! ## Paths -/

/-- Enter the classes of an archive; one that cannot be read changes nothing. -/
def surveyArchive
    (atlas : Atlas)
    (tree : FileTree)
    (path : String)
    (content : FileContent) :
    Except SurveyFault Tally × Atlas :=
  match content with
  | .archive entries =>
      match Archive.readClasses entries with
      | .error .unopenable => (.error (.archive path), atlas)
      | .error .corrupt => (.error (.file path .corrupt), atlas)
      | .ok classes =>
          let (tally, atlas) := atlas.enterAll (tree.location? path) classes
          (.ok tally, atlas)
  | _ => (.error (.archive path), atlas)

/-- Enter the classes of archives one after another, up to the first fault. -/
def surveyArchives
    (atlas : Atlas)
    (tree : FileTree) :
    List (String × FileContent) → Except SurveyFault Tally × Atlas
  | [] => (.ok {}, atlas)
  | (path, content) :: rest =>
      match atlas.surveyArchive tree path content with
      | (.error fault, atlas) => (.error fault, atlas)
      | (.ok tally, atlas) =>
          match atlas.surveyArchives tree rest with
          | (.error fault, atlas) => (.error fault, atlas)
          | (.ok more, atlas) => (.ok (tally.add more), atlas)

/-- Whether a file in a directory is read as a class. -/
def isLooseClass (path : String) : Bool :=
  !Path.isArchive path
    && Path.isClassFile path
    && Path.fileName? path != some "module-info.class"

/-- The bytes of a file found in a directory. -/
def looseBytes : FileContent → ClassFile.Bytes
  | .bytes content => content
  | _ => FileTree.archiveSignature

/-- Enter what is below a directory: loose classes first, then archives. -/
def surveyDirectory
    (atlas : Atlas)
    (tree : FileTree)
    (path : String)
    (parts : List String) :
    Except SurveyFault Tally × Atlas :=
  let files := tree.below path parts
  let classes := (files.filter (isLooseClass ·.1)).map (looseBytes ·.2)
  let (tally, atlas) := atlas.enterAll (tree.location? path) classes
  match atlas.surveyArchives tree (files.filter (Path.isArchive ·.1)) with
  | (.error fault, atlas) => (.error fault, atlas)
  | (.ok more, atlas) => (.ok (tally.add more), atlas)

/-- Enter all classes at a path. Other files count as having none. -/
def survey
    (atlas : Atlas)
    (tree : FileTree)
    (path : String) :
    Except SurveyFault Tally × Atlas :=
  match tree.resolve path with
  | .error fault => (.error (.file path fault), atlas)
  | .ok (parts, .directory) => atlas.surveyDirectory tree path parts
  | .ok (_, content) =>
      if Path.isArchive path then
        atlas.surveyArchive tree path content
      else if Path.isClassFile path then
        let (tally, atlas) :=
          atlas.enterAll (tree.location? path) [looseBytes content]
        (.ok tally, atlas)
      else
        (.ok {}, atlas)

/-- Enter all classes at several paths, up to the first fault. -/
def surveyAll
    (atlas : Atlas)
    (tree : FileTree) :
    List String → Except SurveyFault Tally × Atlas
  | [] => (.ok {}, atlas)
  | path :: rest =>
      match atlas.survey tree path with
      | (.error fault, atlas) => (.error fault, atlas)
      | (.ok tally, atlas) =>
          match atlas.surveyAll tree rest with
          | (.error fault, atlas) => (.error fault, atlas)
          | (.ok more, atlas) => (.ok (tally.add more), atlas)

end Atlas

/-! ## Reconciling -/

/-- A reconciliation in progress. -/
structure Reconciliation where
  atlas : Atlas
  /-- Names that were found and entered. -/
  located : Nat := 0
  /-- Names that could not be resolved, in the order of their turns. -/
  missing : List TypeName := []
  deriving Repr

namespace Reconciliation

/-- Take the first name off the worklist. -/
def next? (state : Reconciliation) : Option (TypeName × Reconciliation) :=
  state.atlas.store.nextPending?.map fun (name, store) =>
    (name, { state with atlas := { state.atlas with store := store } })

/-- Try to resolve a name, unless it has been entered meanwhile. -/
def handle
    (locator : Option Locator)
    (name : TypeName)
    (state : Reconciliation) :
    Reconciliation :=
  if state.atlas.store.isVisited name then
    state
  else
    match locator.bind (·.locate? name) with
    | none => { state with missing := state.missing ++ [name] }
    | some found =>
        let (_, atlas) :=
          state.atlas.enterBytes found.bytes found.location false
        if atlas.store.isVisited name then
          { state with atlas := atlas, located := state.located + 1 }
        else
          { state with atlas := atlas, missing := state.missing ++ [name] }

/-- The names that the classes a locator can answer with mention. -/
def reachable (locator : Option Locator) : List TypeName :=
  ((locator.map (·.answers)).getD []).flatMap fun bytes =>
    match ClassFile.decode bytes with
    | .ok decl => decl.mentions
    | .error _ => []

/--
A bound on the names that have their turn: those waiting, and those that can
turn up.
-/
def bound
    (locator : Option Locator)
    (store : Store) :
    Nat :=
  store.pending.length + (reachable locator).length + 1

end Reconciliation

/-- Look up unresolved names until no new ones turn up. -/
def Atlas.reconcile
    (atlas : Atlas)
    (locator : Option Locator) :
    Reconciliation :=
  let final := workThrough Reconciliation.next?
    (Reconciliation.handle locator)
    (Reconciliation.bound locator atlas.store)
    { atlas := atlas }
  { final with missing := Store.sortedNames final.missing }

end TypeAtlas
