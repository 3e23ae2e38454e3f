import TypeAtlas.CommandLine.Run
import TypeAtlas.Files.Zip

namespace TypeAtlas.Program

/-!
# The program

The files that an invocation can look at are read into a file tree first. All
the rest is done by the run itself.
-/

/-- The content of a file that was read. -/
def contentOf
    (path : String)
    (image : Array UInt8) :
    FileContent :=
  match Path.isArchive path, Zip.read? image with
  | true, some entries => .archive entries
  | _, _ => .bytes image.toList

/-- Read a file, or a directory with everything below it. -/
partial def readFiles
    (parts : List String) :
    IO (List (List String × FileContent)) := do
  let path := Path.ofParts parts
  try
    let entries ← (← IO.FS.realPath path).readDir
    let below ← entries.toList.mapM fun entry => readFiles (parts ++ [entry.fileName])
    return (parts, .directory) :: below.flatten
  catch _ =>
    try
      let image ← IO.FS.readBinFile path
      return [(parts, contentOf path image.data)]
    catch _ =>
      return []

/-- All paths an invocation names. -/
def pathsOf (invocation : CommandLine.Invocation) : List String :=
  let options := invocation.options
  options.settings?.toList
    ++ invocation.paths
    ++ ClassPath.split options.classPath

/-- The files an invocation can look at. -/
def readTree (invocation : CommandLine.Invocation) : IO FileTree := do
  let here := Path.parts (← IO.currentDir).toString
  let places := (pathsOf invocation).map (Path.fromTop here)
  let files ← places.eraseDups.mapM readFiles
  return { files := (here, .directory) :: files.flatten, here := here }

/-- How the program is called. -/
def usage : String :=
  "usage: typeatlas [-v] [--config PATH] [--all-members] [--annotation NAME]\n"
    ++ "         [--classpath PATH] PATH... COMMAND\n"
    ++ "commands: summary | implementations TYPE | annotated TYPE [--meta]\n"
    ++ "        | subtypes TYPE | show TYPE"

/-- The text for a run without an answer. -/
def faultText (fault : CommandLine.RunFault) : String :=
  let cause :=
    match fault.cause? with
    | some reason => "\n\nCaused by:\n    " ++ reason
    | none => ""
  "Error: " ++ fault.message ++ cause

/-- Run the program; the answer is its exit code. -/
def run (arguments : List String) : IO UInt32 := do
  match CommandLine.Invocation.ofArguments? arguments with
  | none =>
      IO.eprintln usage
      return 2
  | some invocation =>
      let tree ← readTree invocation
      match invocation.run tree with
      | .ok out =>
          IO.print out
          return 0
      | .error fault =>
          IO.eprintln (faultText fault)
          return 1

end TypeAtlas.Program

/-- The program. -/
def main (arguments : List String) : IO UInt32 :=
  TypeAtlas.Program.run arguments
