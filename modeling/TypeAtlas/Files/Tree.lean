import TypeAtlas.Files.Archive
import TypeAtlas.Files.Path

namespace TypeAtlas

/-!
# File trees

A file tree is a list of files by their path from the top, together with the
directories above them. Relative paths start at one of its directories.
-/

/-- What is at a path. -/
inductive FileContent where
  | directory
  | bytes (content : ClassFile.Bytes)
  | archive (entries : List ArchiveEntry)
  deriving Repr, DecidableEq

/-- Why a file cannot be read. -/
inductive FileFault where
  | notFound
  | notDirectory
  | isDirectory
  | notText
  | corrupt
  deriving Repr, DecidableEq

/-- The wording of a fault. -/
def FileFault.message : FileFault → String
  | notFound => "No such file or directory (os error 2)"
  | notDirectory => "Not a directory (os error 20)"
  | isDirectory => "Is a directory (os error 21)"
  | notText => "stream did not contain valid UTF-8"
  | corrupt => "Invalid checksum"

/-- Files by path, each path a list of parts from the top. -/
structure FileTree where
  files : List (List String × FileContent) := []
  /-- The directory that relative paths start at. -/
  here : List String := []
  deriving Repr

namespace FileTree

/-- What is at a path, given by its parts. -/
def find?
    (tree : FileTree)
    (parts : List String) :
    Option FileContent :=
  match tree.files.lookup parts with
  | some content => some content
  | none =>
      if parts.isEmpty || tree.files.any (parts.isPrefixOf ·.1) then
        some .directory
      else
        none

/-- Follow the parts of a path, downwards and upwards. -/
def follow
    (tree : FileTree)
    (here : List String) :
    List String → Except FileFault (List String)
  | [] => .ok here
  | part :: rest =>
      match tree.find? here with
      | some .directory =>
          if part = "" ∨ part = "." then
            follow tree here rest
          else if part = ".." then
            follow tree here.dropLast rest
          else if (tree.find? (here ++ [part])).isSome then
            follow tree (here ++ [part]) rest
          else
            .error .notFound
      | some _ => .error .notDirectory
      | none => .error .notFound

/-- What a path leads to: its parts from the top, and what is there. -/
def resolve
    (tree : FileTree)
    (path : String) :
    Except FileFault (List String × FileContent) := do
  if path = "" then
    throw .notFound
  let start := if Path.isAbsolute path then [] else tree.here
  let parts ← tree.follow start (Text.split '/' path)
  match tree.find? parts with
  | some content => return (parts, content)
  | none => throw .notFound

/-- The bytes every archive starts with. -/
def archiveSignature : ClassFile.Bytes :=
  [0x50, 0x4B, 0x03, 0x04]

/-- The bytes of a file; of an archive, those it starts with. -/
def readBytes
    (tree : FileTree)
    (path : String) :
    Except FileFault ClassFile.Bytes := do
  match (← tree.resolve path).2 with
  | .directory => throw .isDirectory
  | .bytes content => return content
  | .archive _ => return archiveSignature

/-- The byte strings that reading a file of the tree can give. -/
def contents (tree : FileTree) : List ClassFile.Bytes :=
  archiveSignature :: tree.files.filterMap fun (_, content) =>
    match content with
    | .bytes bytes => some bytes
    | _ => none

/-- What is at a path, unless it is a directory, is one of the files. -/
theorem mem_files_of_find?
    {tree : FileTree}
    {parts : List String}
    {content : FileContent}
    (found : tree.find? parts = some content)
    (isFile : content ≠ .directory) :
    (parts, content) ∈ tree.files := by
  unfold find? at found
  split at found
  · next known =>
      obtain ⟨before, after, files, -⟩ := List.lookup_eq_some_iff.mp known
      rw [files, ← Option.some.inj found]
      simp
  · split at found
    · exact absurd (Option.some.inj found).symm isFile
    · exact absurd found (by simp)

theorem find?_of_resolve
    {tree : FileTree}
    {path : String}
    {parts : List String}
    {content : FileContent}
    (resolved : tree.resolve path = .ok (parts, content)) :
    tree.find? parts = some content := by
  by_cases empty : path = ""
  · have refused : tree.resolve path = .error .notFound := by
      simp only [resolve, empty, ↓reduceIte]
      rfl
    simp [refused] at resolved
  · simp only [resolve, empty, ↓reduceIte] at resolved
    generalize (if Path.isAbsolute path then [] else tree.here) = start
      at resolved
    cases followed : tree.follow start (Text.split '/' path) with
    | error fault =>
        simp [followed, bind, Except.bind] at resolved
    | ok reached =>
        simp only [followed, bind, Except.bind] at resolved
        cases found : tree.find? reached with
        | none =>
            simp [found, throw, throwThe, MonadExceptOf.throw] at resolved
        | some there =>
            simp only [found, pure, Except.pure, Except.ok.injEq,
              Prod.mk.injEq] at resolved
            rw [← resolved.1, ← resolved.2, found]

/-- What is read from a file is among the contents of the tree. -/
theorem mem_contents_of_readBytes
    {tree : FileTree}
    {path : String}
    {bytes : ClassFile.Bytes}
    (read : tree.readBytes path = .ok bytes) :
    bytes ∈ tree.contents := by
  unfold readBytes at read
  cases resolved : tree.resolve path with
  | error fault =>
      simp [resolved, bind, Except.bind] at read
  | ok reached =>
      obtain ⟨parts, content⟩ := reached
      have found := find?_of_resolve resolved
      simp only [resolved, bind, Except.bind] at read
      cases content with
      | directory =>
          simp [throw, throwThe, MonadExceptOf.throw] at read
      | bytes content =>
          have member := mem_files_of_find? found (by simp)
          rw [← Except.ok.inj read]
          exact List.mem_cons_of_mem _
            (List.mem_filterMap.mpr ⟨_, member, rfl⟩)
      | archive entries =>
          rw [← Except.ok.inj read]
          exact List.mem_cons_self

/-- The bytes of an archive without entries. -/
def emptyArchive : ClassFile.Bytes :=
  [0x50, 0x4B, 0x05, 0x06] ++ List.replicate 18 0

/-- The text of a file. Only an archive without entries is text. -/
def readText
    (tree : FileTree)
    (path : String) :
    Except FileFault String := do
  let content ←
    match (← tree.resolve path).2 with
    | .directory => throw .isDirectory
    | .bytes content => pure content
    | .archive [] => pure emptyArchive
    | .archive _ => throw .notText
  match Text.ofUtf8? content with
  | some text => return text
  | none => throw .notText

/-- The location of what a path leads to. -/
def location?
    (tree : FileTree)
    (path : String) :
    Option String :=
  match tree.resolve path with
  | .error _ => none
  | .ok (parts, content) =>
      some (Path.location parts (content == .directory))

/-- The files below a directory: their path, and what is there. -/
def below
    (tree : FileTree)
    (directory : String)
    (parts : List String) :
    List (String × FileContent) :=
  tree.files.filterMap fun (file, content) =>
    if parts.isPrefixOf file && content != .directory then
      let rest := "/".intercalate (file.drop parts.length)
      some (Path.join directory rest, content)
    else
      none

end FileTree

end TypeAtlas
