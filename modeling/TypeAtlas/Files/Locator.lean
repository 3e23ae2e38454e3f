import TypeAtlas.Files.Tree

namespace TypeAtlas

/-!
# Locators

A locator finds the bytes of a class by its name, in a table or on a class
path. A class path is a list of directories and archives; the first one that
has the class answers. An archive that cannot be read, or an entry that cannot,
counts as having nothing.
-/

/-- The bytes of a class, and where they were found. -/
structure LocatedClass where
  bytes : ClassFile.Bytes
  location : Option String
  deriving Repr, DecidableEq

/-- A directory or an archive of a class path. -/
inductive ClassPathEntry where
  | directory (path : String) (location : Option String)
  | archive (content : FileContent) (location : Option String)
  deriving Repr, DecidableEq

/-- A way to find classes by name, with finitely many byte strings to answer. -/
structure Locator where
  /-- The number of places that are looked at. -/
  size : Nat
  /-- Look for a class. -/
  locate? : TypeName → Option LocatedClass
  /-- All byte strings the locator can answer with. -/
  answers : List ClassFile.Bytes
  /-- No name is answered with any other. -/
  answers_complete :
    ∀ name found, locate? name = some found → found.bytes ∈ answers

/-! ## Class paths -/

namespace ClassPath

/-- The parts of class path texts between colons, blank ones left out. -/
def split (texts : List String) : List String :=
  (texts.flatMap (Text.split ':')).filter fun part =>
    !part.toList.all Text.isBlank

/-- The entry for a path; what is neither directory nor archive is left out. -/
def entry?
    (tree : FileTree)
    (path : String) :
    Option ClassPathEntry :=
  match tree.resolve path with
  | .error _ => none
  | .ok (_, .directory) => some (.directory path (tree.location? path))
  | .ok (_, content) =>
      if Path.isArchive path then
        some (.archive content (tree.location? path))
      else
        none

end ClassPath

namespace ClassPathEntry

/-- Look for a class in one entry. -/
def locate?
    (tree : FileTree)
    (name : TypeName) :
    ClassPathEntry → Option LocatedClass
  | directory path location =>
      let file := Path.join path (TypeName.toInternal name ++ ".class")
      match tree.readBytes file with
      | .ok bytes => some ⟨bytes, location⟩
      | .error _ => none
  | archive (.archive entries) location =>
      ((Archive.classEntryNames name).findSome? (Archive.read? entries)).map
        fun bytes => ⟨bytes, location⟩
  | archive _ _ => none

/-- The byte strings an archive can answer with; a directory has those of the tree. -/
def contents : ClassPathEntry → List ClassFile.Bytes
  | archive (.archive entries) _ => Archive.contents entries
  | _ => []

/-- A class that is found is a file of the tree or the content of an entry. -/
theorem bytes_mem_of_locate?
    {tree : FileTree}
    {name : TypeName}
    {entry : ClassPathEntry}
    {found : LocatedClass}
    (located : entry.locate? tree name = some found) :
    found.bytes ∈ tree.contents ∨ found.bytes ∈ entry.contents := by
  unfold locate? at located
  split at located
  · dsimp only at located
    split at located
    · next bytes read =>
        rw [← Option.some.inj located]
        exact Or.inl (FileTree.mem_contents_of_readBytes read)
    · exact absurd located (by simp)
  · obtain ⟨bytes, first, rfl⟩ := Option.map_eq_some_iff.mp located
    obtain ⟨file, _, read⟩ := List.exists_of_findSome?_eq_some first
    exact Or.inr (Archive.mem_contents_of_read? read)
  · exact absurd located (by simp)

end ClassPathEntry

namespace Locator

/-- A class that a table has for a name is one of its classes. -/
theorem bytes_mem_of_lookup
    {classes : List (TypeName × LocatedClass)}
    {name : TypeName}
    {found : LocatedClass}
    (located : classes.lookup name = some found) :
    found.bytes ∈ classes.map (·.2.bytes) := by
  obtain ⟨before, after, rfl, -⟩ := List.lookup_eq_some_iff.mp located
  simp

/-- A table of classes. -/
def ofTable (classes : List (TypeName × LocatedClass)) : Locator where
  size := classes.length
  locate? name := classes.lookup name
  answers := classes.map (·.2.bytes)
  answers_complete _ _ located := bytes_mem_of_lookup located

/-- A table of classes; of several under one name the last counts. -/
def ofClasses (classes : List (TypeName × LocatedClass)) : Locator :=
  .ofTable (classes.foldl
    (fun known (name, located) =>
      known.filter (·.1 != name) ++ [(name, located)])
    [])

/-- The directories and archives of a class path; the first answer counts. -/
def ofEntries
    (tree : FileTree)
    (entries : List ClassPathEntry) :
    Locator where
  size := entries.length
  locate? name := entries.findSome? (·.locate? tree name)
  answers := tree.contents ++ entries.flatMap (·.contents)
  answers_complete name found located := by
    obtain ⟨entry, member, here⟩ := List.exists_of_findSome?_eq_some located
    rcases ClassPathEntry.bytes_mem_of_locate? here with inTree | inArchive
    · exact List.mem_append_left _ inTree
    · exact List.mem_append_right _
        (List.mem_flatMap.mpr ⟨entry, member, inArchive⟩)

/-- The class path of the given paths. -/
def ofPaths
    (tree : FileTree)
    (paths : List String) :
    Locator :=
  .ofEntries tree (paths.filterMap (ClassPath.entry? tree))

end Locator

end TypeAtlas
