import TypeAtlas.ClassFile.Bytes
import TypeAtlas.Name

namespace TypeAtlas

/-!
# Archives

An archive lists entries by name. Some of them are no files but directories or
symbolic links. An entry may be impossible to open, which spoils a reading of
the whole archive, or its content may turn out corrupt only when it is read.
-/

/-- What is behind an entry. -/
inductive EntryContent where
  | bytes (content : ClassFile.Bytes)
  /-- The entry cannot be opened. -/
  | unopenable
  /-- The entry opens, but its content does not match its checksum. -/
  | corrupt
  deriving Repr, DecidableEq

/-- Directories are entries whose name ends in a slash of either kind. -/
def namesDirectory (name : String) : Bool :=
  name.toList.getLast?.any fun c => c == '/' || c == '\\'

/-- A named entry. -/
structure ArchiveEntry where
  name : String
  content : EntryContent
  /-- Whether it is a file, which the name decides but for links. -/
  isFile : Bool := !namesDirectory name
  deriving Repr, DecidableEq

/-- Why an archive cannot be read. -/
inductive ArchiveFault where
  | unopenable
  | corrupt
  deriving Repr, DecidableEq

namespace Archive

/-- Whether a list of characters ends in a text. -/
def endsIn
    (cs : List Char)
    (ending : String) :
    Bool :=
  ending.toList.reverse.isPrefixOf cs.reverse

/--
Whether an entry never describes a type: metadata and module descriptors, also
below any number of `classes/` folders.
-/
def isPassedOver (cs : List Char) : Bool :=
  if "META-INF/".toList.isPrefixOf cs then
    true
  else if _below : "classes/".toList.isPrefixOf cs then
    isPassedOver (cs.drop "classes/".toList.length)
  else
    cs == "module-info.class".toList || endsIn cs "/module-info.class"
termination_by cs.length
decreasing_by
  have shorter := (List.isPrefixOf_iff_prefix.mp _below).length_le
  have size : "classes/".toList.length = 8 := by decide
  simp only [List.length_drop, size] at *
  omega

/-- Whether an entry is read as a class. -/
def isSelected (entry : ArchiveEntry) : Bool :=
  entry.isFile
    && endsIn entry.name.toList ".class"
    && !isPassedOver entry.name.toList

/-- The contents of all class entries, in order. -/
def readClasses :
    List ArchiveEntry → Except ArchiveFault (List ClassFile.Bytes)
  | [] => .ok []
  | entry :: entries =>
      match entry.content with
      | .unopenable => .error .unopenable
      | .corrupt =>
          if isSelected entry then
            .error .corrupt
          else
            readClasses entries
      | .bytes content =>
          if isSelected entry then
            (readClasses entries).map (content :: ·)
          else
            readClasses entries

/-- The content of a named entry, if it can be read. -/
def read?
    (entries : List ArchiveEntry)
    (name : String) :
    Option ClassFile.Bytes := do
  let entry ← entries.find? (·.name == name)
  match entry.content with
  | .bytes content => some content
  | _ => none

/-- The readable contents of entries. -/
def contents (entries : List ArchiveEntry) : List ClassFile.Bytes :=
  entries.filterMap fun entry =>
    match entry.content with
    | .bytes content => some content
    | _ => none

theorem mem_contents_of_read?
    {entries : List ArchiveEntry}
    {name : String}
    {bytes : ClassFile.Bytes}
    (read : read? entries name = some bytes) :
    bytes ∈ contents entries := by
  simp only [read?, Option.bind_eq_bind, Option.bind_eq_some_iff] at read
  obtain ⟨entry, found, readable⟩ := read
  exact List.mem_filterMap.mpr
    ⟨entry, List.mem_of_find?_eq_some found, readable⟩

/-- Of several entries of one name the last counts, in the place of the first. -/
def distinct (entries : List ArchiveEntry) : List ArchiveEntry :=
  entries.foldl
    (fun known entry =>
      if known.any (·.name == entry.name) then
        known.map fun other => if other.name = entry.name then entry else other
      else
        known ++ [entry])
    []

/-- The entry names a class may be stored under, the plain one first. -/
def classEntryNames (name : TypeName) : List String :=
  let plain := TypeName.toInternal name ++ ".class"
  [plain, "classes/" ++ plain]

end Archive

end TypeAtlas
