import Mathlib.Data.List.Infix
import TypeAtlas.ClassFile.Writer
import TypeAtlas.Proofs.Entering.OrderIndependence
import TypeAtlas.Survey

namespace TypeAtlas

/-!
# Surveys of archives

An archive is read as a whole before anything in it is entered. One bad entry
is enough to leave the atlas as it was: an entry that cannot be opened,
whatever it is, or a class whose content cannot be read. If there is none, the
survey comes to entering the declarations that its classes decode to, one after
another. Classes that do not decode are counted and have no other effect.

Which entries are classes goes by their names alone, with all folders called
`classes` in front taken off.
-/

/-! ## Entries that hold classes -/

namespace Archive

theorem endsIn_iff
    {name : List Char}
    {ending : String} :
    endsIn name ending = true ↔ ending.toList <:+ name := by
  rw [endsIn, List.isPrefixOf_iff_prefix, List.reverse_prefix]

/-- What a name leaves when all `classes/` folders in front are taken off. -/
inductive Leaves : List Char → List Char → Prop where
  | plain
      {name : List Char}
      (outside : ¬ "classes/".toList <+: name) :
      Leaves name name
  | folder
      {name rest : List Char}
      (leaves : Leaves name rest) :
      Leaves ("classes/".toList ++ name) rest

theorem exists_leaves
    (name : List Char) :
    ∃ rest, Leaves name rest := by
  by_cases inside : "classes/".toList <+: name
  · obtain ⟨name, rfl⟩ := inside
    obtain ⟨rest, leaves⟩ := exists_leaves name
    exact ⟨rest, .folder leaves⟩
  · exact ⟨name, .plain inside⟩
termination_by name.length
decreasing_by
  have size : "classes/".toList.length = 8 := by decide
  subst_vars
  rw [List.length_append, size]
  omega

/-- A name of metadata or of a module descriptor. -/
def IsAside (name : List Char) : Prop :=
  "META-INF/".toList <+: name ∨
    name = "module-info.class".toList ∨
    "/module-info.class".toList <:+ name

/-- An entry is passed over by what its name leaves. -/
theorem isPassedOver_iff
    {name rest : List Char}
    (leaves : Leaves name rest) :
    isPassedOver name = true ↔ IsAside rest := by
  induction leaves with
  | @plain name outside =>
      have apart : ¬ "classes/".toList.isPrefixOf name = true :=
        mt List.isPrefixOf_iff_prefix.mp outside
      by_cases metadata : "META-INF/".toList <+: name
      · rw [isPassedOver, if_pos (List.isPrefixOf_iff_prefix.mpr metadata)]
        exact iff_of_true rfl (Or.inl metadata)
      · rw [isPassedOver, if_neg (mt List.isPrefixOf_iff_prefix.mp metadata),
          dif_neg apart, Bool.or_eq_true, beq_iff_eq, endsIn_iff]
        exact (or_iff_right metadata).symm
  | @folder name rest leaves inductionHypothesis =>
      have noMetadata :
          ¬ "META-INF/".toList.isPrefixOf ("classes/".toList ++ name) =
            true := by
        simp
      have inside :
          "classes/".toList.isPrefixOf ("classes/".toList ++ name) = true :=
        List.isPrefixOf_iff_prefix.mpr (List.prefix_append _ _)
      rw [isPassedOver, if_neg noMetadata, dif_pos inside, List.drop_left]
      exact inductionHypothesis

end Archive

/--
An entry holds a class: it is a file, its name has the ending of one, and what
the name leaves is neither metadata nor a module descriptor.
-/
structure ArchiveEntry.HoldsClass (entry : ArchiveEntry) : Prop where
  isFile : entry.isFile = true
  ending : ".class".toList <:+ entry.name.toList
  kept :
    ∃ rest, Archive.Leaves entry.name.toList rest ∧ ¬ Archive.IsAside rest

theorem Archive.isSelected_iff
    {entry : ArchiveEntry} :
    isSelected entry = true ↔ entry.HoldsClass := by
  have passed :
      isPassedOver entry.name.toList = false ↔
        ∃ rest, Leaves entry.name.toList rest ∧ ¬ IsAside rest := by
    obtain ⟨rest, leaves⟩ := exists_leaves entry.name.toList
    rw [Bool.eq_false_iff, ne_eq, isPassedOver_iff leaves]
    constructor
    · intro kept
      exact ⟨rest, leaves, kept⟩
    · rintro ⟨other, otherLeaves, kept⟩
      rwa [← isPassedOver_iff leaves, isPassedOver_iff otherLeaves]
  simp only [isSelected, Bool.and_eq_true, Bool.not_eq_true', endsIn_iff,
    passed]
  constructor
  · rintro ⟨⟨isFile, ending⟩, kept⟩
    exact ⟨isFile, ending, kept⟩
  · rintro ⟨isFile, ending, kept⟩
    exact ⟨⟨isFile, ending⟩, kept⟩

/-! ## Reading -/

/-- An entry that an archive cannot be read with. -/
def ArchiveEntry.IsBad (entry : ArchiveEntry) : Prop :=
  entry.content = .unopenable ∨
    entry.HoldsClass ∧ entry.content = .corrupt

namespace Archive

/-- The contents of the class entries. -/
def classes (entries : List ArchiveEntry) : List ClassFile.Bytes :=
  contents (entries.filter isSelected)

/-- Of an entry that is not bad, the content is taken if it holds a class. -/
theorem classes_cons
    {entry : ArchiveEntry}
    {content : ClassFile.Bytes}
    (readable : entry.content = .bytes content)
    (entries : List ArchiveEntry) :
    classes (entry :: entries) =
      if isSelected entry then
        content :: classes entries
      else
        classes entries := by
  simp only [classes, List.filter_cons]
  split
  · simp [contents, readable]
  · rfl

/-- An archive without bad entries is read. -/
theorem readClasses_of_sound
    {entries : List ArchiveEntry}
    (sound : ∀ entry ∈ entries, ¬ entry.IsBad) :
    readClasses entries = .ok (classes entries) := by
  induction entries with
  | nil =>
      rfl
  | cons entry entries inductionHypothesis =>
      have first := sound entry (by simp)
      have rest := inductionHypothesis fun later member =>
        sound later (List.mem_cons_of_mem _ member)
      cases content : entry.content with
      | unopenable =>
          exact absurd (Or.inl content) first
      | corrupt =>
          have unselected : isSelected entry = false := by
            rw [Bool.eq_false_iff, ne_eq, isSelected_iff]
            exact fun holds => first (Or.inr ⟨holds, content⟩)
          simp only [readClasses, content, unselected, Bool.false_eq_true,
            ↓reduceIte, rest, classes, List.filter_cons]
      | bytes bytes =>
          simp only [readClasses, content, rest, classes_cons content]
          split <;> rfl

/-- An archive with a bad entry is not. -/
theorem readClasses_of_bad
    {entries : List ArchiveEntry}
    {entry : ArchiveEntry}
    (member : entry ∈ entries)
    (bad : entry.IsBad) :
    ∃ fault, readClasses entries = .error fault := by
  induction entries with
  | nil =>
      simp at member
  | cons first entries inductionHypothesis =>
      have onward :
          ¬ first.IsBad → ∃ fault, readClasses entries = .error fault := by
        intro sound
        rcases List.mem_cons.mp member with rfl | later
        · exact absurd bad sound
        · exact inductionHypothesis later
      cases content : first.content with
      | unopenable =>
          exact ⟨.unopenable, by simp only [readClasses, content]⟩
      | corrupt =>
          simp only [readClasses, content]
          split
          · exact ⟨.corrupt, rfl⟩
          · next unselected =>
              refine onward ?_
              rw [isSelected_iff] at unselected
              simp [ArchiveEntry.IsBad, content, unselected]
      | bytes bytes =>
          obtain ⟨fault, failed⟩ :=
            onward (by simp [ArchiveEntry.IsBad, content])
          simp only [readClasses, content, failed]
          split <;> exact ⟨fault, rfl⟩

end Archive

/-! ## Entering -/

namespace ClassFile

/-- The declarations that byte strings decode to. -/
def declared (classes : List Bytes) : List ClassDecl :=
  classes.filterMap fun bytes => (decode bytes).toOption

/-- How many byte strings decode, and how many do not. -/
def tally (classes : List Bytes) : Tally where
  units := (declared classes).length
  failures := classes.countP fun bytes => (decode bytes).toOption.isNone

theorem tally_append
    (first second : List Bytes) :
    tally (first ++ second) = (tally first).add (tally second) := by
  simp [tally, declared, Tally.add]

end ClassFile

namespace Atlas

/-- The declarations of byte strings that were found at a location. -/
def found
    (location : Option String)
    (classes : List ClassFile.Bytes) :
    List Source :=
  (ClassFile.declared classes).map fun decl =>
    { decl := decl, location := location, isApplication := true }

/-- Classes are entered by way of the declarations that they decode to. -/
theorem enterAll_eq
    (atlas : Atlas)
    (location : Option String)
    (classes : List ClassFile.Bytes) :
    atlas.enterAll location classes =
      (ClassFile.tally classes,
        atlas.enterSources (found location classes)) := by
  induction classes generalizing atlas with
  | nil =>
      rfl
  | cons bytes classes inductionHypothesis =>
      have split := ClassFile.tally_append [bytes] classes
      rw [List.singleton_append] at split
      cases decoded : ClassFile.decode bytes with
      | error fault =>
          simp only [enterAll, enterBytes, decoded, inductionHypothesis, split]
          simp [ClassFile.tally, ClassFile.declared, found, decoded,
            Except.toOption]
      | ok decl =>
          simp only [enterAll, enterBytes, decoded, inductionHypothesis, split]
          simp [ClassFile.tally, ClassFile.declared, found, decoded,
            Except.toOption, enterSources]

end Atlas

/-! ## Archives as a whole -/

namespace FileContent

/-- The classes of an archive, if all of it can be read. -/
def classes? : FileContent → Option (List ClassFile.Bytes)
  | archive entries => (Archive.readClasses entries).toOption
  | _ => none

/-- What a survey says of an archive that cannot be read. -/
def fault (path : String) : FileContent → SurveyFault
  | archive entries =>
      match Archive.readClasses entries with
      | .error .corrupt => .file path .corrupt
      | _ => .archive path
  | _ => .archive path

theorem classes?_of_sound
    {entries : List ArchiveEntry}
    (sound : ∀ entry ∈ entries, ¬ entry.IsBad) :
    (archive entries).classes? = some (Archive.classes entries) := by
  rw [classes?, Archive.readClasses_of_sound sound]
  rfl

theorem classes?_of_bad
    {entries : List ArchiveEntry}
    {entry : ArchiveEntry}
    (member : entry ∈ entries)
    (bad : entry.IsBad) :
    (archive entries).classes? = none := by
  obtain ⟨fault, failed⟩ := Archive.readClasses_of_bad member bad
  rw [classes?, failed]
  rfl

end FileContent

namespace Atlas

variable (atlas : Atlas) (tree : FileTree) (path : String)

/-- The classes of an archive that can be read are entered. -/
theorem surveyArchive_of_readable
    {content : FileContent}
    {classes : List ClassFile.Bytes}
    (readable : content.classes? = some classes) :
    atlas.surveyArchive tree path content =
      (.ok (ClassFile.tally classes),
        atlas.enterSources (found (tree.location? path) classes)) := by
  cases content with
  | directory | bytes _ =>
      simp [FileContent.classes?] at readable
  | archive entries =>
      rw [FileContent.classes?] at readable
      cases read : Archive.readClasses entries with
      | error fault =>
          simp [read, Except.toOption] at readable
      | ok contents =>
          have same : contents = classes := by
            simpa [read, Except.toOption] using readable
          simp only [surveyArchive, read, enterAll_eq, same]

/-- An archive that cannot be read changes nothing. -/
theorem surveyArchive_of_broken
    {content : FileContent}
    (broken : content.classes? = none) :
    atlas.surveyArchive tree path content =
      (.error (content.fault path), atlas) := by
  cases content with
  | directory | bytes _ =>
      rfl
  | archive entries =>
      rw [FileContent.classes?] at broken
      cases read : Archive.readClasses entries with
      | error fault =>
          cases fault <;> simp only [surveyArchive, FileContent.fault, read]
      | ok contents =>
          simp [read, Except.toOption] at broken

variable {tree path}

theorem survey_of_archive
    {parts : List String}
    {entries : List ArchiveEntry}
    (resolved : tree.resolve path = .ok (parts, .archive entries))
    (named : Path.isArchive path = true) :
    atlas.survey tree path =
      atlas.surveyArchive tree path (.archive entries) := by
  simp only [survey, resolved, named, ↓reduceIte]

/--
The survey of an archive with a bad entry fails, with a fault that names the
archive, and leaves the atlas as it was. Without one it succeeds: it enters the
declarations that the classes of the archive decode to, in order, as
application types found at the archive, and counts the classes that decode and
those that do not. The classes are the entries that hold one.
-/
theorem survey_all_or_nothing
    {parts : List String}
    {entries : List ArchiveEntry}
    (resolved : tree.resolve path = .ok (parts, .archive entries))
    (named : Path.isArchive path = true) :
    let selected := entries.filter Archive.isSelected
    (∀ entry, entry ∈ selected ↔ entry ∈ entries ∧ entry.HoldsClass) ∧
      ((∃ entry ∈ entries, entry.IsBad) →
        ∃ fault,
          (fault = .archive path ∨ fault = .file path .corrupt) ∧
            atlas.survey tree path = (.error fault, atlas)) ∧
      ((∀ entry ∈ entries, ¬ entry.IsBad) →
        atlas.survey tree path =
          (.ok (ClassFile.tally (Archive.contents selected)),
            atlas.enterSources
              (found (some (Path.location parts false))
                (Archive.contents selected)))) := by
  intro selected
  rw [survey_of_archive atlas resolved named]
  refine ⟨fun entry => ?_, ?_, fun sound => ?_⟩
  · rw [List.mem_filter, Archive.isSelected_iff]
  · rintro ⟨entry, member, bad⟩
    have broken := FileContent.classes?_of_bad member bad
    refine ⟨_, ?_, surveyArchive_of_broken atlas tree path broken⟩
    rw [FileContent.fault]
    split
    · exact Or.inr rfl
    · exact Or.inl rfl
  · have readable := FileContent.classes?_of_sound sound
    have location :
        tree.location? path = some (Path.location parts false) := by
      rw [FileTree.location?, resolved]
      rfl
    rw [surveyArchive_of_readable atlas tree path readable, location]
    rfl

/--
An archive with two classes, one of them below a folder, an undecodable class,
and entries that are none, among them a directory and a link with the names of
classes. Of these, two cannot be read, which does not matter.
-/
def bundle : List ArchiveEntry :=
  [⟨"a/App.class",
      .bytes (ClassFile.encode { access := 0x21, name := "a.App" }), true⟩,
    ⟨"META-INF/versions/9/a/App.class", .corrupt, true⟩,
    ⟨"classes/classes/module-info.class", .bytes [0xCA], true⟩,
    ⟨"a/Torn.class", .bytes [0xCA, 0xFE], true⟩,
    ⟨"a/b.class/", .bytes [], false⟩,
    ⟨"a/Link.class", .corrupt, false⟩,
    ⟨"classes/a/Part.class",
      .bytes (ClassFile.encode { access := 0x21, name := "a.Part" }), true⟩]

theorem survey_all_or_nothing_bundle :
    let tree : FileTree := { files := [(["app.jar"], .archive bundle)] }
    tree.resolve "/app.jar" = .ok (["app.jar"], .archive bundle) ∧
      Path.isArchive "/app.jar" = true ∧
      (∀ entry ∈ bundle, ¬ entry.IsBad) ∧
      ∃ selected,
        selected.map (·.name) =
            ["a/App.class", "a/Torn.class", "classes/a/Part.class"] ∧
          Atlas.survey {} tree "/app.jar" =
            (.ok ⟨2, 1⟩,
              Atlas.enterSources {}
                (found (some "file:///app.jar")
                  (Archive.contents selected))) := by
  intro tree
  have resolved :
      tree.resolve "/app.jar" = .ok (["app.jar"], .archive bundle) := by
    rfl
  have named : Path.isArchive "/app.jar" = true := by
    decide +kernel
  have sound : ∀ entry ∈ bundle, ¬ entry.IsBad := by
    simp only [ArchiveEntry.IsBad, ← Archive.isSelected_iff]
    decide +kernel
  obtain ⟨-, -, entered⟩ := survey_all_or_nothing {} resolved named
  refine ⟨resolved, named, sound, bundle.filter Archive.isSelected, ?_, ?_⟩
  · decide +kernel
  · have counted :
        ClassFile.tally
            (Archive.contents (bundle.filter Archive.isSelected)) =
          ⟨2, 1⟩ := by
      decide +kernel
    have location : Path.location ["app.jar"] false = "file:///app.jar" := by
      decide +kernel
    rw [entered sound, counted, location]

end Atlas

end TypeAtlas
