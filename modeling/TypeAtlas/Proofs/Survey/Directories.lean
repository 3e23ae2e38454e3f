import Mathlib.Data.List.TakeWhile
import TypeAtlas.Proofs.Survey.Archives

namespace TypeAtlas

/-!
# Surveys of directories

A directory is surveyed by the list of files below it: first all loose classes,
then the archives in the order of the list. The survey ends at the first
archive that cannot be read, so what it enters is a matter of that order. The
archives behind a broken one are left out, whether they can be read or not, and
what is missing in the end is what these would have entered.

To compare with a tree in which the broken archives are absent, they are taken
out of it, their folders staying behind. All other paths lead where they led
before.
-/

/-! ## Listings -/

/-- Files below a directory, each with its path. -/
abbrev Listing :=
  List (String × FileContent)

namespace Listing

/-- Whether a file is an archive that can be read as a whole. -/
def isReadable (file : String × FileContent) : Bool :=
  file.2.classes?.isSome

/-- Whether a file is meant to be an archive and cannot be read. -/
def isBroken (file : String × FileContent) : Bool :=
  Path.isArchive file.1 && !isReadable file

/-- The loose classes. -/
def loose (files : Listing) : List ClassFile.Bytes :=
  (files.filter (Atlas.isLooseClass ·.1)).map (Atlas.looseBytes ·.2)

def archives (files : Listing) : Listing :=
  files.filter (Path.isArchive ·.1)

/-- The classes in archives, none in one that cannot be read. -/
def packed (files : Listing) : List ClassFile.Bytes :=
  files.flatMap (·.2.classes?.getD [])

/-- The declarations in archives, each found at its archive. -/
def packedSources
    (tree : FileTree)
    (files : Listing) :
    List Source :=
  files.flatMap fun (path, content) =>
    Atlas.found (tree.location? path) (content.classes?.getD [])

/-- The archives in front of the first broken one. -/
def untilBroken (files : Listing) : Listing :=
  files.archives.takeWhile isReadable

/-- The readable archives behind the first broken one. -/
def pastBroken (files : Listing) : Listing :=
  (files.archives.dropWhile isReadable).filter isReadable

/-- All archives that can be read. -/
def readable (files : Listing) : Listing :=
  files.archives.filter isReadable

theorem readable_eq
    (files : Listing) :
    files.readable = files.untilBroken ++ files.pastBroken := by
  have front :
      (files.archives.takeWhile isReadable).filter isReadable =
        files.archives.takeWhile isReadable :=
    List.filter_eq_self.mpr fun _ member => List.mem_takeWhile_imp member
  rw [untilBroken, pastBroken, readable, ← front, ← List.filter_append,
    List.takeWhile_append_dropWhile]

/-- A listing without its broken archives has the same files otherwise. -/
theorem loose_filter_isBroken
    (files : Listing) :
    loose (files.filter (!isBroken ·)) = files.loose := by
  rw [loose, List.filter_filter, loose]
  congr 2
  funext file
  cases isArchive : Path.isArchive file.1 <;>
    simp [Atlas.isLooseClass, isBroken, isArchive]

theorem archives_filter_isBroken
    (files : Listing) :
    archives (files.filter (!isBroken ·)) = files.readable := by
  rw [archives, readable, archives, List.filter_filter, List.filter_filter]
  congr 1
  funext file
  cases isArchive : Path.isArchive file.1 <;>
    simp [isBroken, isArchive]

end Listing

/-! ## Surveys of listings -/

namespace Atlas

theorem enterSources_append
    (atlas : Atlas)
    (first second : List Source) :
    atlas.enterSources (first ++ second) =
      (atlas.enterSources first).enterSources second :=
  List.foldl_append

/-- Archives are surveyed up to the first one that cannot be read. -/
theorem surveyArchives_eq
    (atlas : Atlas)
    (tree : FileTree)
    (archives : Listing) :
    atlas.surveyArchives tree archives =
      (match archives.find? (!Listing.isReadable ·) with
        | some (path, content) => .error (content.fault path)
        | none => .ok (ClassFile.tally archives.packed),
        atlas.enterSources
          (Listing.packedSources tree
            (archives.takeWhile Listing.isReadable))) := by
  induction archives generalizing atlas with
  | nil =>
      rfl
  | cons file archives inductionHypothesis =>
      obtain ⟨path, content⟩ := file
      unfold surveyArchives
      cases readable : content.classes? with
      | none =>
          have broken : Listing.isReadable (path, content) = false := by
            simp [Listing.isReadable, readable]
          simp only [surveyArchive_of_broken atlas tree path readable,
            List.takeWhile_cons, List.find?_cons, broken, Bool.not_false]
          rfl
      | some classes =>
          have sound : Listing.isReadable (path, content) = true := by
            simp [Listing.isReadable, readable]
          simp only [surveyArchive_of_readable atlas tree path readable,
            inductionHypothesis, List.takeWhile_cons, List.find?_cons, sound,
            Bool.not_true, ↓reduceIte, Listing.packedSources, Listing.packed,
            List.flatMap_cons, readable, Option.getD_some,
            enterSources_append, ClassFile.tally_append]
          cases archives.find? (!Listing.isReadable ·) <;> rfl

end Atlas

/-! ## Trees without broken archives -/

/-- A look-up does not miss what was left out under other keys. -/
theorem lookup_filter
    [BEq α]
    [LawfulBEq α]
    {keep : α × β → Bool}
    {pairs : List (α × β)}
    {key : α}
    (kept : ∀ value, (key, value) ∈ pairs → keep (key, value) = true) :
    (pairs.filter keep).lookup key = pairs.lookup key := by
  induction pairs with
  | nil =>
      rfl
  | cons pair pairs inductionHypothesis =>
      obtain ⟨name, value⟩ := pair
      have rest := inductionHypothesis fun value member =>
        kept value (List.mem_cons_of_mem _ member)
      rw [List.filter_cons, List.lookup_cons]
      by_cases same : key = name
      · subst same
        simp [kept value (by simp)]
      · have other : (key == name) = false := by simpa using same
        split <;> simp [List.lookup_cons, other, rest]

theorem prefix_dropLast
    {short long : List α}
    (within : short <+: long)
    (different : short ≠ long) :
    short <+: long.dropLast := by
  obtain ⟨rest, rfl⟩ := within
  have more : rest ≠ [] := by
    rintro rfl
    simp at different
  rw [List.dropLast_append_of_ne_nil more]
  exact List.prefix_append _ _

namespace FileTree

/-- What a file of a tree is listed as below a directory, if it is there. -/
def listed?
    (directory : String)
    (parts : List String)
    (file : List String × FileContent) :
    Option (String × FileContent) :=
  if parts.isPrefixOf file.1 && file.2 != .directory then
    let rest := "/".intercalate (file.1.drop parts.length)
    some (Path.join directory rest, file.2)
  else
    none

/-- Whether a file is a broken archive below a directory. -/
def isBrokenBelow
    (directory : String)
    (parts : List String)
    (file : List String × FileContent) :
    Bool :=
  (listed? directory parts file).any Listing.isBroken

variable (tree : FileTree) (directory : String) (parts : List String)

/-- Where the broken archives below a directory are. -/
def brokenPlaces : List (List String) :=
  (tree.files.filter (isBrokenBelow directory parts)).map (·.1)

/-- The tree without them; the folders that they are in stay. -/
def withoutBroken : FileTree :=
  { tree with
    files :=
      tree.files.filter (!isBrokenBelow directory parts ·) ++
        (tree.brokenPlaces directory parts).map fun place =>
          (place.dropLast, .directory) }

theorem below_eq :
    tree.below directory parts =
      tree.files.filterMap (listed? directory parts) :=
  rfl

/-- Below the directory, all other files are listed as before. -/
theorem below_withoutBroken :
    (tree.withoutBroken directory parts).below directory parts =
      (tree.below directory parts).filter (!Listing.isBroken ·) := by
  have folders :
      ((tree.brokenPlaces directory parts).map fun place =>
        (place.dropLast, FileContent.directory)).filterMap
          (listed? directory parts) = [] := by
    simp [List.filterMap_eq_nil_iff, listed?]
  rw [below_eq, below_eq, withoutBroken, List.filterMap_append, folders,
    List.append_nil, List.filterMap_filter, List.filter_filterMap]
  congr 1
  funext file
  cases listed : listed? directory parts file with
  | none =>
      simp [isBrokenBelow, listed]
  | some entry =>
      cases broken : Listing.isBroken entry <;>
        simp [isBrokenBelow, listed, broken, Option.filter_some]

variable {tree directory parts}

theorem mem_brokenPlaces_iff
    {place : List String} :
    place ∈ tree.brokenPlaces directory parts ↔
      ∃ content,
        (place, content) ∈ tree.files ∧
          isBrokenBelow directory parts (place, content) = true := by
  simp [brokenPlaces]

/-- Other places are above files exactly if they were so before. -/
theorem any_isPrefixOf_withoutBroken
    {place : List String}
    (elsewhere : place ∉ tree.brokenPlaces directory parts) :
    (tree.withoutBroken directory parts).files.any (place.isPrefixOf ·.1) =
      tree.files.any (place.isPrefixOf ·.1) := by
  rw [Bool.eq_iff_iff]
  simp only [List.any_eq_true, List.isPrefixOf_iff_prefix, withoutBroken,
    List.mem_append, List.mem_filter, List.mem_map]
  constructor
  · rintro ⟨file, ⟨member, -⟩ | ⟨broken, inside, rfl⟩, above⟩
    · exact ⟨file, member, above⟩
    · obtain ⟨content, member, -⟩ := mem_brokenPlaces_iff.mp inside
      exact ⟨_, member, above.trans (List.dropLast_prefix _)⟩
  · rintro ⟨⟨file, content⟩, member, above⟩
    by_cases broken : isBrokenBelow directory parts (file, content) = true
    · -- The folder that stays in its place is below the place as well.
      have inside := mem_brokenPlaces_iff.mpr ⟨content, member, broken⟩
      refine ⟨_, Or.inr ⟨file, inside, rfl⟩, prefix_dropLast above ?_⟩
      rintro rfl
      exact elsewhere inside
    · exact ⟨_, Or.inl ⟨member, by simp [broken]⟩, above⟩

/-- Where no broken archive is, there is what was there before. -/
theorem find?_withoutBroken
    {place : List String}
    (elsewhere : place ∉ tree.brokenPlaces directory parts) :
    (tree.withoutBroken directory parts).find? place = tree.find? place := by
  have kept :
      (tree.files.filter (!isBrokenBelow directory parts ·)).lookup place =
        tree.files.lookup place := by
    refine lookup_filter fun content member => ?_
    rw [Bool.not_eq_true', Bool.eq_false_iff]
    exact fun broken =>
      elsewhere (mem_brokenPlaces_iff.mpr ⟨content, member, broken⟩)
  have above := any_isPrefixOf_withoutBroken elsewhere
  unfold find?
  rw [above, withoutBroken, List.lookup_append, kept]
  cases tree.files.lookup place with
  | some content =>
      rfl
  | none =>
      rw [Option.none_or]
      split
      · next content folder =>
          obtain ⟨before, after, shape, -⟩ :=
            List.lookup_eq_some_iff.mp folder
          have member := shape ▸ List.mem_append_right before
            (List.mem_cons_self)
          obtain ⟨broken, inside, same⟩ := List.mem_map.mp member
          obtain ⟨rfl, rfl⟩ := Prod.mk.inj same
          obtain ⟨content, file, -⟩ := mem_brokenPlaces_iff.mp inside
          have there :
              tree.files.any (broken.dropLast.isPrefixOf ·.1) = true :=
            List.any_eq_true.mpr ⟨_, file,
              List.isPrefixOf_iff_prefix.mpr (List.dropLast_prefix _)⟩
          simp only [there, Bool.or_true, ↓reduceIte]
      · rfl

/-- A path is followed from the top or from here, to where something is. -/
theorem resolve_eq_ok_iff
    {path : String}
    {place : List String}
    {content : FileContent} :
    tree.resolve path = .ok (place, content) ↔
      path ≠ "" ∧
        tree.follow (if Path.isAbsolute path then [] else tree.here)
            (Text.split '/' path) =
          .ok place ∧
        tree.find? place = some content := by
  by_cases empty : path = ""
  · simp [resolve, empty, bind, Except.bind, throw, throwThe,
      MonadExceptOf.throw]
  · simp only [resolve, empty, ↓reduceIte, ne_eq, not_false_eq_true,
      true_and, bind, Except.bind, pure, Except.pure]
    cases tree.follow (if Path.isAbsolute path then [] else tree.here)
        (Text.split '/' path) with
    | error fault =>
        simp
    | ok reached =>
        constructor
        · intro resolved
          dsimp only at resolved
          split at resolved
          · next there found =>
              obtain ⟨rfl, rfl⟩ := Prod.mk.inj (Except.ok.inj resolved)
              exact ⟨rfl, found⟩
          · simp [throw, throwThe, MonadExceptOf.throw] at resolved
        · rintro ⟨reaches, found⟩
          rw [Except.ok.inj reaches]
          simp only [found]

/--
A tree that is in order, as far as a directory goes: every file is found at its
place, and every path that is listed leads to what is listed there.
-/
structure IsOrderly
    (tree : FileTree)
    (directory : String)
    (parts : List String) :
    Prop where
  found : ∀ file ∈ tree.files, tree.find? file.1 = some file.2
  leads :
    ∀ file ∈ tree.below directory parts,
      ∃ place, tree.resolve file.1 = .ok (place, file.2)

namespace IsOrderly

variable (orderly : tree.IsOrderly directory parts)
include orderly

/-- At the place of a broken archive there is a file that cannot be read. -/
theorem find?_of_broken
    {place : List String}
    (broken : place ∈ tree.brokenPlaces directory parts) :
    ∃ content,
      tree.find? place = some content ∧
        content ≠ .directory ∧ content.classes? = none := by
  obtain ⟨content, member, isBroken⟩ := mem_brokenPlaces_iff.mp broken
  refine ⟨content, orderly.found _ member, ?_⟩
  rw [isBrokenBelow, listed?] at isBroken
  split at isBroken
  · next listed =>
      have isFile := (Bool.and_eq_true_iff.mp listed).2
      simp only [Option.any_some, Listing.isBroken, Listing.isReadable,
        Bool.and_eq_true, Bool.not_eq_true', Option.isSome_eq_false_iff,
        Option.isNone_iff_eq_none] at isBroken
      exact ⟨by simpa using isFile, isBroken.2⟩
  · simp at isBroken

/-- A directory is no broken archive. -/
theorem elsewhere_of_directory
    {place : List String}
    (found : tree.find? place = some .directory) :
    place ∉ tree.brokenPlaces directory parts := by
  intro broken
  obtain ⟨content, there, isFile, -⟩ := orderly.find?_of_broken broken
  exact isFile (Option.some.inj (there.symm.trans found))

/-- No path leads on from a broken archive. -/
theorem elsewhere_of_follow
    {here place path : List String}
    (followed : tree.follow here path = .ok place)
    (elsewhere : place ∉ tree.brokenPlaces directory parts) :
    here ∉ tree.brokenPlaces directory parts := by
  intro broken
  cases path with
  | nil =>
      exact elsewhere (Except.ok.inj followed ▸ broken)
  | cons part path =>
      obtain ⟨content, found, isFile, -⟩ := orderly.find?_of_broken broken
      cases content with
      | directory =>
          exact isFile rfl
      | bytes _ | archive _ =>
          simp [follow, found] at followed

/-- A path that leads elsewhere does so without the broken archives too. -/
theorem follow_withoutBroken
    {here place path : List String}
    (followed : tree.follow here path = .ok place)
    (elsewhere : place ∉ tree.brokenPlaces directory parts) :
    (tree.withoutBroken directory parts).follow here path = .ok place := by
  induction path generalizing here with
  | nil =>
      exact followed
  | cons part path inductionHypothesis =>
      have start := orderly.elsewhere_of_follow followed elsewhere
      simp only [follow, find?_withoutBroken start] at followed ⊢
      split at followed
      · split at followed
        · next stays =>
            rw [if_pos stays]
            exact inductionHypothesis followed
        · next moves =>
            rw [if_neg moves]
            split at followed
            · next upwards =>
                rw [if_pos upwards]
                exact inductionHypothesis followed
            · next downwards =>
                split at followed
                · next present =>
                    have next := orderly.elsewhere_of_follow followed elsewhere
                    rw [if_neg downwards, find?_withoutBroken next,
                      if_pos present]
                    exact inductionHypothesis followed
                · simp at followed
      · simp at followed
      · simp at followed

/-- What a path leads to stays, unless it is a broken archive. -/
theorem resolve_withoutBroken
    {path : String}
    {place : List String}
    {content : FileContent}
    (resolved : tree.resolve path = .ok (place, content))
    (elsewhere : place ∉ tree.brokenPlaces directory parts) :
    (tree.withoutBroken directory parts).resolve path =
      .ok (place, content) := by
  obtain ⟨present, followed, found⟩ := resolve_eq_ok_iff.mp resolved
  exact resolve_eq_ok_iff.mpr ⟨present,
    orderly.follow_withoutBroken followed elsewhere,
    (find?_withoutBroken elsewhere).trans found⟩

end IsOrderly

end FileTree

/-! ## Directories -/

namespace FileTree.IsOrderly

variable {tree : FileTree} {path : String} {parts : List String}
variable (orderly : tree.IsOrderly path parts)
include orderly

/-- A path that leads to something readable has the same location. -/
theorem location?_withoutBroken
    {file : String}
    {place : List String}
    {content : FileContent}
    (resolved : tree.resolve file = .ok (place, content))
    (elsewhere : place ∉ tree.brokenPlaces path parts) :
    (tree.withoutBroken path parts).location? file = tree.location? file := by
  rw [location?, location?, resolved,
    orderly.resolve_withoutBroken resolved elsewhere]

/-- The archives that can be read are found at the same locations. -/
theorem packedSources_withoutBroken :
    let readable := Listing.readable (tree.below path parts)
    Listing.packedSources (tree.withoutBroken path parts) readable =
      Listing.packedSources tree readable := by
  refine List.flatMap_congr fun file member => ?_
  dsimp only
  obtain ⟨inArchives, isReadable⟩ := List.mem_filter.mp member
  obtain ⟨place, resolved⟩ := orderly.leads file (List.mem_filter.mp inArchives).1
  have elsewhere : place ∉ tree.brokenPlaces path parts := by
    intro broken
    obtain ⟨content, found, -, unreadable⟩ := orderly.find?_of_broken broken
    rw [find?_of_resolve resolved, Option.some.injEq] at found
    simp [Listing.isReadable, found, unreadable] at isReadable
  rw [orderly.location?_withoutBroken resolved elsewhere]

end FileTree.IsOrderly

namespace Atlas

/-- What a survey answers: the fault of the first broken archive, or a count. -/
def surveyAnswer (files : Listing) : Except SurveyFault Tally :=
  match files.archives.find? (!Listing.isReadable ·) with
  | some (path, content) => .error (content.fault path)
  | none => .ok (ClassFile.tally (files.loose ++ files.archives.packed))

/-- Loose classes are entered first, then archives up to the first broken one. -/
theorem surveyDirectory_eq
    (atlas : Atlas)
    (tree : FileTree)
    (path : String)
    (parts : List String) :
    let files : Listing := tree.below path parts
    atlas.surveyDirectory tree path parts =
      (surveyAnswer files,
        atlas.enterSources
          (found (tree.location? path) files.loose ++
            files.untilBroken.packedSources tree)) := by
  simp only [surveyDirectory, surveyAnswer, enterAll_eq, surveyArchives_eq,
    enterSources_append, ClassFile.tally_append, Listing.untilBroken,
    Listing.loose, Listing.archives]
  cases (List.filter (Path.isArchive ·.1) (tree.below path parts)).find?
      (!Listing.isReadable ·) <;>
    rfl

theorem survey_of_directory
    (atlas : Atlas)
    {tree : FileTree}
    {path : String}
    {parts : List String}
    (resolved : tree.resolve path = .ok (parts, .directory)) :
    atlas.survey tree path = atlas.surveyDirectory tree path parts := by
  simp only [survey, resolved]

/-- Without the broken archives, all others are entered. -/
theorem survey_withoutBroken
    (atlas : Atlas)
    {tree : FileTree}
    {path : String}
    {parts : List String}
    (orderly : tree.IsOrderly path parts)
    (resolved : tree.resolve path = .ok (parts, .directory)) :
    let files : Listing := tree.below path parts
    atlas.survey (tree.withoutBroken path parts) path =
      (.ok (ClassFile.tally (files.loose ++ files.readable.packed)),
        atlas.enterSources
          (found (tree.location? path) files.loose ++
            files.readable.packedSources tree)) := by
  intro files
  have elsewhere := orderly.elsewhere_of_directory
    (FileTree.find?_of_resolve resolved)
  have still := orderly.resolve_withoutBroken resolved elsewhere
  have same := orderly.location?_withoutBroken resolved elsewhere
  have whole : ∀ file ∈ files.readable, Listing.isReadable file = true :=
    fun file member => (List.mem_filter.mp member).2
  have all :
      files.readable.takeWhile Listing.isReadable = files.readable :=
    List.takeWhile_eq_self_iff.mpr whole
  have none : files.readable.find? (!Listing.isReadable ·) = none := by
    rw [List.find?_eq_none]
    intro file member
    simp [whole file member]
  rw [survey_of_directory atlas still, surveyDirectory_eq]
  simp only [FileTree.below_withoutBroken, surveyAnswer, Listing.untilBroken,
    Listing.loose_filter_isBroken, Listing.archives_filter_isBroken]
  rw [all, none, same, orderly.packedSources_withoutBroken]

/--
The survey of a directory enters all loose classes, then the archives up to the
first one that cannot be read, whose fault is the answer. Had the broken
archives been absent, it would have entered all others, so that its outcome is
the same exactly if the readable archives behind the first broken one have
nothing to add.
-/
theorem survey_until_broken
    (atlas : Atlas)
    {tree : FileTree}
    {path : String}
    {parts : List String}
    (resolved : tree.resolve path = .ok (parts, .directory)) :
    let files : Listing := tree.below path parts
    let outcome := atlas.survey tree path
    let loose := found (tree.location? path) files.loose
    outcome.2 =
        atlas.enterSources (loose ++ files.untilBroken.packedSources tree) ∧
      outcome.1 = surveyAnswer files ∧
      (tree.IsOrderly path parts →
        let absent := atlas.survey (tree.withoutBroken path parts) path
        absent.1 =
            .ok (ClassFile.tally (files.loose ++ files.readable.packed)) ∧
          absent.2 =
            atlas.enterSources (loose ++ files.readable.packedSources tree) ∧
          (outcome.2 = absent.2 ↔
            outcome.2.enterSources (files.pastBroken.packedSources tree) =
              outcome.2)) := by
  intro files outcome loose
  have surveyed : outcome = _ :=
    (survey_of_directory atlas resolved).trans
      (atlas.surveyDirectory_eq tree path parts)
  refine ⟨congrArg Prod.snd surveyed, congrArg Prod.fst surveyed,
    fun orderly => ?_⟩
  intro absent
  have spared : absent = _ := survey_withoutBroken atlas orderly resolved
  refine ⟨congrArg Prod.fst spared, congrArg Prod.snd spared, ?_⟩
  have missing :
      absent.2 =
        outcome.2.enterSources (files.pastBroken.packedSources tree) := by
    rw [spared, surveyed, Listing.readable_eq, Listing.packedSources,
      List.flatMap_append, ← List.append_assoc, enterSources_append]
    rfl
  rw [missing]
  exact eq_comm

/-- The bytes of a class that has nothing but a name. -/
def plainClass (name : TypeName) : ClassFile.Bytes :=
  ClassFile.encode { access := 0x21, name := name }

/--
A directory with a loose class and three archives, the second of which is none.
-/
def halfBroken : FileTree :=
  { files :=
      [(["in", "a", "Loose.class"], .bytes (plainClass "a.Loose")),
        (["in", "first.jar"],
          .archive [⟨"a/First.class", .bytes (plainClass "a.First"), true⟩]),
        (["in", "torn.jar"], .bytes [0x50, 0x4B]),
        (["in", "lib", "last.jar"],
          .archive [⟨"a/Last.class", .bytes (plainClass "a.Last"), true⟩])] }

theorem survey_until_broken_halfBroken :
    let files : Listing := halfBroken.below "/in" ["in"]
    let absent := halfBroken.withoutBroken "/in" ["in"]
    halfBroken.resolve "/in" = .ok (["in"], .directory) ∧
      halfBroken.IsOrderly "/in" ["in"] ∧
      files.untilBroken.map (·.1) = ["/in/first.jar"] ∧
      files.pastBroken.map (·.1) = ["/in/lib/last.jar"] ∧
      (Atlas.survey {} halfBroken "/in").1 =
        .error (.archive "/in/torn.jar") ∧
      (Atlas.survey {} absent "/in").1 = .ok ⟨3, 0⟩ := by
  intro files absent
  have resolved : halfBroken.resolve "/in" = .ok (["in"], .directory) := rfl
  have orderly : halfBroken.IsOrderly "/in" ["in"] := by
    refine ⟨by decide +kernel, ?_⟩
    have listed :
        halfBroken.below "/in" ["in"] =
          [("/in/a/Loose.class", .bytes (plainClass "a.Loose")),
            ("/in/first.jar",
              .archive [⟨"a/First.class", .bytes (plainClass "a.First"), true⟩]),
            ("/in/torn.jar", .bytes [0x50, 0x4B]),
            ("/in/lib/last.jar",
              .archive [⟨"a/Last.class", .bytes (plainClass "a.Last"), true⟩])] := by
      decide +kernel
    rw [listed]
    simp only [List.forall_mem_cons, List.not_mem_nil, false_implies,
      implies_true, and_true]
    exact ⟨⟨_, rfl⟩, ⟨_, rfl⟩, ⟨_, rfl⟩, ⟨_, rfl⟩⟩
  have broken :
      files.archives.find? (!Listing.isReadable ·) =
        some ("/in/torn.jar", .bytes [0x50, 0x4B]) := by
    decide +kernel
  have counted :
      ClassFile.tally (files.loose ++ files.readable.packed) = ⟨3, 0⟩ := by
    decide +kernel
  obtain ⟨-, answered, compared⟩ := survey_until_broken {} resolved
  obtain ⟨spared, -, -⟩ := compared orderly
  refine ⟨resolved, orderly, by decide +kernel, by decide +kernel, ?_, ?_⟩
  · rw [answered, surveyAnswer, broken]
    rfl
  · rw [spared, counted]

theorem survey_halfBroken_loses_last :
    let absent := halfBroken.withoutBroken "/in" ["in"]
    (Atlas.survey {} halfBroken "/in").2.store.isVisited "a.Last" = false ∧
      (Atlas.survey {} absent "/in").2.store.isVisited "a.Last" = true := by
  decide +kernel

end Atlas

end TypeAtlas
