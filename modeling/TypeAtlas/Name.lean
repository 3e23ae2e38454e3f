namespace TypeAtlas

/-!
# Type names

A type is known by its *binary* name, dotted between packages
(`shop.Order$Line`). Class files write the *internal* form of the same name,
with slashes. The root of every class hierarchy is the one name that is never
tracked.
-/

/-- A dotted binary name. -/
abbrev TypeName := String

/-- Replace every occurrence of one character. -/
def replaceChar
    (old new : Char)
    (text : String) :
    String :=
  String.ofList (text.toList.map fun c => if c = old then new else c)

/-- What a replacement puts in is replaced like what it stands for. -/
theorem replaceChar_replaceChar
    (old new : Char)
    (text : String) :
    replaceChar old new (replaceChar new old text) =
      replaceChar old new text := by
  simp only [replaceChar, String.toList_ofList, List.map_map]
  congr 1
  apply List.map_congr_left
  intro c _
  by_cases isNew : c = new
  · simp [isNew]
  · simp [isNew]

/-- A text without the character stays as it is. -/
theorem replaceChar_eq_self
    {old new : Char}
    {text : String}
    (absent : old ∉ text.toList) :
    replaceChar old new text = text := by
  have same :
      (text.toList.map fun c => if c = old then new else c) = text.toList := by
    refine (List.map_congr_left fun c member => if_neg ?_).trans (List.map_id' _)
    rintro rfl
    exact absent member
  rw [replaceChar, same, String.ofList_toList]

namespace TypeName

/-- The binary name behind an internal one: slashes become dots. -/
def ofInternal (text : String) : TypeName :=
  replaceChar '/' '.' text

/-- The internal form of a binary name: dots become slashes. -/
def toInternal (name : TypeName) : String :=
  replaceChar '.' '/' name

/-- The implicit root of every class hierarchy. -/
def root : TypeName :=
  "java.lang.Object"

/-- The text before the last dot, empty for the default package. -/
def package (name : TypeName) : String :=
  String.ofList
    (((name.toList.reverse.dropWhile (· != '.')).drop 1).reverse)

end TypeName

end TypeAtlas
