import TypeAtlas.Text.Split
import TypeAtlas.Text.Utf8

namespace TypeAtlas.Path

/-!
# Paths

Paths are texts whose parts are divided by slashes. Empty parts and single dots
do not count. The location of a file is its path written as a URL, with every
byte that has a meaning of its own in URLs percent-encoded; the location of a
directory ends in a slash.
-/

/-- The parts of a path that count. -/
def parts (path : String) : List String :=
  (Text.split '/' path).filter fun part => part != "" && part != "."

/-- The last part, unless it leads upwards. -/
def fileName? (path : String) : Option String :=
  (parts path).getLast?.filter (· != "..")

/-- The text after the last dot of the file name, if text stands before it. -/
def extension? (path : String) : Option String := do
  let name ← fileName? path
  let backwards := name.toList.reverse
  let ending := backwards.takeWhile (· != '.')
  match backwards.dropWhile (· != '.') with
  | _ :: _ :: _ => some (String.ofList ending.reverse)
  | _ => none

/-- Whether the extension is one of the given ones, whatever their case. -/
def hasExtension
    (path : String)
    (extensions : List String) :
    Bool :=
  (extension? path).any fun found =>
    extensions.any (Text.sameIgnoringCase found)

def isArchive (path : String) : Bool :=
  hasExtension path ["jar", "zip", "jmod"]

def isClassFile (path : String) : Bool :=
  hasExtension path ["class"]

/-- Whether a path starts at the top. -/
def isAbsolute (path : String) : Bool :=
  path.toList.head? == some '/'

/-- A path below a directory; an absolute path stands for itself. -/
def join (directory path : String) : String :=
  if isAbsolute path then
    path
  else if directory.toList.getLast? = some '/' then
    directory ++ path
  else
    directory ++ "/" ++ path

/-- The parts from the top of a path that starts at a directory. -/
def fromTop (here : List String) (path : String) : List String :=
  (parts path).foldl
    (fun known part => if part = ".." then known.dropLast else known ++ [part])
    (if isAbsolute path then [] else here)

/-- The absolute path of parts from the top. -/
def ofParts (parts : List String) : String :=
  "/" ++ "/".intercalate parts

/-! ## Locations -/

/-- Whether a byte is percent-encoded in a part of a path. -/
def isEscaped (byte : UInt8) : Bool :=
  byte < 0x21 || byte ≥ 0x7F
    || ['"', '#', '%', '/', '<', '>', '?', '\\', '\x60', '\x7b', '\x7d'].contains
        (Char.ofUInt8 byte)

/-- A hexadecimal digit, letters in upper case. -/
def hexDigit (value : UInt8) : Char :=
  if value < 10 then
    Char.ofUInt8 (value + 48)
  else
    Char.ofUInt8 (value + 55)

/-- A byte as it stands in a location. -/
def escapeByte (byte : UInt8) : List Char :=
  if isEscaped byte then
    ['%', hexDigit (byte / 16), hexDigit (byte % 16)]
  else
    [Char.ofUInt8 byte]

/-- A part of a path as it stands in a location. -/
def escape (part : String) : String :=
  String.ofList ((Text.utf8Bytes part.toList).flatMap escapeByte)

/-- The location of a file or a directory, given by its parts from the top. -/
def location
    (parts : List String)
    (isDirectory : Bool) :
    String :=
  let path := String.join (parts.map fun part => "/" ++ escape part)
  "file://" ++ path ++ (if isDirectory then "/" else "")

end TypeAtlas.Path
