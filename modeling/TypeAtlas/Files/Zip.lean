import TypeAtlas.Files.Archive
import TypeAtlas.Files.Deflate
import TypeAtlas.Text.Utf8

namespace TypeAtlas.Zip

/-!
# ZIP files

A ZIP file ends in a record that says where its directory is. The directory
lists the entries, each with the place of its content, which is stored plainly
or compressed. Other ways of storing make an entry impossible to open.
-/

/-- The bytes of a file. -/
abbrev Image :=
  Array UInt8

/-- A number of some bytes at a place, its lowest byte first. -/
def number?
    (image : Image)
    (place : Nat) :
    Nat → Option Nat
  | 0 => some 0
  | width + 1 => do
      let low ← image[place]?
      let high ← number? image (place + 1) width
      return low.toNat + 256 * high

/-- The bytes of a stretch of a file. -/
def slice?
    (image : Image)
    (place length : Nat) :
    Option (List UInt8) :=
  if place + length ≤ image.size then
    some (image.extract place (place + length)).toList
  else
    none

/-! ## Checksums -/

/-- Shift one bit out of a checksum. -/
def shiftChecksum (sum : UInt32) : UInt32 :=
  if sum &&& 1 = 1 then (sum >>> 1) ^^^ 0xEDB88320 else sum >>> 1

/-- Take one byte into a checksum. -/
def addChecksum (sum : UInt32) (byte : UInt8) : UInt32 :=
  (List.range 8).foldl (fun sum _ => shiftChecksum sum) (sum ^^^ byte.toUInt32)

/-- The checksum of bytes. -/
def checksum (bytes : List UInt8) : UInt32 :=
  bytes.foldl addChecksum 0xFFFFFFFF ^^^ 0xFFFFFFFF

/-! ## Records -/

/-- The directory: the place of its first entry, and how many there are. -/
structure Directory where
  place : Nat
  count : Nat
  /-- What stands in front of the archive in the same file. -/
  shift : Nat
  deriving Repr

/-- The size of the last record without its comment. -/
def endSize : Nat :=
  22

/-- The directory, if the last record starts at a place. -/
def directoryAt?
    (image : Image)
    (place : Nat) :
    Option Directory := do
  let signature ← number? image place 4
  let count ← number? image (place + 10) 2
  let size ← number? image (place + 12) 4
  let offset ← number? image (place + 16) 4
  let comment ← number? image (place + 20) 2
  if signature = 0x06054B50
      ∧ place + endSize + comment ≤ image.size
      ∧ offset + size ≤ place then
    return ⟨place - size, count, place - size - offset⟩
  else
    none

/-- The directory, from the last place at which a last record can start. -/
def directory? (image : Image) : Option Directory :=
  let starts := image.size + 1 - endSize
  (List.range (min starts 65536)).findSome? fun back =>
    directoryAt? image (starts - 1 - back)

/-- An entry as the directory lists it. -/
structure Listing where
  name : String
  /-- The kind of system whose attributes the entry has. -/
  system : Nat
  attributes : Nat
  flags : Nat
  method : Nat
  sum : Nat
  packedSize : Nat
  place : Nat
  /-- Where the next entry of the directory starts. -/
  next : Nat
  deriving Repr

/-- The text of a name. -/
def nameOf (bytes : List UInt8) : String :=
  (Text.ofUtf8? bytes).getD (String.ofList (bytes.map Char.ofUInt8))

/-- The entry at a place of the directory. -/
def listing?
    (image : Image)
    (directory : Directory)
    (place : Nat) :
    Option Listing := do
  let signature ← number? image place 4
  let system ← number? image (place + 5) 1
  let flags ← number? image (place + 8) 2
  let method ← number? image (place + 10) 2
  let sum ← number? image (place + 16) 4
  let packedSize ← number? image (place + 20) 4
  let nameSize ← number? image (place + 28) 2
  let extraSize ← number? image (place + 30) 2
  let commentSize ← number? image (place + 32) 2
  let attributes ← number? image (place + 38) 4
  let offset ← number? image (place + 42) 4
  let name ← slice? image (place + 46) nameSize
  if signature = 0x02014B50 then
    return {
      name := nameOf name
      system := system
      attributes := attributes
      flags := flags
      method := method
      sum := sum
      packedSize := packedSize
      place := directory.shift + offset
      next := place + 46 + nameSize + extraSize + commentSize }
  else
    none

/-- A number of entries of the directory, from a place on. -/
def listings?
    (image : Image)
    (directory : Directory) :
    Nat → Nat → Option (List Listing)
  | 0, _ => some []
  | count + 1, place => do
      let first ← listing? image directory place
      let rest ← listings? image directory count first.next
      return first :: rest

/-! ## Contents -/

namespace Listing

/-- A link is marked in the attributes of a Unix system. -/
def isLink (listing : Listing) : Bool :=
  let mode := listing.attributes / 0x10000
  listing.system == 3 && mode &&& 0xA000 == 0xA000

/-- An entry is a file unless it is a directory or a link. -/
def isFile (listing : Listing) : Bool :=
  !namesDirectory listing.name && !listing.isLink

/-- The stored bytes of an entry. -/
def packed?
    (listing : Listing)
    (image : Image) :
    Option (List UInt8) := do
  let signature ← number? image listing.place 4
  let nameSize ← number? image (listing.place + 26) 2
  let extraSize ← number? image (listing.place + 28) 2
  if signature = 0x04034B50 then
    slice? image (listing.place + 30 + nameSize + extraSize) listing.packedSize
  else
    none

/-- The bytes of an entry, checked against its checksum. -/
def check
    (listing : Listing) :
    Option (List UInt8) → EntryContent
  | some bytes =>
      if (checksum bytes).toNat = listing.sum then
        .bytes bytes
      else
        .corrupt
  | none => .corrupt

/-- The content of an entry. -/
def content
    (listing : Listing)
    (image : Image) :
    EntryContent :=
  match listing.packed? image with
  | none => .unopenable
  | some packed =>
      if listing.flags % 2 = 1 then
        .unopenable
      else if listing.method = 0 then
        listing.check (some packed)
      else if listing.method = 8 then
        listing.check (Deflate.inflate? packed)
      else
        .unopenable

end Listing

/-- The entries of a ZIP file, if it is one. -/
def read? (image : Image) : Option (List ArchiveEntry) := do
  let directory ← directory? image
  let listings ← listings? image directory directory.count directory.place
  return Archive.distinct
    (listings.map fun listing =>
      ⟨listing.name, listing.content image, listing.isFile⟩)

end TypeAtlas.Zip
