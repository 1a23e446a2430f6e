import Statuary.Files.Bytes
import Statuary.Program.Pack
import Statuary.Quicksort
import Statuary.Time.Instant

/-!
# Zip archives

A pack can go into a single archive. Its entries are **sorted by path and all have one time stamp**,
so that the archive of a program depends on nothing but its files (`Statuary.Zip.ofFiles`). Files of
one path stand in the order that quicksort gives them.

An entry whose name ends in a slash is a directory and has no content. Every other entry is a
deflated one; the bytes are put into blocks that store them as they are (`Statuary.Zip.bytes`).
-/

namespace Statuary

/-- An entry of an archive. -/
structure ZipEntry where
  /-- The name. -/
  name : String
  /-- The content. -/
  data : String
  /-- The time stamp. -/
  modified : Instant
  /-- The content is deflated. -/
  deflated : Bool
  deriving DecidableEq, Repr

/-- Why files cannot be put into a pack. -/
inductive PackPathError where
  /-- A path leads out of the pack, or is written in a way that may. -/
  | badPath (path : String)
  /-- A path has too many bytes. -/
  | longPath
  /-- A directory has a content. -/
  | directoryData
  deriving DecidableEq, Repr

/-- The text of an error. -/
def PackPathError.message : PackPathError → String
  | badPath path => s!"datapack: bad file path {quoted path}"
  | longPath => "zip: FileHeader.Name too long"
  | directoryData => "zip: write to directory"

/-- A path stays inside a pack: it is not empty, does not start at the root of all directories, has
no backslash and never goes up. -/
def isPackPath (p : String) : Bool :=
  p ≠ "" && !Path.isRooted p && !p.toList.contains '\\' && !(Path.segments p).contains ".."

namespace Zip

/-- The time stamp of every entry, the beginning of the year 2000. -/
def epoch : Instant := .ofMillis 946684800000

/-- The most bytes of the name of an entry. -/
def nameBytes : Nat := 65535

/-- The entry of a file. -/
def entry (f : PackFile) : Except PackPathError ZipEntry :=
  if !isPackPath f.path then .error (.badPath f.path)
  else if nameBytes < Utf8.size f.path then .error .longPath
  else if f.path.toList.getLast? = some '/' then
    if f.data = "" then .ok ⟨f.path, "", epoch, false⟩ else .error .directoryData
  else .ok ⟨f.path, f.data, epoch, true⟩

/-- The order of files in an archive. -/
def before (a b : PackFile) : Bool :=
  !textLt b.path a.path

/-- **The entries of the archive of files.** Quicksort puts the files in order and settles in which
order files of one path stand. What is in order a stable sort leaves as it is: the second one is
there because the order by path can be read off it, and not off a program of exchanges. -/
def ofFiles (files : List PackFile) : Except PackPathError (List ZipEntry) :=
  ((Quicksort.sort (fun a b => textLt a.path b.path) files).mergeSort before).mapM entry

/-! ### Bytes -/

/-- One bit of the check sum. -/
def checkBit (x : UInt32) : UInt32 :=
  if x &&& 1 = 1 then (x >>> 1) ^^^ 0xEDB88320 else x >>> 1

/-- The check sum of bytes. -/
def checkSum (bytes : List UInt8) : UInt32 :=
  ~~~(bytes.foldl (fun x b => (List.range 8).foldl (fun x _ => checkBit x) (x ^^^ b.toUInt32))
    0xFFFFFFFF)

/-- Bytes in blocks that store them. -/
def storedBlocks : List (List UInt8) → List UInt8
  | [] => []
  | piece :: rest =>
    let last : UInt8 := if rest.isEmpty then 1 else 0
    last :: (bytesOf 2 piece.length ++ bytesOf 2 (65535 - piece.length) ++ piece ++
      storedBlocks rest)

/-- The content of an entry in an archive. -/
def stored (e : ZipEntry) : List UInt8 :=
  if e.deflated then storedBlocks (pieces 65535 (by decide) (Utf8.encode e.data)) else []

/-- The day of the time stamp: years since 1980, month and day. -/
def dayStamp : Nat := 20 * 512 + 1 * 32 + 1

/-- What the two headers of an entry share. -/
def commonHeader (e : ZipEntry) : List UInt8 :=
  bytesOf 2 20 ++ bytesOf 2 0x800 ++ bytesOf 2 (if e.deflated then 8 else 0) ++ bytesOf 2 0 ++
    bytesOf 2 dayStamp ++ bytesOf 4 (checkSum (Utf8.encode e.data)).toNat ++
    bytesOf 4 (stored e).length ++ bytesOf 4 (Utf8.encode e.data).length ++
    bytesOf 2 (Utf8.encode e.name).length ++ bytesOf 2 0

/-- An entry: its header, its name and its content. -/
def localPart (e : ZipEntry) : List UInt8 :=
  bytesOf 4 0x04034b50 ++ commonHeader e ++ Utf8.encode e.name ++ stored e

/-- An entry in the list at the end, given where it is. -/
def listPart (e : ZipEntry) (offset : Nat) : List UInt8 :=
  bytesOf 4 0x02014b50 ++ bytesOf 2 20 ++ commonHeader e ++ bytesOf 2 0 ++ bytesOf 2 0 ++
    bytesOf 2 0 ++ bytesOf 4 (if e.deflated then 0 else 16) ++ bytesOf 4 offset ++
    Utf8.encode e.name

/-- The list at the end, given where the first entry is. -/
def listParts : Nat → List ZipEntry → List UInt8
  | _, [] => []
  | offset, e :: es => listPart e offset ++ listParts (offset + (localPart e).length) es

/-- **The bytes of an archive.** -/
def bytes (es : List ZipEntry) : List UInt8 :=
  let body := es.flatMap localPart
  let list := listParts 0 es
  body ++ list ++ bytesOf 4 0x06054b50 ++ bytesOf 2 0 ++ bytesOf 2 0 ++ bytesOf 2 es.length ++
    bytesOf 2 es.length ++ bytesOf 4 list.length ++ bytesOf 4 body.length ++ bytesOf 2 0

end Zip

end Statuary
