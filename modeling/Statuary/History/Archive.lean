import Statuary.Files.Path
import Statuary.Json.Fields
import Statuary.Json.Writer

/-!
# Archived exports

The source text of every export is kept under the name of its project and its id, behind one line
that says which export it is (`Statuary.Archive.envelope`). That line is a JSON object, and since a
line feed in a JSON text is always escaped, **the first line feed is the end of the header**,
whatever the text behind it holds; `Statuary.Archive.openEnvelope` takes the two apart again.
-/

namespace Statuary

/-- The first line of an archived export. -/
structure ArchiveHeader where
  /-- The version of the format. -/
  version : Int
  /-- The id of the export. -/
  id : String
  /-- The project of the export. -/
  project : String
  /-- When it was archived, as a text. -/
  createdAt : String
  deriving DecidableEq, Repr

/-- Why an archived text cannot be taken apart. -/
inductive EnvelopeError where
  /-- There is no first line. -/
  | noHeader
  /-- The first line is no header. -/
  | badHeader
  /-- The format is of another version. -/
  | version (n : Int)
  deriving DecidableEq, Repr

/-- The text of an error. -/
def EnvelopeError.message : EnvelopeError → String
  | noHeader => "archive header: EOF"
  | badHeader => "archive header: malformed"
  | version n => "archive: unsupported version " ++ Json.ofInt n

namespace Archive

/-- The version of the format. -/
def version : Int := 1

/-- Where an export is kept below a directory. -/
def path (dir id project : String) : String :=
  Path.join [dir, project, id ++ ".mc.zst"]

/-- The JSON text of a header. -/
def headerJson (h : ArchiveHeader) : String :=
  Json.ofMembers [("version", Json.ofInt h.version), ("id", Json.ofText h.id),
    ("project", Json.ofText h.project), ("created_at", Json.ofText h.createdAt)]

/-- **A text behind its header.** -/
def envelope (h : ArchiveHeader) (text : String) : String :=
  headerJson h ++ "\n" ++ text

/-- The header in a line. -/
def readHeader (line : String) : Option ArchiveHeader := do
  let ms ← (← Json.readMessage? line).message?
  return {
    version := ← Json.intField? "version" ms
    id := ← Json.textField? "id" ms
    project := ← Json.textField? "project" ms
    createdAt := ← Json.textField? "created_at" ms }

/-- **The header and the text behind it.** -/
def openEnvelope (s : String) : Except EnvelopeError (ArchiveHeader × String) :=
  match s.toList.span (· ≠ '\n') with
  | (_, []) => .error .noHeader
  | (line, _ :: rest) =>
    match readHeader (String.ofList line) with
    | none => .error .badHeader
    | some h =>
      if h.version = version then .ok (h, String.ofList rest) else .error (.version h.version)

end Archive

end Statuary
