import Statuary.Files.Content
import Statuary.Files.System
import Statuary.History.Archive
import Statuary.Text.Blank

/-!
# The store of archived exports

An archived text is put into the file that its project and id name, compressed
(`Statuary.Store.put`), and taken out again by its path (`Statuary.Store.get`).
-/

namespace Statuary

/-- Why the store fails. -/
inductive StoreError where
  /-- There is no directory for archives. -/
  | emptyDir
  /-- An export has no id or no project. -/
  | missingKey
  /-- A file cannot be opened or written. -/
  | file (e : FileError)
  /-- A file cannot be read. -/
  | unreadable (e : FileError)
  /-- A file is not compressed. -/
  | notPacked
  /-- A text cannot be taken apart. -/
  | envelope (e : EnvelopeError)
  deriving DecidableEq, Repr

/-- The text of an error. -/
def StoreError.message : StoreError → String
  | emptyDir => "archive: empty dir"
  | missingKey => "archive: missing id or project"
  | file e => e.message
  | unreadable e => "archive header: " ++ e.message
  | notPacked => "archive header: invalid input: magic number mismatch"
  | envelope e => e.message

namespace Store

variable {m : Type → Type} [Monad m]

/-- **Putting a text into the store** below a directory; the result is its path. -/
def put (fs : FileSystem m Content) (now : Instant) (dir id project text : String) :
    m (Except StoreError String) := do
  if isBlank dir then return .error .emptyDir
  if id = "" ∨ project = "" then return .error .missingKey
  let path := Archive.path dir id project
  let header : ArchiveHeader := ⟨Archive.version, id, project, now.text⟩
  match ← fs.replace path (.packed (Archive.envelope header text)) with
  | .error e => return .error (.file e)
  | .ok _ => return .ok path

/-- The error of reading a file. -/
def readError (e : FileError) : StoreError :=
  if e.action = .readFile then .unreadable e else .file e

/-- The header and the text of a content. -/
def openContent : Content → Except StoreError (ArchiveHeader × String)
  | .packed s => (Archive.openEnvelope s).mapError .envelope
  | _ => .error .notPacked

/-- **Taking a text out of the store**, with its header. -/
def get (fs : FileSystem m Content) (path : String) :
    m (Except StoreError (ArchiveHeader × String)) := do
  match ← fs.read path with
  | .error e => return .error (readError e)
  | .ok c => return openContent c

end Store

end Statuary
