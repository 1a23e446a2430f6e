import Statuary.Files.Content
import Statuary.Files.System
import Statuary.History.Storage

/-!
# The file of the index

The index is kept in a file, which is made together with its directory when it is first asked for.
A command starts with the index (`Statuary.IndexFile.start`), records exports in it
(`Statuary.IndexFile.record`) and finishes (`Statuary.IndexFile.finish`).

While a command works with an index that it made, **the whole index is in the log** beside the file
as well. So it is not lost if the file is replaced by something else in the meantime: the log is
left where it is, and whoever opens the file next finds the index in it. An index that was there
before has no such log, and is lost with its file.

Not every path is the name of a file (`Statuary.Location`), and a file can be of no use in many ways
(`Statuary.Storage`).
-/

namespace Statuary

/-- Why the file of the index cannot be used. -/
inductive IndexFileError where
  /-- There is no path. -/
  | noPath
  /-- Its directory cannot be made, or it cannot be written. -/
  | file (e : FileError)
  /-- Its path stands for no place. -/
  | location (e : LocationError)
  /-- It is of no use. -/
  | storage (e : StorageError)
  /-- The index refuses an export. -/
  | refused (e : IndexError)
  /-- An export cannot be recorded any more. -/
  | moved (id : String)
  deriving DecidableEq, Repr

/-- The text of an error. -/
def IndexFileError.message : IndexFileError → String
  | noPath => "empty db path"
  | file e => e.message
  | location e => e.message
  | storage e => e.message
  | refused e => e.message
  | moved id => "exportdb: record " ++ id ++ ": " ++ StorageError.moved.message

namespace IndexFile

variable {m : Type → Type} [Monad m]

/-! ### Names -/

/-- The most bytes of the name of an index. -/
def nameBytes : Nat := 480

/-- The name of the journal of a file. -/
def journalName (name : String) : String := name ++ "-journal"

/-- The name of the log of a file. -/
def logName (name : String) : String := name ++ "-wal"

/-- The name of the memory that programs share about a log. -/
def sharedName (name : String) : String := name ++ "-shm"

/-- The name of the lock of a file. -/
def lockName (name : String) : String := name ++ ".lock"

/-- Whether every name on the way to a file can be looked up. The way is the shortest one to each of
them, whatever is there. -/
def canReach (fs : FileSystem m Content) (rooted : Bool) (done : List String) :
    List String → m Bool
  | [] => return true
  | name :: names => do
    let done := Path.step rooted done name
    match ← fs.read (Path.build rooted done.reverse) with
    | .ok _ => canReach fs rooted done names
    | .error e =>
      if e.fault = .missing ∨ e.fault = .isDirectory then canReach fs rooted done names
      else return false

/-- The name of a file without detours, if it can be reached. -/
def resolve (fs : FileSystem m Content) (name : String) :
    m (Except LocationError String) := do
  let short := Path.clean name
  if short = "/" ∨ nameBytes < Utf8.size short then return .error .unreachable
  if ← canReach fs (Path.isRooted name) [] (Path.segments name) then return .ok short
  else return .error .unreachable

/-! ### What there is -/

/-- What there is under a name. -/
def peek (fs : FileSystem m Content) (name : String) : m Beside := do
  match ← fs.read name with
  | .ok c => return .file c.bytes.head?
  | .error e =>
    return if e.fault = .isDirectory then .directory
      else if e.fault = .nameTooLong then .tooLong
      else .nothing

/-- What there is beside a file. -/
def surroundings (fs : FileSystem m Content) (name : String) : m Surroundings := do
  return {
    journal := ← peek fs (journalName name)
    log := ← peek fs (logName name)
    shared := ← peek fs (sharedName name)
    lock := ← peek fs (lockName name) }

/-- The index under a name. -/
def image? (fs : FileSystem m Content) (name : String) : m (Option IndexImage) := do
  match ← fs.read name with
  | .ok (.index im) => return some im
  | _ => return none

/-- A content of at most one byte. -/
def isFresh : Content → Bool
  | .text s => Utf8.size s ≤ 1
  | _ => false

/-- Those of some names under which there is something. -/
def existing (fs : FileSystem m Content) : List String → m (List String)
  | [] => return []
  | name :: names => do
    let more ← existing fs names
    return if (← fs.stamp name).isSome then name :: more else more

/-- The directories that the pragmas of a query name. -/
def directories (q : Query) : List String :=
  q.pragmas.filterMap fun text =>
    match Pragma.read (Pragma.scan text) with
    | .ok (p, _) => p.value?
    | .error _ => none

/-! ### Starting -/

/-- Opens a file; it is made if it is missing and may be made. -/
def openFile (fs : FileSystem m Content) (l : Location) (name : String) :
    m (Except LocationError Content) := do
  if let some other := l.options.lookup "modeof" then
    if (← fs.stamp other).isNone then return .error .unreadable
  match ← fs.read name with
  | .ok c => return .ok c
  | .error e =>
    if e.fault = .isDirectory ∧ l.access = .read then return .error .unreadable
    else if e.fault = .missing ∧ l.access = .create then
      match ← fs.write name (.text "") with
      | .ok _ => return .ok (.text "")
      | .error _ => return .error .unreachable
    else return .error .unreachable

/-- Takes away what was left beside a file by others: a use takes a change back, and the log and the
memory about it are its own. -/
def sweep (fs : FileSystem m Content) (name : String) (s : Storage) : m Unit := do
  if s.reach.isSealed then return
  if s.beside.journal.isFile then fs.remove (journalName name)
  if s.form.logged then
    if s.beside.log.isFile then fs.remove (logName name)
    if s.beside.shared.isFile && s.needsShared then fs.remove (sharedName name)

/-- Uses an opened file, and leaves in it what the use made of it. -/
def useFile (fs : FileSystem m Content) (l : Location) (name : String) (c : Content) :
    m (Except IndexFileError Index) := do
  let log? ← image? fs (logName name)
  if isFresh c ∧ log?.isSome then fs.remove (logName name)
  let found? := match c, isFresh c with
    | .index im, _ => some im
    | _, true => none
    | _, false => log?
  let s : Storage := {
    reach := l.reach
    beside := ← surroundings fs name
    base := match found? with
      | some im => .index im.form
      | none => if isFresh c then .fresh else .foreign
    index := (found?.map (·.index)).getD {}
    known := ← existing fs (directories l.query) }
  let (result, after) := s.run l.query
  let image : IndexImage := ⟨after.form, after.index⟩
  if after.base ≠ s.base ∨ (found?.isSome ∧ c ≠ .index image) then
    discard (fs.write name (.index image))
  match result with
  | .error e => return .error (.storage e)
  | .ok _ =>
    sweep fs name after
    if after.form.logged ∧ (!s.form.complete ∨ (log?.isSome ∧ found? = log?)) then
      discard (fs.write (logName name) (.index image))
    return .ok after.index

/-- Starts with the index at a location. -/
def startAt (fs : FileSystem m Content) (l : Location) : m (Except IndexFileError Index) := do
  match l.file? with
  | none =>
    let (result, after) := Storage.run { reach := l.reach } l.query
    return (result.map fun _ => after.index).mapError .storage
  | some given =>
    match ← resolve fs given with
    | .error e => return .error (.location e)
    | .ok name =>
      match ← openFile fs l name with
      | .error e => return .error (.location e)
      | .ok c => useFile fs l name c

/-- **Starts with the index** of a path. -/
def start (fs : FileSystem m Content) (path : String) : m (Except IndexFileError Index) := do
  if path = "" then return .error .noPath
  match ← fs.makeDirs (Path.parent path) with
  | .error e => return .error (.file e)
  | .ok _ =>
    match Location.ofPath path with
    | .error e => return .error (.location e)
    | .ok l => startAt fs l

/-! ### Recording and finishing -/

/-- Puts an index under a name where there is one. -/
def keep (fs : FileSystem m Content) (name : String) (im : IndexImage) :
    m (Except FileError Unit) := do
  if (← image? fs name).isSome then fs.write name (.index im) else return .ok ()

/-- Records an export in the index of a file, or in the log if the file is something else now. An
index that was in neither is gone, which is noticed only where there is no log. -/
def recordIn (fs : FileSystem m Content) (now : Instant) (l : Location) (name : String)
    (canceled : Bool) (e : HistoryEntry (Option Instant)) : m (Except IndexFileError Unit) := do
  let inFile? ← image? fs name
  let inLog? ← image? fs (logName name)
  let im := (inFile?.orElse fun _ => inLog?).getD {}
  match im.index.record canceled now e with
  | .error refusal => return .error (.refused refusal)
  | .ok index =>
    if inFile?.isNone ∧ (l.reach.unlocked ∨ !l.reach.sharing) then return .error (.moved e.id)
    match ← keep fs (logName name) { im with index } with
    | .error fault => return .error (.file fault)
    | .ok _ => return (← keep fs name { im with index }).mapError .file

/-- **Recording an export** in the index of a path. -/
def record (fs : FileSystem m Content) (now : Instant) (path : String) (canceled : Bool)
    (e : HistoryEntry (Option Instant)) : m (Except IndexFileError Unit) := do
  match Location.ofPath path with
  | .error fault => return .error (.location fault)
  | .ok l =>
    match l.file? with
    | some name => recordIn fs now l (Path.clean name) canceled e
    | none => return ((({} : Index).record canceled now e).map fun _ => ()).mapError .refused

/-- The file of a path, if it stands for one. -/
def file? (path : String) : Option String :=
  match Location.ofPath path with
  | .ok l => l.file?.map Path.clean
  | .error _ => none

/-- **Finishes with the index** of a path: a log is not needed beside a file that has it all. -/
def finish (fs : FileSystem m Content) (path : String) : m Unit := do
  if let some name := file? path then
    if (← image? fs name).isSome ∧ (← image? fs (logName name)).isSome then
      fs.remove (logName name)

/-- **The index of a path.** -/
def load (fs : FileSystem m Content) (path : String) : m (Except IndexFileError Index) := do
  let result ← start fs path
  if let .ok _ := result then finish fs path
  return result

end IndexFile

end Statuary
