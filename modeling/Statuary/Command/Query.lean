import Statuary.Command.Flags
import Statuary.Command.World
import Statuary.History.IndexFile
import Statuary.History.Restore

/-!
# The history command

The history is asked in three ways: for a list of exports, for the latest export of a project, and
for the text of an export. A list is asked for without a word, the others by the first argument.

What is missing in a question is said **before the index is opened**, and an index that is asked for
is made if it is missing.
-/

namespace Statuary

/-- A question to the history. -/
inductive HistoryQuery where
  /-- The exports of a project, or of all for a blank one, at most so many. -/
  | list (db project : String) (limit : Int)
  /-- The latest export of a project. -/
  | latest (db project : String)
  /-- The text of an export, into a file if one is named. -/
  | text (db id out : String)
  deriving DecidableEq, Repr

/-- Why a question is not answered. -/
inductive QueryError where
  /-- There is no project. -/
  | noProject
  /-- There is no id. -/
  | noId
  /-- There is no index. -/
  | noDb
  /-- The index cannot be opened. -/
  | unopened (e : IndexFileError)
  /-- The index gives no answer. -/
  | query (e : IndexError)
  /-- A project has no exports. -/
  | noExports (project : String)
  /-- An export cannot be restored. -/
  | restore (e : RestoreError)
  /-- A text cannot be written into its file. -/
  | write (e : FileError)
  deriving DecidableEq, Repr

namespace QueryError

/-- The text of an error. -/
def message : QueryError → String
  | noProject => "missing -project"
  | noId => "missing -id"
  | noDb => "missing -db"
  | unopened e => "open: " ++ e.message
  | query e => "query: " ++ e.message
  | noExports project => "no exports for " ++ project
  | restore e => e.message
  | write e => "write: " ++ e.message

/-- How a command ends with an error. -/
def exit : QueryError → Exit
  | noProject => .misuse
  | noId => .misuse
  | noDb => .misuse
  | noExports _ => .misuse
  | restore (.unknown _) => .misuse
  | restore (.notArchived _) => .misuse
  | _ => .failure

end QueryError

namespace HistoryQuery

/-! ### Arguments -/

/-- The flag of the file of the index. -/
def dbFlag : FlagSpec :=
  ⟨"db", .text "./data/exports.sqlite",
    "sqlite export history path (default \"./data/exports.sqlite\")"⟩

/-- The flags of a list. -/
def listFlags : List FlagSpec :=
  [dbFlag, ⟨"project", .text "", "project filter (optional)"⟩,
    ⟨"limit", .number 20, "result limit (default 20)"⟩]

/-- The flags of the latest export. -/
def latestFlags : List FlagSpec :=
  [dbFlag, ⟨"project", .text "", "project (required)"⟩]

/-- The flags of a text. -/
def textFlags : List FlagSpec :=
  [dbFlag, ⟨"id", .text "", "export id (required)"⟩,
    ⟨"out", .text "", "write the program here instead of stdout (optional)"⟩]

/-- A question whose flags cannot be read, with its name and its flags. -/
structure BadFlags where
  /-- The word that asks for it. -/
  command : String
  /-- Its flags. -/
  flags : List FlagSpec
  /-- What is wrong. -/
  error : FlagError
  deriving DecidableEq, Repr

/-- A list from its arguments. -/
def listOf (args : List String) : Except BadFlags HistoryQuery :=
  ((Flags.read listFlags args).map fun vs =>
    list (vs.text "db") (vs.text "project") (vs.number "limit")).mapError (⟨"list", listFlags, ·⟩)

/-- **The question in arguments.** -/
def ofArgs : List String → Except BadFlags HistoryQuery
  | "latest" :: args =>
    ((Flags.read latestFlags args).map fun vs =>
      latest (vs.text "db") (vs.text "project")).mapError (⟨"latest", latestFlags, ·⟩)
  | "show" :: args =>
    ((Flags.read textFlags args).map fun vs =>
      text (vs.text "db") (vs.text "id") (vs.text "out")).mapError (⟨"show", textFlags, ·⟩)
  | "list" :: args => listOf args
  | args => listOf args

/-! ### Answers -/

variable {m : Type → Type} [Monad m]

/-- The line of an export; nothing if its distance cannot be written. -/
def rowLine (e : HistoryEntry Instant) : String :=
  match e.json? with
  | some line => line ++ "\n"
  | none => ""

/-- The index in a file that a question names. -/
def openIndex (fs : FileSystem m Content) (db : String) : m (Except QueryError Index) := do
  if isBlank db then return .error .noDb
  return (← IndexFile.load fs db).mapError .unopened

/-- The answer about the latest export of a project. -/
def latestIn (ix : Index) (canceled : Bool) (project : String) : Except QueryError String :=
  match ix.latest canceled (trim project) with
  | .ok e => .ok (rowLine e)
  | .error .noRows => .error (.noExports project)
  | .error e => .error (.query e)

/-- The answer about a text that was restored: the text, or a line about the file it went to. -/
def deliver (fs : FileSystem m Content) (out : String) (header : ArchiveHeader) (text : String) :
    m (Except QueryError String) := do
  if isBlank out then return .ok text
  match ← fs.write out (.text text) with
  | .error e => return .error (.write e)
  | .ok _ =>
    return .ok ("show ok: id=" ++ header.id ++ " project=" ++ header.project ++ " archived=" ++
      header.createdAt ++ " out=" ++ out ++ "\n")

/-- **The answer to a question.** -/
def answer (fs : FileSystem m Content) (canceled : Bool) :
    HistoryQuery → m (Except QueryError String)
  | list db project limit => do
    match ← openIndex fs db with
    | .error e => return .error e
    | .ok ix =>
      return ((ix.list canceled (trim project) limit).map fun es =>
        String.join (es.map rowLine)).mapError .query
  | latest db project => do
    if isBlank project then return .error .noProject
    match ← openIndex fs db with
    | .error e => return .error e
    | .ok ix => return latestIn ix canceled project
  | text db id out => do
    if isBlank id then return .error .noId
    match ← openIndex fs db with
    | .error e => return .error e
    | .ok ix =>
      match ← ix.restore fs canceled (trim id) with
      | .error e => return .error (.restore e)
      | .ok (header, restored) => deliver fs out header restored

/-- **The history command.** -/
def run (w : World m) (args : List String) : m Exit := do
  match ofArgs args with
  | .error bad =>
    w.complain (bad.error.report bad.command bad.flags)
    return if bad.error = .help then .success else .misuse
  | .ok q =>
    match ← q.answer w.files false with
    | .ok s =>
      w.print s
      return .success
    | .error e =>
      w.complain (e.message ++ "\n")
      return e.exit

end HistoryQuery

end Statuary
