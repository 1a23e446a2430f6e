import Statuary.History.Ledger
import Statuary.History.Locator
import Statuary.History.Statement

/-!
# How the file of an index behaves

The file of an index has a **form**: whether its tables are there, and whether changes are written
into a log beside the file first. An index that is opened is brought into the form with both, unless
the way it is reached forbids the log. What stands beside the file under the names that belong to it
can be in the way: a journal for changes without the log, the log, the memory that programs share
about the log, and a lock.

The point is that these are noticed **when they are needed and not before**
(`Statuary.Storage.look`, `Statuary.Storage.change`), and that a use that fails leaves what was done
before it. So a use is a sequence of steps on a state (`Statuary.Storage`), each of which may end it
with an error, and `Statuary.Storage.use` is the sequence of opening an index: its pragmas, the
log, the tables.
-/

namespace Statuary

/-- What the file of an index holds. -/
inductive Base where
  /-- Nothing yet. -/
  | fresh
  /-- An index of a form. -/
  | index (form : IndexForm)
  /-- Something else. -/
  | foreign
  deriving DecidableEq, Repr

/-- What there is under a name. -/
inductive Beside where
  /-- Nothing. -/
  | nothing
  /-- A file, and its first byte, if it has one. -/
  | file (first? : Option UInt8)
  /-- A directory. -/
  | directory
  /-- The name is too long for anything to be there. -/
  | tooLong
  deriving DecidableEq, Repr

/-- A file. -/
def Beside.isFile : Beside → Bool
  | file _ => true
  | _ => false

/-- A file with something in it. -/
def Beside.isFilled : Beside → Bool
  | file first? => first?.isSome
  | _ => false

/-- What there is beside the file of an index. -/
structure Surroundings where
  /-- The journal of a change without the log. -/
  journal : Beside := .nothing
  /-- The log. -/
  log : Beside := .nothing
  /-- The memory that programs share about the log. -/
  shared : Beside := .nothing
  /-- The lock of those who reach the file by names. -/
  lock : Beside := .nothing
  deriving DecidableEq, Repr

/-- Why the file of an index is of no use. -/
inductive StorageError where
  /-- It, or something beside it, cannot be opened. -/
  | unopened
  /-- It, or something beside it, cannot be read; the number tells what was tried. -/
  | unreadable (code : Nat)
  /-- It may not be written; the number tells why. -/
  | readOnly (code : Nat)
  /-- It may not grow any more. -/
  | full
  /-- Someone else has locked it. -/
  | locked
  /-- It is something else. -/
  | foreign
  /-- A statement is wrong. -/
  | statement (e : StatementError)
  /-- The key of a row is taken. -/
  | taken
  /-- Its path asks for something that is not known. -/
  | location (e : LocationError)
  deriving DecidableEq, Repr

/-- The text of an error. -/
def StorageError.message : StorageError → String
  | unopened => "unable to open database file (14)"
  | unreadable code => "disk I/O error (" ++ toString code ++ ")"
  | readOnly code => "attempt to write a readonly database (" ++ toString code ++ ")"
  | full => "database or disk is full (13)"
  | locked => "database is locked (5) (SQLITE_BUSY)"
  | foreign => "file is not a database (26)"
  | statement e => e.message
  | taken => "constraint failed: UNIQUE constraint failed: exports.id (1555)"
  | location e => e.message

namespace StorageError

/-- Writing is forbidden from the start. -/
def forbidden : StorageError := readOnly 8

/-- A change that was broken off cannot be taken back. -/
def unfinished : StorageError := readOnly 776

/-- The file is not where it was any more. -/
def moved : StorageError := readOnly 1032

/-- A journal cannot be read. -/
def journalUnread : StorageError := unreadable 266

/-- A log cannot be removed. -/
def logKept : StorageError := unreadable 2570

/-- A lock cannot be made. -/
def lockUnmade : StorageError := unreadable 3850

end StorageError

/-- How the file of an index is reached. -/
structure Reach where
  /-- There is a file at all. -/
  onDisk : Bool := false
  /-- Nobody changes the file. -/
  isSealed : Bool := false
  /-- The file may not be written. -/
  readOnly : Bool := false
  /-- Nobody is asked for a lock. -/
  unlocked : Bool := false
  /-- A lock is a directory beside the file. -/
  lockedByName : Bool := false
  /-- Programs can share memory. -/
  sharing : Bool := false
  /-- The memory that they share is a file. -/
  sharingByFile : Bool := false
  /-- That file may not be written. -/
  sharedReadOnly : Bool := false
  deriving DecidableEq, Repr

/-- How the file at a location is reached. -/
def Location.reach (l : Location) : Reach :=
  let onDisk := l.file?.isSome
  let usual := l.system = "" || l.system = "unix"
  { onDisk
    isSealed := onDisk && l.isSealed
    readOnly := l.access = .read || onDisk && l.isSealed
    unlocked := l.allows "nolock"
    lockedByName := l.system = "unix-dotfile"
    sharing := usual || l.system = "unix-excl"
    sharingByFile := usual
    sharedReadOnly := l.allows "readonly_shm" }

/-- The file of an index in use. -/
structure Storage where
  /-- How it is reached. -/
  reach : Reach
  /-- What is beside it. -/
  beside : Surroundings := {}
  /-- What it holds. -/
  base : Base := .fresh
  /-- The index in it. -/
  index : Index := {}
  /-- What it held before the transaction, if there is one. -/
  saved? : Option (Base × Index) := none
  /-- The points in the transaction, the last one first, and what it held at them. -/
  points : List (String × Base × Index) := []
  /-- The transaction began with a point. -/
  beganAtPoint : Bool := false
  /-- The directories and files that pragmas may name. -/
  known : List String := []
  /-- Only questions are allowed. -/
  queryOnly : Bool := false
  /-- Nobody else uses the file. -/
  exclusive : Bool := false
  /-- Changes without the log need a journal beside the file. -/
  journaled : Bool := true
  /-- The most pages of the file, if there is a limit. -/
  pageLimit : Option Nat := none
  deriving DecidableEq

namespace Storage

/-- A step of a use. What it did to the state stays, also if it ends with an error. -/
abbrev Step := ExceptT StorageError (StateM Storage)

/-- The number of pages of an index without exports: one for the list of tables, and one for each
table and each way to look into it. -/
def emptyPages : Nat := 6

/-- The log can be used. -/
def canLog (s : Storage) : Bool :=
  s.reach.onDisk && !s.reach.isSealed && !s.reach.unlocked && (s.reach.sharing || s.exclusive)

/-- The memory that programs share is needed as a file. -/
def needsShared (s : Storage) : Bool :=
  s.reach.sharingByFile && !s.exclusive

/-- The form of the file. -/
def form (s : Storage) : IndexForm :=
  match s.base with
  | .index form => form
  | _ => ⟨false, false⟩

/-- Takes the lock, if it is a directory beside the file. -/
def takeLock : Step Unit := do
  let s ← get
  if s.reach.lockedByName && !s.reach.unlocked then
    match s.beside.lock with
    | .nothing => return
    | .tooLong => throw .lockUnmade
    | _ => throw .locked

/-- Opens the log of a file that has one, and the memory that belongs to it. -/
def openLog : Step Unit := do
  let s ← get
  if !s.canLog || s.beside.log = .tooLong then throw .unopened
  if s.needsShared && s.reach.sharedReadOnly && s.beside.shared = .nothing then throw .unopened

/-- What is beside a file that holds something: a change that was broken off is taken back first. -/
def lookBeside : Step Unit := do
  let s ← get
  match s.beside.journal with
  | .directory => throw .journalUnread
  | .file (some first) => if first ≠ 0 && s.reach.readOnly then throw .unfinished
  | _ => pure ()
  if s.beside.log = .directory || s.beside.log.isFilled && !s.canLog then throw .unopened

/-- **Looking into the file.** -/
def look : Step Unit := do
  let s ← get
  if s.reach.onDisk && !s.reach.isSealed then
    takeLock
    if s.base = .fresh then
      if s.beside.log = .directory then throw .logKept
    else lookBeside
  if s.base = .foreign then throw .foreign
  if s.form.logged && !s.reach.isSealed then openLog

/-- Makes the journal of a change. -/
def makeJournal : Step Unit := do
  let s ← get
  if s.reach.onDisk && s.journaled then
    if s.beside.journal = .directory || s.beside.journal = .tooLong then throw .unopened

/-- Whether changes are allowed at all. -/
def permit : Step Unit := do
  let s ← get
  if s.reach.readOnly || s.queryOnly then throw .forbidden

/-- Begins a change of a file that was looked into. -/
def begin : Step Unit := do
  permit
  let s ← get
  if s.form.logged && s.needsShared &&
      (s.reach.sharedReadOnly || s.beside.shared = .directory) then throw .forbidden

/-- **A change of the file**, after which it has a form. -/
def change (form : IndexForm) : Step Unit := do
  begin
  if !(← get).form.logged then makeJournal
  modify fun s => { s with base := .index form }

/-- **Turns to the log**, if it can be used. -/
def enterLog : Step Unit := do
  look
  let s ← get
  if s.canLog && !s.form.logged then
    if s.saved?.isSome then throw (.statement (.logInside "into"))
    if s.reach.readOnly then throw .forbidden
    makeJournal
    set { s with base := .index { s.form with logged := true } }

/-- Turns away from the log, to changes that do or do not need a journal. -/
def leaveLog (journaled : Bool) : Step Unit := do
  look
  let s ← get
  if s.canLog && s.form.logged && s.saved?.isSome then throw (.statement (.logInside "out of"))
  set { s with journaled }
  if s.canLog && s.form.logged then
    if s.reach.readOnly then throw .forbidden
    makeJournal
    modify fun s => { s with base := .index { s.form with logged := false } }

/-- **Makes the tables**, and notes that they are there. -/
def makeTables : Step Unit := do
  look
  let s ← get
  if s.form.complete then begin
  else
    change { s.form with complete := false }
    if s.pageLimit.any (· < emptyPages) then throw .full
    modify fun s => { s with base := .index { s.form with complete := true } }

/-! ### Pragmas -/

/-- The pragmas for which the tables have to be known. -/
def lookingPragmas : List String :=
  ["auto_vacuum", "cache_size", "default_cache_size", "foreign_key_check", "foreign_key_list",
    "incremental_vacuum", "index_info", "index_list", "index_xinfo", "integrity_check",
    "journal_mode", "max_page_count", "optimize", "page_count", "quick_check", "synchronous",
    "table_info", "table_list", "table_xinfo", "wal_checkpoint"]

/-- The pragmas about a number in the file. -/
def headerPragmas : List String :=
  ["application_id", "data_version", "freelist_count", "schema_version", "user_version"]

/-- Those of them that set it. -/
def settablePragmas : List String :=
  ["application_id", "schema_version", "user_version"]

/-- The ways to write texts. -/
def encodings : List String :=
  ["utf8", "utf-8", "utf-16le", "utf-16be", "utf16le", "utf16be", "utf-16", "utf16"]

/-- The names of the ways to keep a journal. -/
def journalModes : List String :=
  ["delete", "persist", "off", "truncate", "memory", "wal"]

/-- The number in a text that holds nothing else but blanks. -/
def wholeNumber? (s : String) : Option Nat :=
  let cs := (((s.toList.dropWhile Pragma.isGap).reverse).dropWhile Pragma.isGap).reverse
  match (if cs.head? = some '+' then cs.drop 1 else cs) with
  | '0' :: x :: d :: cs =>
    if x.toLower = 'x' then digits? 16 (d :: cs) else digits? 10 ('0' :: x :: d :: cs)
  | cs => digits? 10 cs
where
  /-- The number that digits spell. -/
  digits? (base : Nat) (cs : List Char) : Option Nat :=
    (cs.mapM fun c => (Json.hexValue? c).filter (· < base)).bind fun ds =>
      if ds.isEmpty then none else some (ds.foldl (fun n d => base * n + d) 0)

/-- A table is there. -/
def hasTable (s : Storage) (t : TableName) : Bool :=
  let name := t.name.toLower
  t.part?.all (·.toLower = "main") &&
    (["sqlite_master", "sqlite_schema"].contains name ||
      s.form.complete && ["exports", "meta"].contains name)

/-- A table has to be there. -/
def needTable (t : TableName) : Step Unit := do
  look
  if !(← get).hasTable t then throw (.statement (.noTable t.text))

/-- Sets the number of pages that the file may have. -/
def limitPages (value : String) : Step Unit := do
  let s ← get
  let now := if s.form.complete then emptyPages else if s.base = .fresh then 0 else 1
  match wholeNumber? value with
  | some (n + 1) => set { s with pageLimit := some (max now (n + 1)) }
  | _ => return

/-- A check of the file, or of one table. -/
def check (p : Pragma) (value : String) : Step Unit := do
  let isCount := match value.toList with
    | '-' :: c :: _ => c.isDigit
    | c :: _ => c.isDigit
    | [] => false
  if !isCount then needTable ⟨p.part?, value⟩

/-- Carries out a pragma with a value. -/
def setValue (p : Pragma) (value : String) : Step Unit :=
  let main := p.part? ≠ some "temp"
  match p.name with
  | "query_only" => modify fun s => { s with queryOnly := isTrue value }
  | "temp_store_directory" => do
    if value ≠ "" && !(← get).known.contains value then throw (.statement .noDirectory)
  | "encoding" => do
    if !encodings.contains value.toLower then throw (.statement (.unknownEncoding value))
  | "synchronous" => do
    if (← get).saved?.isSome then throw (.statement .careInside)
  | "integrity_check" => check p value
  | "quick_check" => check p value
  | "max_page_count" => if main then limitPages value else pure ()
  | "locking_mode" => do
    if main && ["exclusive", "normal"].contains value.toLower then
      modify fun s => { s with exclusive := value.toLower = "exclusive" }
  | "journal_mode" => do
    if main then
      match journalModes.find? (startsWith value.toLower) with
      | none => return
      | some "wal" => enterLog
      | some mode => leaveLog (mode ≠ "off" && mode ≠ "memory")
  | name => do
    if main && settablePragmas.contains name then
      permit
      look
      change (← get).form

/-- **Carries out a pragma.** A name that means nothing does nothing. -/
def carryOut (p : Pragma) : Step Unit := do
  if lookingPragmas.contains p.name then look
  match p.value? with
  | some value => setValue p value
  | none => if headerPragmas.contains p.name && p.part? ≠ some "temp" then look

/-! ### Statements -/

/-- Begins a transaction. -/
def beginTransaction (writing : Bool) : Step Unit := do
  if (← get).saved?.isSome then throw (.statement .nested)
  if writing then
    permit
    look
  modify fun s => { s with saved? := some (s.base, s.index), beganAtPoint := false }

/-- Takes back what was done since the beginning of a transaction, if there is one. -/
def takeBack (s : Storage) : Storage :=
  match s.saved? with
  | some (base, index) => { s with base, index, saved? := none, points := [] }
  | none => s

/-- Keeps what was done since the beginning of a transaction. -/
def keep (s : Storage) : Storage := { s with saved? := none, points := [] }

/-- Sets a point. -/
def setPoint (name : String) : Step Unit :=
  modify fun s =>
    let now := (s.base, s.index)
    { s with
      saved? := s.saved? <|> some now
      beganAtPoint := if s.saved?.isSome then s.beganAtPoint else true
      points := (name, now) :: s.points }

/-- The points from one of a name on. -/
def findPoint (name : String) : Step (List (String × Base × Index)) := do
  match (← get).points.dropWhile (·.1.toLower ≠ name.toLower) with
  | [] => throw (.statement (.noPoint name))
  | points => return points

/-- Ends what a point began, which may be the transaction. -/
def releasePoint (name : String) : Step Unit := do
  let outer := (← findPoint name).tail
  modify fun s => if outer.isEmpty && s.beganAtPoint then s.keep else { s with points := outer }

/-- Goes back to a point. -/
def goBack (name : String) : Step Unit := do
  let points ← findPoint name
  if let (_, base, index) :: _ := points then modify fun s => { s with base, index, points }

/-- Ends a transaction. -/
def endTransaction (action : String) (finish : Storage → Storage) : Step Unit := do
  if (← get).saved?.isNone then throw (.statement (.noTransaction action))
  modify finish

/-- Changes the table of exports. -/
def changeExports (t : TableName) (f : Storage → Storage) : Step Unit := do
  needTable t
  change (← get).form
  if t.name.toLower = "exports" then modify f

/-- Adds a row to the table of exports. -/
def addRow (conflict : Conflict) (ix : Index) (r : HistoryEntry String) : Step Index :=
  if (ix.rows.lookup r.id).isNone ∨ conflict = .replace then
    return ⟨Assoc.put r.id r ix.rows⟩
  else if conflict = .ignore then return ix
  else throw .taken

/-- Adds rows to a table. -/
def addRows (conflict : Conflict) (t : TableName) (rows : List (List Literal)) : Step Unit := do
  needTable t
  if t.name.toLower = "exports" then
    if let some row := rows.find? (·.length ≠ IndexStatement.columns.length) then
      throw (.statement (.valueCount t.name IndexStatement.columns.length row.length))
    change (← get).form
    if let some rs := rows.mapM IndexStatement.row? then
      let ix ← rs.foldlM (addRow conflict) (← get).index
      modify fun s => { s with index := ix }

/-- **Carries out a statement.** -/
def perform : IndexStatement → Step Unit
  | .pragma p => carryOut p
  | .begin writing => beginTransaction writing
  | .commit => endTransaction "commit" keep
  | .rollback => endTransaction "rollback" takeBack
  | .mark point => setPoint point
  | .release point => releasePoint point
  | .back point => goBack point
  | .tidy => do
    look
    if (← get).saved?.isSome then throw (.statement .tidyInside)
  | .drop t maybe => do
    look
    if !maybe || (← get).hasTable t then
      changeExports t fun s =>
        { s with index := {}, base := .index { s.form with complete := false } }
  | .clear t => changeExports t fun s => { s with index := {} }
  | .insert conflict t rows => addRows conflict t rows
  | .update t column (.text value) =>
    changeExports t fun s => { s with index := ⟨s.index.rows.map fun (id, r) =>
      (id, IndexStatement.setColumn column value r)⟩ }
  | .update t _ _ => needTable t
  | .ask t => needTable t
  | .other => return

/-- Carries out one statement after another, at most a given number. -/
def performAll : Nat → List Pragma.Token → Step Unit
  | 0, _ => return
  | fuel + 1, ts =>
    match ts.dropWhile (·.kind = .semicolon) with
    | [] => return
    | ts => do
      let (statement, ts) ← ExceptT.mk (pure ((IndexStatement.read ts).mapError .statement))
      perform statement
      performAll fuel ts

/-- Carries out the statements in a text whose first word is left out. -/
def obey (text : String) : Step Unit :=
  let ts := Pragma.scan ("pragma " ++ text)
  performAll ts.length ts

/-- **Opening an index.** -/
def use (query : Query) : Step Unit := do
  query.pragmas.forM obey
  if let .error e := query.check then throw (.location e)
  enterLog
  if (← get).saved?.isSome then throw (.statement .careInside)
  makeTables

/-- Whether an index can be opened, and what is left of the file. A transaction that did not end is
taken back. -/
def run (s : Storage) (query : Query) : Except StorageError Unit × Storage :=
  let (result, s) := (use query).run s
  (result, s.takeBack)

end Storage

end Statuary
