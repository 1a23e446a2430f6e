import Statuary.History.Index
import Statuary.History.Pragma

/-!
# Statements

More than one statement may stand in the place of a pragma, with semicolons between them, and not
all of them need be pragmas. Those that matter for an index are few: the beginning and the end of a
transaction and the points in it, and what changes the tables as a whole or adds rows to them. They
are read in their plain forms (`Statuary.IndexStatement.read`); every other statement is looked at
only so far as to see that it begins like one (`Statuary.IndexStatement.fault?`), and is taken for
one that changes nothing here.
-/

namespace Statuary

/-- The name of a table. -/
structure TableName where
  /-- The part of the index that it is in, if that is said. -/
  part? : Option String
  /-- The name. -/
  name : String
  deriving DecidableEq, Repr

/-- The text of a name. -/
def TableName.text (t : TableName) : String :=
  match t.part? with
  | some part => part ++ "." ++ t.name
  | none => t.name

/-- A value that stands for itself. -/
inductive Literal where
  /-- A text. -/
  | text (s : String)
  /-- A number, by its digits. -/
  | number (digits : String)
  deriving DecidableEq, Repr

/-- What is done with a row whose key is taken. -/
inductive Conflict where
  /-- The statement fails. -/
  | refuse
  /-- The row that is there goes. -/
  | replace
  /-- The row that comes is left out. -/
  | ignore
  deriving DecidableEq, Repr

/-- A statement. -/
inductive IndexStatement where
  /-- A pragma. -/
  | pragma (p : Pragma)
  /-- The beginning of a transaction, which may be one to write. -/
  | begin (writing : Bool)
  /-- The end of a transaction. -/
  | commit
  /-- The end of a transaction that is taken back. -/
  | rollback
  /-- A point in a transaction, to which one may go back; it begins one if there is none. -/
  | mark (point : String)
  /-- The end of what a point began. -/
  | release (point : String)
  /-- Takes back what was done since a point. -/
  | back (point : String)
  /-- Tidies the file. -/
  | tidy
  /-- Removes a table; if it need not be there, a missing one is no error. -/
  | drop (table : TableName) (maybe : Bool)
  /-- Removes all rows of a table. -/
  | clear (table : TableName)
  /-- Adds rows to a table. -/
  | insert (conflict : Conflict) (table : TableName) (rows : List (List Literal))
  /-- Sets a column in all rows of a table. -/
  | update (table : TableName) (column : String) (value : Literal)
  /-- Asks for rows of a table. -/
  | ask (table : TableName)
  /-- Anything else. -/
  | other
  deriving DecidableEq, Repr

namespace IndexStatement

open Pragma (Token take readEnd failure)

/-- The token at the head is a word. -/
def isWord (word : String) : List Token → Bool
  | [] => false
  | t :: _ => t.text.toLower = word

/-- The tokens after some words, if they stand at the head. -/
def dropWords? : List String → List Token → Option (List Token)
  | [], ts => some ts
  | w :: ws, ts => if isWord w ts then dropWords? ws ts.tail else none

/-- The tokens after a word that has to stand at the head. -/
def dropWord (word : String) (ts : List Token) : Except StatementError (List Token) :=
  if isWord word ts then .ok ts.tail else .error (failure ts)

/-- The name of a table. -/
def readTable (ts : List Token) : Except StatementError (TableName × List Token) := do
  let (first, ts) ← take [.name, .text] ts
  match ts with
  | ⟨.point, _⟩ :: ts =>
    let (second, ts) ← take [.name, .text] ts
    return (⟨some first.value, second.value⟩, ts)
  | ts => return (⟨none, first.value⟩, ts)

/-- A value that stands for itself. -/
def readLiteral : List Token → Except StatementError (Literal × List Token)
  | ⟨.text, cs⟩ :: ts => .ok (.text (Token.value ⟨.text, cs⟩), ts)
  | ⟨.minus, _⟩ :: ts => (take [.number] ts).map fun (t, ts) => (.number ("-" ++ t.text), ts)
  | ts => (take [.number] ts).map fun (t, ts) => (.number t.text, ts)

/-- Values between brackets after the first, at most a given number. -/
def readLiterals : Nat → List Token → Except StatementError (List Literal × List Token)
  | 0, ts => .error (failure ts)
  | fuel + 1, ts => do
    let (v, ts) ← readLiteral ts
    match ts with
    | ⟨.closing, _⟩ :: ts => return ([v], ts)
    | ts =>
      let ts ← dropWord "," ts
      let (vs, ts) ← readLiterals fuel ts
      return (v :: vs, ts)

/-- Rows with commas between them, at most a given number. -/
def readRows : Nat → List Token → Except StatementError (List (List Literal) × List Token)
  | 0, ts => .error (failure ts)
  | fuel + 1, ts => do
    let ts ← dropWord "(" ts
    let (row, ts) ← readLiterals ts.length ts
    if isWord "," ts then
      let (rows, ts) ← readRows fuel ts.tail
      return (row :: rows, ts)
    else return ([row], ts)

/-- The word for a transaction and its name, both of which may be left out. -/
def dropTransaction (ts : List Token) : List Token :=
  match dropWords? ["transaction"] ts with
  | none => ts
  | some ts =>
    match take [.name, .text] ts with
    | .ok (_, rest) => rest
    | .error _ => ts

/-- The rest of a transaction statement. -/
def readTransaction (ts : List Token) : Except StatementError (List Token) :=
  readEnd (dropTransaction ts)

/-- The name of a point, before which the word for it may stand. -/
def readPoint (ts : List Token) : Except StatementError (String × List Token) := do
  let (name, ts) ← take [.name, .text] ((dropWords? ["savepoint"] ts).getD ts)
  return (name.value, ← readEnd ts)

/-- The end of a transaction that is taken back, or the way back to a point. -/
def readRollback (ts : List Token) : Except StatementError (IndexStatement × List Token) :=
  match dropWords? ["to"] (dropTransaction ts) with
  | some ts => (readPoint ts).map fun (point, ts) => (.back point, ts)
  | none => (readTransaction ts).map (.rollback, ·)

/-- The beginning of a transaction. -/
def readBegin (ts : List Token) : Except StatementError (IndexStatement × List Token) :=
  if isWord "deferred" ts then (readTransaction ts.tail).map (.begin false, ·)
  else if isWord "immediate" ts || isWord "exclusive" ts then
    (readTransaction ts.tail).map (.begin true, ·)
  else (readTransaction ts).map (.begin false, ·)

/-- The removal of a table. -/
def readDrop (ts : List Token) : Except StatementError (IndexStatement × List Token) := do
  let maybe := isWord "if" ts
  let ts ← if maybe then dropWord "exists" ts.tail else pure ts
  let (table, ts) ← readTable ts
  return (.drop table maybe, ← readEnd ts)

/-- New rows after the words that begin them. -/
def readInsert (conflict : Conflict) (ts : List Token) :
    Except StatementError (IndexStatement × List Token) := do
  let (table, ts) ← readTable ts
  let ts ← dropWord "values" ts
  let (rows, ts) ← readRows ts.length ts
  return (.insert conflict table rows, ← readEnd ts)

/-- A new value of a column. -/
def readUpdate (ts : List Token) : Except StatementError (IndexStatement × List Token) := do
  let (table, ts) ← readTable ts
  let ts ← dropWord "set" ts
  let (column, ts) ← take [.name, .text] ts
  let (_, ts) ← take [.equal] ts
  let (value, ts) ← readLiteral ts
  return (.update table column.value.toLower value, ← readEnd ts)

/-- A question: what matters is the table that it is about. -/
def readQuestion (ts : List Token) : Except StatementError (IndexStatement × List Token) := do
  let ts := (ts.takeWhile (·.kind ≠ .semicolon)).dropWhile (·.text.toLower ≠ "from")
  let (table, ts) ← readTable ts.tail
  if isWord "(" ts then throw (failure ts)
  return (.ask table, [])

/-- The words that begin statements which are not read here. -/
def otherWords : List String :=
  ["alter", "analyze", "attach", "create", "delete", "detach", "drop", "explain", "insert",
    "reindex", "replace", "select", "update", "vacuum", "values", "with"]

/-- The statements that are read in their plain forms only, after the words that begin them. -/
def plainForms :
    List (List String × (List Token → Except StatementError (IndexStatement × List Token))) :=
  [(["delete", "from"], fun ts => do
      let (table, ts) ← readTable ts
      return (.clear table, ← readEnd ts)),
    (["insert", "into"], readInsert .refuse),
    (["insert", "or", "replace", "into"], readInsert .replace),
    (["insert", "or", "ignore", "into"], readInsert .ignore),
    (["replace", "into"], readInsert .replace),
    (["update"], readUpdate),
    (["vacuum"], fun ts => return (.tidy, ← readEnd ts)),
    (["select"], readQuestion)]

/-- The statements that are whole after their first word. -/
def shortForms : List String := ["analyze", "reindex", "vacuum"]

/-- The words that may follow the first word of a statement, where they are few. -/
def secondWords : List (String × List String) :=
  [("alter", ["table"]),
    ("create", ["index", "table", "temp", "temporary", "trigger", "unique", "view", "virtual"]),
    ("delete", ["from"]), ("drop", ["index", "table", "trigger", "view"]),
    ("insert", ["into", "or"]), ("replace", ["into"])]

/-- What is wrong with a statement that is not read here, as far as its first two words and the
characters of its tokens show. -/
def fault? (ts : List Token) : Option StatementError :=
  let statement := ts.takeWhile (·.kind ≠ .semicolon)
  match statement, secondWords.find? fun (w, _) => isWord w ts with
  | [first], none =>
    if shortForms.contains first.text.toLower then none else some (failure ts.tail)
  | _, some (_, words) =>
    if words.any (isWord · ts.tail) then illegal? statement else some (failure ts.tail)
  | _, none => illegal? statement
where
  /-- The first token that is none. -/
  illegal? (statement : List Token) : Option StatementError :=
    (statement.find? (·.kind = .illegal)).map (.unrecognized ·.text)

/-- The statement of a plain form. -/
def readPlain? (ts : List Token) : Option (IndexStatement × List Token) :=
  plainForms.findSome? fun (words, read) =>
    (dropWords? words ts).bind fun ts => (read ts).toOption

/-- **Reading a statement**, and the tokens after its end. -/
def read (ts : List Token) : Except StatementError (IndexStatement × List Token) :=
  let rest := (ts.dropWhile (·.kind ≠ .semicolon)).tail
  if isWord "pragma" ts then (Pragma.read ts.tail).map fun (p, ts) => (.pragma p, ts)
  else if isWord "begin" ts then readBegin ts.tail
  else if isWord "commit" ts || isWord "end" ts then (readTransaction ts.tail).map (.commit, ·)
  else if isWord "rollback" ts then readRollback ts.tail
  else if isWord "savepoint" ts then
    (take [.name, .text] ts.tail).bind fun (name, ts) => (readEnd ts).map (.mark name.value, ·)
  else if isWord "release" ts then
    (readPoint ts.tail).map fun (point, ts) => (.release point, ts)
  else if otherWords.any (isWord · ts) then
    match dropWords? ["drop", "table"] ts, fault? ts, readPlain? ts with
    | some ts, _, _ => readDrop ts
    | none, some e, _ => .error e
    | none, none, some (.ask table, _) => .ok (.ask table, rest)
    | none, none, some result => .ok result
    | none, none, none => .ok (.other, rest)
  else .error (failure ts)

/-! ### Rows -/

/-- The columns of the table of exports. -/
def columns : List String :=
  ["id", "project", "mode", "output_path", "archive_path", "digest", "bones", "variants",
    "distance", "created_at"]

/-- The row of values, if each is of the kind of its column. -/
def row? : List Literal → Option (HistoryEntry String)
  | [.text id, .text project, .text mode, .text outputPath, .text archivePath, .text digest,
      .number bones, .number variants, .number distance, .text created] => do
    return {
      id, project, mode, outputPath, archivePath, digest, created
      bones := ← readSigned 64 bones.toList
      variants := ← readSigned 64 variants.toList
      distance := Index.storedDistance ((← Decimal.read distance.toList).toBinary .double) }
  | _ => none

/-- A row with another text in a column. -/
def setColumn (column value : String) (r : HistoryEntry String) : HistoryEntry String :=
  match column with
  | "project" => { r with project := value }
  | "mode" => { r with mode := value }
  | "output_path" => { r with outputPath := value }
  | "archive_path" => { r with archivePath := value }
  | "digest" => { r with digest := value }
  | "created_at" => { r with created := value }
  | _ => r

end IndexStatement

end Statuary
