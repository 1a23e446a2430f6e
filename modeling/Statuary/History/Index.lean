import Statuary.Assoc
import Statuary.History.Ulid
import Statuary.Json.Writer
import Statuary.Text.Search

/-!
# The index of exports

The index is a table of exports by their ids: recording an export under an id that is there replaces
it, whatever its project was (`Statuary.Index.record`). A listing has the newest ids first, of one
project or of all (`Statuary.Index.list`).

The time of an export is kept **as a text** and read again for every answer. An export that is
recorded without a time gets that of its id, or the current one. A text that cannot be read makes
every answer fail that has its row in it.
-/

namespace Statuary

/-- An export in the index, with its time in a form of type `τ`. -/
structure HistoryEntry (τ : Type) where
  /-- The id. -/
  id : String
  /-- The project. -/
  project : String
  /-- How it was exported. -/
  mode : String
  /-- Where the program went. -/
  outputPath : String
  /-- Where the archived text is; empty if there is none. -/
  archivePath : String
  /-- The digest of the source text. -/
  digest : String
  /-- The number of exported bones. -/
  bones : Int
  /-- The number of variants. -/
  variants : Int
  /-- The distance within which commands look for bones. -/
  distance : Double
  /-- The time. -/
  created : τ
  deriving DecidableEq

namespace HistoryEntry

/-- The same export with its time in another form. -/
def withTime {τ σ : Type} (e : HistoryEntry τ) (created : σ) : HistoryEntry σ :=
  { e with created }

/-- An export as one JSON object; nothing if its distance cannot be written. -/
def json? (e : HistoryEntry Instant) : Option String :=
  (Json.ofDouble? e.distance).map fun distance =>
    Json.ofMembers <|
      [("id", Json.ofText e.id), ("project", Json.ofText e.project), ("mode", Json.ofText e.mode),
        ("output_path", Json.ofText e.outputPath)] ++
      (if e.archivePath = "" then [] else [("archive_path", Json.ofText e.archivePath)]) ++
      [("digest", Json.ofText e.digest), ("bones", Json.ofInt e.bones),
        ("variants", Json.ofInt e.variants), ("distance", distance),
        ("created_at", Json.ofText e.created.shortText)]

end HistoryEntry

/-- Why the index gives no answer. -/
inductive IndexError where
  /-- An export has no id or no project. -/
  | missingKey
  /-- The distance of an export has no value. -/
  | noDistance (id : String)
  /-- Recording was called off. -/
  | recordCanceled (id : String)
  /-- A question was called off. -/
  | canceled
  /-- There is no such export. -/
  | noRows
  /-- The time of an export cannot be read. -/
  | badTime (text : String) (fault : TimeFault)
  deriving DecidableEq, Repr

/-- The text of an error. -/
def IndexError.message : IndexError → String
  | missingKey => "exportdb: missing id or project"
  | noDistance id => "exportdb: record " ++ id ++
      ": constraint failed: NOT NULL constraint failed: exports.distance (1299)"
  | recordCanceled id => "exportdb: record " ++ id ++ ": context canceled"
  | canceled => "context canceled"
  | noRows => "sql: no rows in result set"
  | badTime text fault => "exportdb: created_at " ++ quoted text ++ ": " ++ fault.message text

/-- The index of exports: rows by their ids, the time of each as a text. -/
structure Index where
  /-- The rows. -/
  rows : List (String × HistoryEntry String) := []
  deriving DecidableEq

namespace Index

/-- The time of an export that may come without one. -/
def timeOf (now : Instant) (e : HistoryEntry (Option Instant)) : Instant :=
  e.created.getD (((Ulid.ofText? e.id).map Ulid.instant).getD now)

/-- A distance as the index keeps it: without the sign of a zero. -/
def storedDistance (x : Double) : Double :=
  if x.isZero then .zero false else x

/-- **Recording an export.** -/
def record (ix : Index) (canceled : Bool) (now : Instant) (e : HistoryEntry (Option Instant)) :
    Except IndexError Index :=
  if e.id = "" ∨ e.project = "" then .error .missingKey
  else if canceled then .error (.recordCanceled e.id)
  else if e.distance.isNaN then .error (.noDistance e.id)
  else
    let row := { e.withTime (timeOf now e).text with distance := storedDistance e.distance }
    .ok ⟨Assoc.put e.id row ix.rows⟩

/-- A row with its time read. -/
def readRow (row : HistoryEntry String) : Except IndexError (HistoryEntry Instant) :=
  match Instant.ofText row.created with
  | .ok t => .ok (row.withTime t)
  | .error fault => .error (.badTime row.created fault)

/-- The length of a listing that asks for none. -/
def defaultLimit : Nat := 50

/-- The rows of a project, or of all for the empty one, the greatest id first. -/
def newest (ix : Index) (project : String) : List (HistoryEntry String) :=
  ((ix.rows.map (·.2)).filter fun r => project = "" || r.project = project).mergeSort fun a b =>
    !textLt a.id b.id

/-- **Listing the exports** of a project. -/
def list (ix : Index) (canceled : Bool) (project : String) (limit : Int) :
    Except IndexError (List (HistoryEntry Instant)) :=
  if canceled then .error .canceled
  else
    let limit := if limit ≤ 0 then defaultLimit else limit.toNat
    ((ix.newest project).take limit).mapM readRow

/-- The newest export of a project. -/
def latest (ix : Index) (canceled : Bool) (project : String) :
    Except IndexError (HistoryEntry Instant) := do
  match ← ix.list canceled project 1 with
  | [] => throw .noRows
  | e :: _ => return e

/-- The export with an id. -/
def get (ix : Index) (canceled : Bool) (id : String) : Except IndexError (HistoryEntry Instant) :=
  if canceled then .error .canceled
  else match ix.rows.lookup id with
    | none => .error .noRows
    | some row => readRow row

end Index

end Statuary
