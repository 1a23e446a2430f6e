import Statuary.History.Index
import Statuary.Json.Fields
import Statuary.Number.Literal

/-!
# The index as a text

On a disk the index is a text: a first line that says what it is and what form it has, and one line
for each row. A row is a JSON object, whose numbers are written as texts so that none of them is
lost. A zero character in the first line keeps the text from being taken for a document.
-/

namespace Statuary

/-- The form of the file of an index. -/
structure IndexForm where
  /-- Changes are written into a log beside the file first. -/
  logged : Bool := true
  /-- The tables are there. -/
  complete : Bool := true
  deriving DecidableEq, Repr

/-- An index as its file holds it. -/
structure IndexImage where
  /-- The form of the file. -/
  form : IndexForm := {}
  /-- The index. -/
  index : Index := {}
  deriving DecidableEq

namespace Index

/-- The line of a row. -/
def rowLine (r : HistoryEntry String) : String :=
  Json.ofMembers [("id", Json.ofText r.id), ("project", Json.ofText r.project),
    ("mode", Json.ofText r.mode), ("output_path", Json.ofText r.outputPath),
    ("archive_path", Json.ofText r.archivePath), ("digest", Json.ofText r.digest),
    ("bones", Json.ofInt r.bones), ("variants", Json.ofInt r.variants),
    ("distance", Json.ofText r.distance.plain), ("created_at", Json.ofText r.created)]

/-- The row in a line. -/
def readLine? (line : String) : Option (HistoryEntry String) := do
  let ms ← (← Json.read? .alone line).message?
  return {
    id := ← Json.textField? "id" ms
    project := ← Json.textField? "project" ms
    mode := ← Json.textField? "mode" ms
    outputPath := ← Json.textField? "output_path" ms
    archivePath := ← Json.textField? "archive_path" ms
    digest := ← Json.textField? "digest" ms
    bones := ← Json.intField? "bones" ms
    variants := ← Json.intField? "variants" ms
    distance := ← readFloatLiteral (← Json.textField? "distance" ms)
    created := ← Json.textField? "created_at" ms }

end Index

namespace IndexImage

/-- What the text of an index begins with. -/
def mark : String := "statue export index\x00"

/-- The first line for a form. -/
def firstLine (f : IndexForm) : String :=
  mark ++ (if f.logged then "l" else "-") ++ (if f.complete then "t" else "-")

/-- The forms. -/
def forms : List IndexForm :=
  [⟨true, true⟩, ⟨true, false⟩, ⟨false, true⟩, ⟨false, false⟩]

/-- **The text of an index.** -/
def toText (im : IndexImage) : String :=
  String.join ((firstLine im.form :: im.index.rows.map fun r => Index.rowLine r.2).map (· ++ "\n"))

/-- **The index in a text.** -/
def ofText? (s : String) : Option IndexImage :=
  match (splitOnChar '\n' s.toList).map String.ofList with
  | first :: lines => do
    let form ← forms.find? (firstLine · = first)
    let rows ← (lines.filter (· ≠ "")).mapM Index.readLine?
    return ⟨form, ⟨rows.map fun r => (r.id, r)⟩⟩
  | [] => none

end IndexImage

end Statuary
