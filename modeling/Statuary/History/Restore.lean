import Statuary.History.Digest
import Statuary.History.Store

/-!
# Restoring an export

The index knows where the text of an export is kept and what its digest was. Restoring an export
takes the text out of the store and **compares its digest with the one in the index**
(`Statuary.Index.restore`), so that a text that was changed afterwards is never given out.
-/

namespace Statuary

/-- Why an export is not restored. -/
inductive RestoreError where
  /-- The index does not have it. -/
  | unknown (id : String)
  /-- The index gives no answer. -/
  | query (e : IndexError)
  /-- Its text was not kept. -/
  | notArchived (id : String)
  /-- Its text cannot be taken out of the store. -/
  | archive (e : StoreError)
  /-- Its text is another one. -/
  | mismatch (recorded found : String)
  deriving DecidableEq, Repr

/-- The text of an error. -/
def RestoreError.message : RestoreError → String
  | unknown id => "unknown export " ++ id
  | query e => "query: " ++ e.message
  | notArchived id => id ++ ": export was not archived"
  | archive e => "read archive: " ++ e.message
  | mismatch recorded found => "digest mismatch: index=" ++ recorded ++ " archive=" ++ found

namespace Index

variable {m : Type → Type} [Monad m]

/-- The row of an export that is to be restored. -/
def restorable (ix : Index) (canceled : Bool) (id : String) :
    Except RestoreError (HistoryEntry Instant) :=
  match ix.get canceled id with
  | .error .noRows => .error (.unknown id)
  | .error e => .error (.query e)
  | .ok row => if row.archivePath = "" then .error (.notArchived row.id) else .ok row

/-- A text of the store if it is the one of a row. -/
def verified (row : HistoryEntry Instant) (header : ArchiveHeader) (text : String) :
    Except RestoreError (ArchiveHeader × String) :=
  let digest := Digest.ofText text
  if digest = row.digest then .ok (header, text) else .error (.mismatch row.digest digest)

/-- **Restoring an export**: its header and its text. -/
def restore (fs : FileSystem m Content) (ix : Index) (canceled : Bool) (id : String) :
    m (Except RestoreError (ArchiveHeader × String)) := do
  match ix.restorable canceled id with
  | .error e => return .error e
  | .ok row =>
    match ← Store.get fs row.archivePath with
    | .error e => return .error (.archive e)
    | .ok (header, text) => return verified row header text

end Index

end Statuary
