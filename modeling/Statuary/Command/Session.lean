import Statuary.Command.Input
import Statuary.Export.Watch
import Statuary.History.IndexFile
import Statuary.History.Store

/-!
# The export command

The command makes one export attempt and ends with what became of it, or, with a watch, makes an
attempt whenever a file changes and never ends by itself. Every attempt reads its files anew
(`Statuary.ExportOptions.attempt`), so **a fault in one attempt is no fault of the next**.

What the command was told on the way (that a file of the index cannot be opened, that options do not
fit together) comes before the first attempt and ends it (`Statuary.Session.launch`).
-/

namespace Statuary

/-- How a command ends after an export. -/
def Outcome.exit : Outcome → Exit
  | done _ => .success
  | noOutput .. => .misuse
  | _ => .failure

/-- An export command under a watch, in surroundings with actions of `m`. -/
structure Session (m : Type → Type) where
  /-- Its options. -/
  options : ExportOptions
  /-- Tells the editors that listen, if there are to be any. -/
  tell : Option (Notice → m Unit)
  /-- The watch on its files. -/
  watch : Watch

/-- What became of an export command that was launched. -/
inductive Launch (m : Type → Type) where
  /-- It is over. -/
  | over (e : Exit)
  /-- It watches its files. -/
  | watching (s : Session m)

variable {m : Type → Type} [Monad m]

namespace ExportOptions

/-- The surroundings of an export, with those who are told besides the log. -/
def host (w : World m) (o : ExportOptions) (tell : Option (Notice → m Unit)) : Host m where
  write path c := do return (← w.files.replace path c).mapError FileError.message
  archive :=
    if o.archive = "" then none
    else some fun id project text => do
      return (← Store.put w.files (← w.now) o.archive id project text).mapError StoreError.message
  record :=
    if o.db = "" then none
    else some fun e => do
      return (← IndexFile.record w.files (← w.now) o.db (← w.canceled) e).mapError
        IndexFileError.message
  notify := some fun n => n.toEach [some fun n => w.log n.logText, tell]
  log := w.log
  now := w.now
  newId := w.newId
  canceled := w.canceled

/-- **One export attempt.** -/
def attempt (w : World m) (o : ExportOptions) (tell : Option (Notice → m Unit)) : m Exit := do
  match ← o.loadInput w.files with
  | .error e =>
    w.log (e.logText (← w.directory))
    return e.exit
  | .ok (s, rig) =>
    let outcome ← Export.run (o.host w tell) s (some rig)
    if o.print then
      if let some b := outcome.build? then w.print b.text
    return outcome.exit

/-- Whether the index can be opened, if there is to be one. -/
def openIndex (w : World m) (o : ExportOptions) : m (Except IndexFileError Unit) := do
  if o.db = "" then return .ok ()
  return (← IndexFile.start w.files o.db).map fun _ => ()

/-- Lets editors listen, if there is an address for them. -/
def openHub (w : World m) (o : ExportOptions) : m (Option (Notice → m Unit)) := do
  if o.listen = "" then return none
  let tell ← w.listen o.listen
  w.log ("notices on ws://" ++ o.listen ++ "/v1/notify")
  return some tell

end ExportOptions

namespace Session

/-- The beginning of a watch: the first attempt, and a line that says which files are watched. -/
def start (w : World m) (o : ExportOptions) (tell : Option (Notice → m Unit)) : m (Session m) := do
  let watch ← Watch.start w.files o.inputs (discard (o.attempt w tell))
  w.log ("watching " ++ ", ".intercalate watch.paths)
  return ⟨o, tell, watch⟩

/-- **A tick of the watch.** -/
def tick (w : World m) (s : Session m) : m (Session m) := do
  return { s with watch := ← s.watch.tick w.files (discard (s.options.attempt w s.tell)) }

/-- The name of the command in the list of its flags. -/
def command : String := "statue"

/-- Launches a command whose options fit together. -/
def launchWith (w : World m) (o : ExportOptions) : m (Launch m) := do
  match ← o.openIndex w with
  | .error e =>
    w.log ("open export history: " ++ e.message)
    return .over .failure
  | .ok _ =>
    let tell ← o.openHub w
    if o.watch then return .watching (← start w o tell)
    else
      let e ← o.attempt w tell
      if o.db ≠ "" then IndexFile.finish w.files o.db
      return .over e

/-- **The export command** up to the point where it ends or only watches. -/
def launch (w : World m) (args : List String) : m (Launch m) := do
  match ExportOptions.ofArgs args with
  | .error e =>
    w.complain (e.report command ExportOptions.flags)
    return .over (if e = .help then .success else .misuse)
  | .ok o =>
    match o.check with
    | .error e =>
      w.complain (e.message ++ "\n")
      return .over .misuse
    | .ok _ => launchWith w o

end Session

end Statuary
