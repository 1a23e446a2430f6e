import Statuary.Export.Build
import Statuary.Export.Delivery
import Statuary.History.Digest

/-!
# Running an export

An export builds the program, writes it, keeps a copy of its text, notes it in the index, and tells
the editor. What it needs of its surroundings is one record of actions (`Statuary.Host`), of which
the copy, the index and the editor may be absent; the run itself is one function over any of them
(`Statuary.Export.run`).

**The order of effects is the point.** Nothing is written unless the program is built, an output is
chosen and the export is not called off; nothing is copied or noted unless everything is written;
and what fails after that is logged and changes no answer. An export that fails tells the editor
exactly once, unless it was called off; one that works tells it last of all.
-/

namespace Statuary

/-- The surroundings of an export, as actions of `m`. -/
structure Host (m : Type → Type) where
  /-- Writes a file. -/
  write : Writer m
  /-- Keeps a copy of a text by its id and project, and says where. -/
  archive : Option (String → String → String → m (Except String String))
  /-- Notes an export in the index. -/
  record : Option (HistoryEntry (Option Instant) → m (Except String Unit))
  /-- Tells the editor. -/
  notify : Option (Notice → m Unit)
  /-- Writes a line into the log. -/
  log : String → m Unit
  /-- The current time. -/
  now : m Instant
  /-- A new id. -/
  newId : Instant → m String
  /-- The export is called off. -/
  canceled : m Bool

/-- Why a program is not written. -/
inductive WriteError where
  /-- The program cannot be packed. -/
  | notPacked (e : PackError)
  /-- What was made of it cannot be delivered. -/
  | notDelivered (path : String) (e : DeliveryError)
  deriving DecidableEq, Repr

/-- The text of an error. -/
def WriteError.message : WriteError → String
  | notPacked e => e.message
  | notDelivered path e => "write " ++ path ++ ": " ++ e.message

/-- A fault in the settings that the user has to mend. -/
structure ConfigFault where
  /-- A few words. -/
  title : String
  /-- What to do. -/
  body : String
  deriving DecidableEq, Repr

/-- No output is chosen for a mode. -/
def ConfigFault.noOutput (mode : String) : ConfigFault :=
  if mode = packMode then
    ⟨"Data Pack Path Not Defined",
      "Set statue.data_pack_path in the project settings before exporting."⟩
  else
    ⟨"MC-Build File Path Not Defined",
      "Set statue.mcb_file_path in the project settings before exporting."⟩

/-- The text of a fault. -/
def ConfigFault.message (f : ConfigFault) : String :=
  f.title ++ ": " ++ f.body

/-- An export that worked. -/
structure Exported where
  /-- The program. -/
  build : Build
  /-- The id. -/
  id : String
  /-- Where the program went. -/
  outputPath : String
  /-- Where the copy is; empty if there is none. -/
  archivePath : String

/-- How an export ends. -/
inductive Outcome where
  /-- There is no program. -/
  | notBuilt (e : BuildError)
  /-- No output is chosen. -/
  | noOutput (b : Build) (fault : ConfigFault)
  /-- The export was called off. -/
  | canceled (b : Build)
  /-- The program could not be written. -/
  | notWritten (b : Build) (e : WriteError)
  /-- The export worked. -/
  | done (x : Exported)

namespace Outcome

/-- The program, if there is one. -/
def build? : Outcome → Option Build
  | notBuilt _ => none
  | noOutput b _ => some b
  | canceled b => some b
  | notWritten b _ => some b
  | done x => some x.build

end Outcome

namespace Export

variable {m : Type → Type} [Monad m]

/-- What an export says when it worked. -/
def successText : String := "Model Exported Successfully"

/-- The title of an export that failed. -/
def failureTitle : String := "Export failed"

/-- Tells the editor of a failure, or the log if there is no editor. -/
def showError (h : Host m) (project : String) (code : NoticeCode) (title body : String) : m Unit :=
  match h.notify with
  | none => h.log ("project " ++ project ++ ": " ++ code.text ++ ": " ++ title ++ ": " ++ body)
  | some notify => do notify (.error project code title body (← h.now).millis)

/-- How the program of a project is packed. -/
def packOptions (s : Settings) : PackOptions where
  space := s.project
  flagObjective := s.internalObjective
  packFormat := s.packFormat.toInt
  description := "Statue " ++ s.project
  loadFunction := "install"

/-- Writes the program in the mode of the settings. -/
def writeOutput (write : Writer m) (s : Settings) (out : String) (b : Build) :
    m (Except WriteError Unit) :=
  if s.exportMode ≠ packMode then do
    return (← Delivery.writeWhole write out (.text b.text)).mapError (.notDelivered out)
  else
    match b.program.pack (packOptions s) with
    | .error e => return .error (.notPacked e)
    | .ok files => do
      return (← Delivery.writePack write out files).mapError (.notDelivered out)

/-- Keeps a copy of the text; the result is where, or nothing. -/
def keepCopy (h : Host m) (project id text : String) : m String :=
  match h.archive with
  | none => return ""
  | some archive => do
    match ← archive id project text with
    | .ok path => return path
    | .error e =>
      h.log ("project " ++ project ++ ": archive " ++ id ++ ": " ++ e)
      return ""

/-- The entry of an export in the index. -/
def entry (s : Settings) (now : Instant) (x : Exported) : HistoryEntry (Option Instant) where
  id := x.id
  project := s.project
  mode := s.exportMode
  outputPath := x.outputPath
  archivePath := x.archivePath
  digest := Digest.ofText x.build.text
  bones := x.build.bones
  variants := x.build.variants
  distance := x.build.distance
  created := some now

/-- Notes an export in the index. -/
def note (h : Host m) (s : Settings) (now : Instant) (x : Exported) : m Unit :=
  match h.record with
  | none => return ()
  | some record => do
    match ← record (entry s now x) with
    | .ok _ => return ()
    | .error e => h.log ("project " ++ s.project ++ ": index " ++ x.id ++ ": " ++ e)

/-- What follows when the program is written. -/
def finish (h : Host m) (s : Settings) (out : String) (b : Build) : m Exported := do
  let now ← h.now
  let id ← h.newId now
  let archivePath ← keepCopy h s.project id b.text
  let x : Exported := ⟨b, id, out, archivePath⟩
  note h s now x
  h.log ("project " ++ s.project ++ ": exported " ++ toString b.bones ++ " bones, " ++
    toString b.variants ++ " variants to " ++ out ++ " (" ++ id ++ ")")
  if let some notify := h.notify then
    notify (.notice s.project id successText now.millis)
  return x

/-- Warns that the distance that the rig reports was too small. -/
def warn (h : Host m) (s : Settings) (rig : Option Rig) (b : Build) : m Unit :=
  match rig with
  | some r =>
    if b.raised then
      h.log ("project " ++ s.project ++ ": max distance " ++ r.maxDistance.fixed 2 ++
        " does not reach every bone; using " ++ b.distance.fixed 2)
    else return ()
  | none => return ()

/-- **Running an export.** -/
def run (h : Host m) (s : Settings) (rig : Option Rig) : m Outcome := do
  match Statuary.build s rig with
  | .error e =>
    showError h s.project e.code failureTitle e.message
    return .notBuilt e
  | .ok b =>
    warn h s rig b
    let out := s.outputPath
    if out = "" then
      let fault := ConfigFault.noOutput s.exportMode
      showError h s.project .config fault.title fault.body
      return .noOutput b fault
    else if ← h.canceled then
      return .canceled b
    else
      match ← writeOutput h.write s out b with
      | .error e =>
        showError h s.project .write failureTitle e.message
        return .notWritten b e
      | .ok _ => return .done (← finish h s out b)

end Export

end Statuary
