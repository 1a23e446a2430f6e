import Statuary.Command.Options
import Statuary.Command.World
import Statuary.Rig.BuildData
import Statuary.Rig.Document
import Statuary.Settings.Document

/-!
# What an export command reads

The settings come from their file, are changed by the options, and are **checked again** after that,
because an option may name a mode that does not exist. The rig comes from a document or from build
data.

A fault in the settings is one that the user has to mend; any other ends the command as a failure.
-/

namespace Statuary

/-- Why settings cannot be loaded from a file. -/
inductive SettingsFileError where
  /-- The file cannot be read. -/
  | file (e : FileError)
  /-- What is in it is not accepted. -/
  | document (e : SettingsDocumentError)
  deriving DecidableEq

/-- Why there is nothing to export. -/
inductive InputError where
  /-- The settings cannot be loaded. -/
  | settings (e : SettingsFileError)
  /-- The settings are not accepted once they are changed. -/
  | options (e : SettingsError)
  /-- The file of the rig cannot be read. -/
  | file (e : FileError)
  /-- A rig document is not accepted. -/
  | rig (path : String) (e : RigDocumentError)
  /-- Build data are not accepted. -/
  | buildData (path : String) (e : BuildDataError)
  deriving DecidableEq

/-- What is said of a document that cannot be read. -/
def unreadableText : Yaml.Fault → String
  | .malformed => "yaml: malformed document"
  | .collectionKey kind => kind.complaint

/-- The text of an error, given the directory of the schema. -/
def SettingsFileError.message (dir : String) : SettingsFileError → String
  | file e => e.message
  | document (.unreadable f) => "settings.yaml: " ++ unreadableText f
  | document (.rejected e) => "settings.yaml: " ++ e.message dir

namespace InputError

/-- The fault in the settings that an error is, if it is one. -/
def configFault? (dir : String) : InputError → Option ConfigFault
  | settings e => some ⟨"Invalid settings", e.message dir⟩
  | options e => some ⟨"Invalid settings", e.message dir⟩
  | _ => none

/-- The text of an error, given the directory of the schema. -/
def message (dir : String) : InputError → String
  | settings e => e.message dir
  | options e => e.message dir
  | file e => e.message
  | rig path (.unreadable f) => path ++ ": " ++ unreadableText f
  | rig path (.rejected e) => path ++ ": " ++ e.message
  | buildData path e => path ++ ": " ++ e.message

/-- The line of the log about an error. -/
def logText (dir : String) (e : InputError) : String :=
  match e.configFault? dir with
  | some fault => fault.message
  | none => "export: " ++ e.message dir

/-- How a command ends with an error. -/
def exit : InputError → Exit
  | settings _ => .misuse
  | options _ => .misuse
  | _ => .failure

end InputError

variable {m : Type → Type} [Monad m]

/-- **Loading settings from a file**; a blank path gives the default ones. -/
def Settings.load (fs : FileSystem m Content) (path : String) :
    m (Except SettingsFileError Settings) := do
  if isBlank path then return .ok {}
  match ← fs.read path with
  | .error e => return .error (.file e)
  | .ok c => return (Settings.ofDocument c.asText).mapError .document

namespace ExportOptions

/-- Settings with the mode and the output of the options. -/
def override (o : ExportOptions) (s : Settings) : Settings :=
  let s := if o.mode = "" then s else { s with exportMode := o.mode }
  if o.out = "" then s
  else if s.exportMode = packMode then { s with packPath := o.out }
  else { s with sourcePath := o.out }

/-- The settings of an export. -/
def loadSettings (fs : FileSystem m Content) (o : ExportOptions) :
    m (Except InputError Settings) := do
  match ← Settings.load fs o.settings with
  | .error e => return .error (.settings e)
  | .ok s =>
    let s := o.override s
    match s.validate with
    | .error e => return .error (.options e)
    | .ok _ => return .ok s

/-- The rig in a text, by the option that named its file. -/
def readRig (o : ExportOptions) (text : String) : Except InputError Rig :=
  if o.build = "" then (Rig.ofDocument text).mapError (.rig o.rig)
  else (Rig.ofBuildData text o.animation).mapError (.buildData o.build)

/-- The file of the rig. -/
def rigPath (o : ExportOptions) : String :=
  if o.build = "" then o.rig else o.build

/-- **What an export command reads**: settings and a rig. -/
def loadInput (fs : FileSystem m Content) (o : ExportOptions) :
    m (Except InputError (Settings × Rig)) := do
  match ← o.loadSettings fs with
  | .error e => return .error e
  | .ok s =>
    match ← fs.read o.rigPath with
    | .error e => return .error (.file e)
    | .ok c => return (o.readRig c.asText).map fun r => (s, r)

end ExportOptions

end Statuary
