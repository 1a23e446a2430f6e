import Statuary.Command.Flags
import Statuary.Text.Blank

/-!
# The options of an export command

An export takes its rig from exactly one of two files, and its settings from a file or the defaults.
Everything else is optional: another mode or output than the settings say, a directory for copies,
an index, a watch, and an address for editors. Texts are cut free of white space, so that **a blank
option is one that is not given**.
-/

namespace Statuary

/-- The options of an export command. -/
structure ExportOptions where
  /-- The file of the settings; empty for the defaults. -/
  settings : String
  /-- The file of a rig document. -/
  rig : String
  /-- The file of build data. -/
  build : String
  /-- The animation of build data that has the static frame. -/
  animation : String
  /-- The export mode, if not that of the settings. -/
  mode : String
  /-- The output, if not that of the settings. -/
  out : String
  /-- The directory for copies; empty for none. -/
  archive : String
  /-- The file of the index; empty for none. -/
  db : String
  /-- The address for editors; empty for none. -/
  listen : String
  /-- Repeats the export when a file changes. -/
  watch : Bool
  /-- The nanoseconds between two looks at the files. -/
  interval : Int
  /-- Prints the program. -/
  print : Bool
  deriving DecidableEq, Repr

/-- Why options do not fit together. -/
inductive OptionsError where
  /-- There is not exactly one file for the rig. -/
  | notOneRig
  /-- Editors would listen to a command that ends at once. -/
  | listenUnwatched
  deriving DecidableEq, Repr

/-- The text of an error. -/
def OptionsError.message : OptionsError → String
  | notOneRig => "exactly one of -rig or -build is required"
  | listenUnwatched => "-notify_listen requires -watch"

namespace ExportOptions

/-- The flags of an export command. -/
def flags : List FlagSpec :=
  [⟨"settings", .text "", "path to settings.yaml (default: built-in defaults)"⟩,
    ⟨"rig", .text "", "path to rig.yaml"⟩,
    ⟨"build", .text "", "path to editor build data JSON (instead of -rig)"⟩,
    ⟨"static_animation", .text "",
      "animation uuid holding the static frame (default: build data's static_animation_uuid)"⟩,
    ⟨"mode", .text "", "export mode override: mcb or datapack"⟩,
    ⟨"out", .text "", "output path override for the selected mode"⟩,
    ⟨"archive", .text "", "directory for compressed copies of every export (empty to disable)"⟩,
    ⟨"db", .text "", "sqlite export history path (empty to disable)"⟩,
    ⟨"notify_listen", .text "",
      "loopback address serving editor notices at /v1/notify; requires -watch (empty to disable)"⟩,
    ⟨"watch", .switch, "re-export whenever the settings or rig file changes"⟩,
    ⟨"watch_interval", .duration Duration.second, "poll interval for -watch (default 1s)"⟩,
    ⟨"print", .switch, "print the MC-Build program to stdout"⟩]

/-- The options in the values of flags. -/
def ofValues (vs : Flags.Values) : ExportOptions where
  settings := trim (vs.text "settings")
  rig := trim (vs.text "rig")
  build := trim (vs.text "build")
  animation := trim (vs.text "static_animation")
  mode := trim (vs.text "mode")
  out := trim (vs.text "out")
  archive := trim (vs.text "archive")
  db := trim (vs.text "db")
  listen := trim (vs.text "notify_listen")
  watch := vs.switch "watch"
  interval := vs.duration "watch_interval"
  print := vs.switch "print"

/-- **The options in arguments.** -/
def ofArgs (args : List String) : Except FlagError ExportOptions :=
  (Flags.read flags args).map ofValues

/-- The options fit together. -/
def check (o : ExportOptions) : Except OptionsError Unit :=
  if (o.rig = "") = (o.build = "") then .error .notOneRig
  else if o.listen ≠ "" ∧ !o.watch then .error .listenUnwatched
  else .ok ()

/-- The files of an export, in the order of their options. -/
def inputs (o : ExportOptions) : List String :=
  [o.settings, o.rig, o.build].filter (· ≠ "")

end ExportOptions

end Statuary
