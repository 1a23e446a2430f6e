import Statuary.Settings.Schema
import Statuary.Yaml.Shape

/-!
# Settings documents

Settings are written as a YAML document over the default settings: what the document leaves out, or
says nothing about, stays as it is by default.
-/

namespace Statuary

/-- Why settings cannot be loaded from a document. -/
inductive SettingsDocumentError where
  /-- The text cannot be read as a document of the right shape. -/
  | unreadable (f : Yaml.Fault)
  /-- The settings in it are not accepted. -/
  | rejected (e : SettingsError)
  deriving DecidableEq

namespace SettingsDocument

open Yaml

/-- The settings under `statue`. -/
def statue : Shape Settings :=
  Shape.record [
    .of "model_tag" Shape.text (·.modelTag) fun s t => { s with modelTag := t },
    .of "root_tag" Shape.text (·.rootTag) fun s t => { s with rootTag := t },
    .of "all_bones_tag" Shape.text (·.allBonesTag) fun s t => { s with allBonesTag := t },
    .of "individual_bone_tag" Shape.text (·.boneTag) fun s t => { s with boneTag := t },
    .of "root_entity_type" Shape.text (·.rootEntityType) fun s t => { s with rootEntityType := t },
    .of "bone_type" Shape.text (·.boneType) fun s t => { s with boneType := t },
    .of "marker_armor_stands" Shape.truth (·.markerArmorStands)
      fun s b => { s with markerArmorStands := b },
    .of "internal_scoreboard_objective" Shape.text (·.internalObjective)
      fun s t => { s with internalObjective := t },
    .of "id_scoreboard_objective" Shape.text (·.idObjective) fun s t => { s with idObjective := t },
    .of "export_mode" Shape.text (·.exportMode) fun s t => { s with exportMode := t },
    .of "mcb_file_path" Shape.text (·.sourcePath) fun s t => { s with sourcePath := t },
    .of "data_pack_path" Shape.text (·.packPath) fun s t => { s with packPath := t },
    .of "pack_format" Shape.whole (·.packFormat) fun s n => { s with packFormat := n },
    .of "head_y_offset" (Shape.optional Shape.number (.zero false)) (·.headOffset)
      fun s x => { s with headOffset := x }]

/-- Settings. -/
def settings : Shape Settings :=
  Shape.record [
    .of "project_name" Shape.text (·.projectName) fun s t => { s with projectName := t },
    .of "rig_item" Shape.text (·.rigItem) fun s t => { s with rigItem := t },
    .of "statue" statue id fun _ s => s]

end SettingsDocument

/-- **Loading settings from a document.** -/
def Settings.ofDocument (text : String) : Except SettingsDocumentError Settings :=
  match Yaml.readAs SettingsDocument.settings {} text with
  | .error f => .error (.unreadable f)
  | .ok s =>
    match s.validate with
    | .error e => .error (.rejected e)
    | .ok _ => .ok s

end Statuary
