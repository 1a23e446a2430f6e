import Statuary.Settings.Basic
import Statuary.Text.Search

/-!
# Which settings are accepted

Settings are checked against a schema, and **all** rules that fail are reported, not only the first:
each with the place of the value, the place of the rule in the schema and a text
(`Statuary.Violation`). The rules are about texts: their length, the characters they may have, and
short lists of allowed values. A vertical offset without a value cannot even be written down for the
check.

After the schema, the tags are tried out: none may be empty, and two bones must not get one tag.
-/

namespace Statuary

/-- A rule that fails. -/
structure Violation where
  /-- The place of the value. -/
  place : String
  /-- The place of the rule. -/
  rule : String
  /-- What the rule says. -/
  message : String
  deriving DecidableEq, Repr

/-- Why settings are not accepted. -/
inductive SettingsError where
  /-- The vertical offset has no value. -/
  | noNumber (x : Double)
  /-- Rules of the schema fail. -/
  | violations (vs : List Violation)
  /-- A template gives an empty tag. -/
  | emptyTag (field : String)
  /-- All bones get one tag. -/
  | sharedBoneTag
  deriving DecidableEq

namespace Schema

/-! ### Patterns -/

/-- A small letter, a digit, or one of `_.-`. -/
def isSpaceChar (c : Char) : Bool :=
  ('a' ≤ c && c ≤ 'z') || ('0' ≤ c && c ≤ '9') || c == '_' || c == '.' || c == '-'

/-- A letter, a digit, or one of `_.+-`. -/
def isObjectiveChar (c : Char) : Bool :=
  c.isAlphanum || c == '_' || c == '.' || c == '+' || c == '-'

/-- A name with its namespace. -/
def isResource (s : String) : Bool :=
  let (before, after) := s.toList.span (· != ':')
  let name := after.drop 1
  !before.isEmpty && before.all isSpaceChar &&
    !name.isEmpty && name.all fun c => isSpaceChar c || c == '/'

/-- A template for tags. -/
def isTemplate (s : String) : Bool :=
  !s.toList.isEmpty && s.toList.all fun c => isObjectiveChar c || c == '%'

/-- A template for tags names the bone. -/
def namesBone (s : String) : Bool :=
  contains ("%" ++ Template.boneKey) s

/-- The name of an objective. -/
def isObjective (s : String) : Bool :=
  1 ≤ s.length && s.length ≤ 16 && s.toList.all isObjectiveChar

/-! ### Rules -/

/-- The violation of a rule, if it fails. -/
def rule (holds : Bool) (place path message : String) : List Violation :=
  if holds then [] else [⟨place, path, message⟩]

/-- A text has a character. -/
def nonEmpty (s place path : String) : List Violation :=
  rule (s ≠ "") place (path ++ "/minLength") s!"length must be >= 1, but got {s.length}"

/-- A text matches a pattern. -/
def pattern (holds : Bool) (source place path : String) : List Violation :=
  rule holds place (path ++ "/pattern") s!"does not match pattern '{source}'"

/-- The pattern of a name with its namespace. -/
def resource (s place path : String) : List Violation :=
  pattern (isResource s) "^[a-z0-9_.-]+:[a-z0-9_./-]+$" place path

/-- The rules of a template. -/
def template (s place path : String) : List Violation :=
  nonEmpty s place path ++ pattern (isTemplate s) "^[A-Za-z0-9_.+%-]+$" place path

/-- The rule of an objective. -/
def objective (s place path : String) : List Violation :=
  pattern (isObjective s) "^[A-Za-z0-9_.+-]\x7b1,16\x7d$" place path

/-- A text is one of those allowed. -/
def oneOf (s : String) (allowed : List String) (place path : String) : List Violation :=
  let list := ", ".intercalate (allowed.map fun a => "\"" ++ a ++ "\"")
  rule (allowed.contains s) place (path ++ "/enum") ("value must be one of " ++ list)

/-- A number is not below one. -/
def positive (n : Int64) (place path : String) : List Violation :=
  let found : Double := .ofInt n.toInt
  rule (1 ≤ n) place (path ++ "/minimum") s!"must be >= 1 but found {found.brief}"

/-- The order in which violations are listed. -/
def before (a b : Violation) : Bool :=
  if a.place ≠ b.place then textLt a.place b.place
  else if a.rule ≠ b.rule then textLt a.rule b.rule
  else !textLt b.message a.message

/-- **All rules that fail**, in the order of their places. -/
def check (s : Settings) : List Violation :=
  let top (name : String) : String × String := ("/" ++ name, "/properties/" ++ name)
  let inner (name : String) : String × String :=
    ("/statue/" ++ name, "/properties/statue/properties/" ++ name)
  let at2 (p : String × String) (r : String → String → List Violation) (more : String) :
      List Violation := r p.1 (p.2 ++ more)
  (at2 (top "project_name") (nonEmpty s.projectName) "" ++
    at2 (top "rig_item") (resource s.rigItem) "" ++
    at2 (inner "model_tag") (template s.modelTag) "/$ref" ++
    at2 (inner "root_tag") (template s.rootTag) "/$ref" ++
    at2 (inner "all_bones_tag") (template s.allBonesTag) "/$ref" ++
    at2 (inner "individual_bone_tag") (template s.boneTag) "/allOf/0/$ref" ++
    at2 (inner "individual_bone_tag") (pattern (namesBone s.boneTag) "%boneName") "/allOf/1" ++
    at2 (inner "root_entity_type") (resource s.rootEntityType) "" ++
    at2 (inner "bone_type") (oneOf s.boneType [armorStandType, cloudType]) "" ++
    at2 (inner "internal_scoreboard_objective") (objective s.internalObjective) "/$ref" ++
    at2 (inner "id_scoreboard_objective") (objective s.idObjective) "/$ref" ++
    at2 (inner "export_mode") (oneOf s.exportMode ["mcb", packMode]) "" ++
    at2 (inner "pack_format") (positive s.packFormat) "").mergeSort before

end Schema

/-- The text of a violation, given the directory of the schema. -/
def Violation.text (dir : String) (v : Violation) : String :=
  s!"jsonschema: '{v.place}' does not validate with " ++
    s!"file://{dir}/settings.schema.json#{v.rule}: {v.message}"

/-- The text of an error, given the directory of the schema. Of several violations the first one is
shown. -/
def SettingsError.message (dir : String) : SettingsError → String
  | noNumber x => s!"json: unsupported value: {x.plain}"
  | violations vs => (vs.head?.map (·.text dir)).getD ""
  | emptyTag field => s!"{field} resolves to an empty tag"
  | sharedBoneTag => s!"individual_bone_tag must contain %{Template.boneKey}"

namespace Settings

/-- The first template that gives an empty tag. -/
def emptyTag? (s : Settings) : Option String :=
  let t := s.tags
  ([("model_tag", t.model), ("root_tag", t.root), ("all_bones_tag", t.allBones),
    ("individual_bone_tag", t.bone "x")].find? fun p => p.2 = "").map (·.1)

/-- **Accepting settings.** -/
def validate (s : Settings) : Except SettingsError Unit :=
  match s.headOffset.filter (!·.isFinite) with
  | some x => .error (.noNumber x)
  | none =>
    match Schema.check s with
    | v :: vs => .error (.violations (v :: vs))
    | [] =>
      match s.emptyTag? with
      | some field => .error (.emptyTag field)
      | none => if s.tags.bone "a" = s.tags.bone "b" then .error .sharedBoneTag else .ok ()

end Settings

end Statuary
