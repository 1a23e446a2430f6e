import Statuary.Export.Payload
import Statuary.Notice.Basic
import Statuary.Program.Source

/-!
# The program of a statue

A rig and the settings of its project give one program: a function that installs the objectives, the
group of bone entities, functions that remove statues, and for each variant one that summons a
statue in it. If some variant changes an exported bone, there is also for each variant a function
that changes a statue which already stands.

The summon commands of the bones are made once. What differs between variants is the number of the
model alone (`Statuary.Bone.modelIn`), and it is filled in afterwards.
-/

namespace Statuary

/-- Why there is no program. -/
inductive BuildError where
  /-- There is no rig. -/
  | noRig
  /-- The rig is not accepted. -/
  | badRig (e : RigError)
  /-- A bone has no data. -/
  | badTag (e : PayloadError)
  deriving DecidableEq

namespace BuildError

/-- The text of an error. -/
def message : BuildError → String
  | noRig => "no rig"
  | badRig e => e.message
  | badTag e => e.message

/-- The code of an error. -/
def code : BuildError → NoticeCode
  | noRig => .badRig
  | badRig _ => .badRig
  | badTag _ => .badTag

end BuildError

/-- The program of a statue. -/
structure Build where
  /-- The program. -/
  program : Program
  /-- The distance within which commands look for bones. -/
  distance : Double
  /-- The reported distance did not reach every bone. -/
  raised : Bool
  /-- The number of exported bones. -/
  bones : Nat
  /-- The number of variants. -/
  variants : Nat

/-- The source text of the program. -/
def Build.text (b : Build) : String :=
  b.program.source

namespace Bone

/-- The number of the model that a bone wears in a variant. -/
def modelIn (b : Bone) (v : Variant) : Int64 :=
  (v.models.lookup b.name).getD b.model

/-- The command that gives a bone its model in a variant. -/
def modelCommand (b : Bone) (tags : Tags) (v : Variant) : String :=
  "data modify entity @s[tag=" ++ tags.bone b.name ++
    "] ArmorItems[-1].tag.CustomModelData set value " ++ toString (b.modelIn v).toInt

end Bone

namespace Build

/-- The comment at the head of every program. -/
def header : String := " Code generated by statuecraft. DO NOT EDIT."

/-- The summon commands of bones, their models still open. -/
def summons (s : Settings) (bones : List Bone) : Except PayloadError (List (Bone × String)) :=
  bones.mapM fun b => do
    let payload ← b.payload s.tags s
    return (b, b.summonCommand payload s.tags s.entityTypes s.effectiveOffset)

/-- The summon commands of bones in a variant. -/
def summonsIn (summons : List (Bone × String)) (v : Variant) : List String :=
  summons.map fun (b, command) =>
    (substituteFirst command placeholder (toString (b.modelIn v).toInt)).1

/-- The commands that give every changed bone its model in a variant. -/
def modelCommands (r : Rig) (tags : Tags) (v : Variant) : List String :=
  (r.exportedBones.filter fun b => r.isTouched b.name).map (·.modelCommand tags v)

/-- How commands find the members of a statue of an accepted rig. -/
def correlation (s : Settings) (r : Rig) : Correlation where
  project := s.project
  tags := s.tags
  types := s.entityTypes
  objectives := s.objectives
  distance := r.distanceBound s.effectiveOffset

/-- The program of an accepted rig, given the summon commands of its exported bones. -/
def statue (s : Settings) (r : Rig) (summons : List (Bone × String)) : Program :=
  let p := correlation s r
  let function (name : String) (steps : List Step) : Item := .function name (p.statements steps)
  { header := [header]
    items := [
      function "install" p.install,
      .group boneGroup (some p.types.group),
      .dir "remove" [function "all" Correlation.removeAll, function "this" Correlation.removeThis],
      .dir "summon" (r.variants.map fun v =>
        function v.name (Correlation.summon (summonsIn summons v)))] ++
      if r.touchesAny then
        [.dir "set_variant" (r.variants.map fun v =>
          function v.name (Correlation.setVariant v.name (modelCommands r p.tags v)))]
      else [] }

/-- The program of an accepted rig. -/
def ofRig (s : Settings) (r : Rig) : Except PayloadError Build := do
  let summons ← summons s r.exportedBones
  let distance := r.distanceBound s.effectiveOffset
  return {
    program := statue s r summons
    distance
    raised := (Binary.zero false).lt r.maxDistance && r.maxDistance.lt distance
    bones := r.exportedBones.length
    variants := r.variants.length }

end Build

/-- **Building the program** of a rig in a project. -/
def build (s : Settings) (rig : Option Rig) : Except BuildError Build := do
  let some rig := rig | .error .noRig
  let rig ← rig.normalize.mapError BuildError.badRig
  (Build.ofRig s rig).mapError BuildError.badTag

end Statuary
