import Statuary.Number.Shortest
import Statuary.Text.Quoted

/-!
# Rigs

A rig is one frame of a model: its bones with their poses, the variants of its look, and the bones
that some variant changes. `Statuary.Rig.normalize` accepts a rig that commands can be made from,
fills in what the input may leave out, and otherwise says what is wrong with it first.

The commands select bones by their distance from the root. `Statuary.Rig.requiredDistance` is the
radius that reaches every exported bone: the greatest distance with a margin, rounded up to
hundredths.
-/

namespace Statuary

/-! ### Vectors -/

/-- A point or three angles. -/
structure Vec3 where
  /-- The first coordinate. -/
  x : Double
  /-- The second coordinate. -/
  y : Double
  /-- The third coordinate. -/
  z : Double
  deriving DecidableEq

namespace Vec3

/-- Zero. -/
def zero : Vec3 := ⟨.zero false, .zero false, .zero false⟩

/-- The sum. -/
def add (a b : Vec3) : Vec3 :=
  ⟨a.x.add b.x, a.y.add b.y, a.z.add b.z⟩

/-- The length, its squares summed from left to right. -/
def length (v : Vec3) : Double :=
  (((v.x.mul v.x).add (v.y.mul v.y)).add (v.z.mul v.z)).sqrt

/-- All coordinates have a value. -/
def isFinite (v : Vec3) : Bool :=
  v.x.isFinite && v.y.isFinite && v.z.isFinite

/-- The text of a vector in a diagnostic. -/
def brief (v : Vec3) : String :=
  "[" ++ v.x.brief ++ " " ++ v.y.brief ++ " " ++ v.z.brief ++ "]"

end Vec3

/-! ### Bones and variants -/

/-- A bone. -/
structure Bone where
  /-- The name, unique in the rig. -/
  name : String
  /-- The place, counted from the root. -/
  pos : Vec3
  /-- The rotation in degrees. -/
  rot : Vec3
  /-- The bone is part of the statue. -/
  exported : Bool
  /-- Further data of the entity, as the text of a compound. -/
  nbt : String
  /-- The number of the model that the bone wears. -/
  model : Int64
  deriving DecidableEq

/-- A variant of the look of a rig. -/
structure Variant where
  /-- The name, unique in the rig. -/
  name : String
  /-- The models of the bones that look different. -/
  models : List (String × Int64)
  deriving DecidableEq

/-- A rig. -/
structure Rig where
  /-- The bones. -/
  bones : List Bone
  /-- The distance of the bones from the root as the source of the rig reports it; zero if it does
  not. -/
  maxDistance : Double
  /-- The variants. -/
  variants : List Variant
  /-- The bones that some variant changes. -/
  touched : List String
  deriving DecidableEq

/-- A character that the game takes without quotes in tags and selectors. -/
def isTagChar (c : Char) : Bool :=
  ('a' ≤ c && c ≤ 'z') || ('A' ≤ c && c ≤ 'Z') || ('0' ≤ c && c ≤ '9') ||
    c == '_' || c == '.' || c == '+' || c == '-'

/-- A character of a name in the path of a function. -/
def isFunctionChar (c : Char) : Bool :=
  ('a' ≤ c && c ≤ 'z') || ('0' ≤ c && c ≤ '9') || c == '_' || c == '.' || c == '-'

/-- What is wrong with a rig. -/
inductive RigError where
  /-- There is no bone. -/
  | noBones
  /-- The reported distance has no value. -/
  | badDistance (x : Double)
  /-- A bone has no name. -/
  | emptyBone
  /-- The name of a bone has a character that it must not have. -/
  | badBone (name : String)
  /-- Two bones have one name. -/
  | duplicateBone (name : String)
  /-- The pose of a bone has a coordinate without a value. -/
  | badPose (name : String) (pos rot : Vec3)
  /-- A variant has no name. -/
  | emptyVariant
  /-- The name of a variant has a character that it must not have. -/
  | badVariant (name : String)
  /-- Two variants have one name. -/
  | duplicateVariant (name : String)
  /-- A variant changes a bone that is not there. -/
  | unknownOverride (variant bone : String)
  /-- A bone is said to be changed that is not there. -/
  | unknownTouched (bone : String)
  deriving DecidableEq

/-- The text of an error. -/
def RigError.message : RigError → String
  | noBones => "rig has no bones"
  | badDistance x => s!"max distance {x.brief} is not finite"
  | emptyBone => "bone with empty name"
  | badBone name => s!"bone {quoted name}: names may only contain A-Z a-z 0-9 _ . + -"
  | duplicateBone name => s!"duplicate bone {quoted name}"
  | badPose name pos rot => s!"bone {quoted name}: non-finite pose pos={pos.brief} rot={rot.brief}"
  | emptyVariant => "variant with empty name"
  | badVariant name => s!"variant {quoted name}: names may only contain a-z 0-9 _ . -"
  | duplicateVariant name => s!"duplicate variant {quoted name}"
  | unknownOverride variant bone =>
    s!"variant {quoted variant} overrides unknown bone {quoted bone}"
  | unknownTouched bone => s!"touched set names unknown bone {quoted bone}"

namespace Rig

/-! ### Checking -/

/-- The first fault of a list of bones, of which those named `seen` came before. -/
def boneFault : List String → List Bone → Option RigError
  | _, [] => none
  | seen, b :: bs =>
    if b.name = "" then some .emptyBone
    else if !b.name.toList.all isTagChar then some (.badBone b.name)
    else if seen.contains b.name then some (.duplicateBone b.name)
    else if !b.pos.isFinite || !b.rot.isFinite then some (.badPose b.name b.pos b.rot)
    else boneFault (b.name :: seen) bs

/-- The first fault of a list of variants, of which those named `seen` came before. -/
def variantFault (bones : List String) : List String → List Variant → Option RigError
  | _, [] => none
  | seen, v :: vs =>
    if v.name = "" then some .emptyVariant
    else if !v.name.toList.all isFunctionChar then some (.badVariant v.name)
    else if seen.contains v.name then some (.duplicateVariant v.name)
    else match v.models.find? fun m => !bones.contains m.1 with
      | some m => some (.unknownOverride v.name m.1)
      | none => variantFault bones (v.name :: seen) vs

/-- The names of the bones. -/
def boneNames (r : Rig) : List String :=
  r.bones.map (·.name)

/-- The first fault of a rig. -/
def fault (r : Rig) : Option RigError :=
  if r.bones.isEmpty then some .noBones
  else if !r.maxDistance.isFinite then some (.badDistance r.maxDistance)
  else
    boneFault [] r.bones <|> variantFault r.boneNames [] r.variants <|>
      (r.touched.find? fun t => !r.boneNames.contains t).map .unknownTouched

/-- The variant of a rig that has none. -/
def defaultVariant : Variant := ⟨"default", []⟩

/-- The bones that some variant changes, in the order of the bones. -/
def overridden (r : Rig) : List String :=
  r.boneNames.filter fun b => r.variants.any fun v => v.models.any (·.1 == b)

/-- The rig with what the input may leave out: the changed bones, and a variant. -/
def complete (r : Rig) : Rig :=
  { r with
    variants := if r.variants.isEmpty then [defaultVariant] else r.variants
    touched := if r.touched.isEmpty then r.overridden else r.touched }

/-- **Accepting a rig.** -/
def normalize (r : Rig) : Except RigError Rig :=
  match r.fault with
  | some e => .error e
  | none => .ok r.complete

/-! ### Looking into a rig -/

/-- The bones that are part of the statue. -/
def exportedBones (r : Rig) : List Bone :=
  r.bones.filter (·.exported)

/-- Some variant changes the bone. -/
def isTouched (r : Rig) (bone : String) : Bool :=
  r.touched.contains bone

/-- Some variant changes a bone that is part of the statue. -/
def touchesAny (r : Rig) : Bool :=
  r.bones.any fun b => b.exported && r.isTouched b.name

/-- One half, the margin of distances. -/
def margin : Double := .ofRatio false 1 2

/-- One hundred. -/
def hundred : Double := .ofInt 100

/-- The greatest distance of an exported bone from the root, when bones are summoned with a vertical
offset. -/
def extent (r : Rig) (headOffset : Double) : Double :=
  r.exportedBones.foldl (fun greatest b =>
    let d := (b.pos.add ⟨.zero false, headOffset, .zero false⟩).length
    if greatest.lt d then d else greatest) (.zero false)

/-- **The distance that reaches every exported bone.** -/
def requiredDistance (r : Rig) (headOffset : Double) : Double :=
  (((r.extent headOffset).add margin).mul hundred).ceil.div hundred

/-- The distance that commands use: the reported one, or the required one if that is greater. -/
def distanceBound (r : Rig) (headOffset : Double) : Double :=
  let required := r.requiredDistance headOffset
  if required.lt r.maxDistance then r.maxDistance else required

end Rig

end Statuary
