import Statuary.Correlation
import Statuary.Rig.Basic
import Statuary.Settings.Basic
import Statuary.Tag.Parser
import Statuary.Tag.Placeholder

/-!
# The data of a bone and the command that summons it

A bone brings data of its own, and an export adds what every bone needs. The two meet in **three
ways**: tags are added to those of the bone; the pose of the head and the worn item are written only
where the bone does not have them; and the flags that must hold for every bone are written over
whatever was there (`Statuary.Bone.payload`).

The data is written once, whatever the variant, with the placeholder for the number of the model
(`Statuary.placeholder`).

A bone whose display entity is of another type than its root is summoned as an area effect cloud
that never ages, the display entity riding on it (`Statuary.Bone.summonTag`).
-/

namespace Statuary

/-- Why a bone has no data. -/
inductive PayloadError where
  /-- The data of the bone cannot be read. -/
  | unreadable (bone : String) (e : SyntaxError)
  /-- The tags of the bone are no list. -/
  | tagsNoList (bone : String) (found : Kind)
  /-- The tags of the bone are a list of something other than texts. -/
  | tagsOther (bone : String) (elem : Kind)
  /-- The pose of the bone is no compound. -/
  | poseNoCompound (bone : String)
  deriving DecidableEq, Repr

/-- The text of an error. -/
def PayloadError.message : PayloadError → String
  | unreadable bone e => s!"bone {quoted bone}: {e.message}"
  | tagsNoList bone found => s!"bone {quoted bone}: Tags is {found.name}, want list of string"
  | tagsOther bone elem =>
    s!"bone {quoted bone}: Tags is list of {elem.name}, want list of string"
  | poseNoCompound bone => s!"bone {quoted bone}: Pose is not a compound"

namespace Bone

/-- The tags that a bone has of its own. -/
def ownTags (b : Bone) (es : Entries) : Except PayloadError (List Tag) :=
  match es.lookup "Tags" with
  | none => .ok []
  | some (.list elem items) =>
    if elem = .string ∨ (elem = .untyped ∧ items.isEmpty) then .ok items
    else .error (.tagsOther b.name elem)
  | some other => .error (.tagsNoList b.name other.kind)

/-- The tags that an export gives a bone. -/
def addedTags (b : Bone) (tags : Tags) : List String :=
  [newTag, tags.model, tags.allBones, tags.bone b.name]

/-- The rotation of the head. -/
def headPose (b : Bone) : Tag :=
  .list .float [.float b.rot.x.convert, .float b.rot.y.convert, .float b.rot.z.convert]

/-- The pose that a bone has of its own. -/
def ownPose (b : Bone) (es : Entries) : Except PayloadError Entries :=
  match es.lookup "Pose" with
  | none => .ok []
  | some (.compound pose) => .ok pose
  | some _ => .error (.poseNoCompound b.name)

/-- What a bone wears: nothing but the item on its head, whose model is still open. -/
def defaultArmor (item : String) : Tag :=
  .list .compound [.compound [], .compound [], .compound [],
    .compound [("id", .string item), ("Count", .byte 1),
      ("tag", .compound [("CustomModelData", .string placeholder)])]]

/-- Locks every slot. -/
def disabledSlots : Int32 := 4144959

/-- The entries that every bone must have. -/
def flags (marker : Bool) : Entries :=
  [("Marker", .byte (if marker then 1 else 0)), ("NoGravity", .byte 1), ("Invisible", .byte 1),
    ("DisabledSlots", .int disabledSlots)]

/-- **The data of the entity that wears the model of a bone.** -/
def payload (b : Bone) (tags : Tags) (s : Settings) : Except PayloadError Entries := do
  let own ← (Tag.parseCompound b.nbt).mapError (PayloadError.unreadable b.name)
  let ownTags ← b.ownTags own
  let es := Assoc.put "Tags" (.list .string (ownTags ++ (b.addedTags tags).map .string)) own
  let pose ← b.ownPose es
  let es := Assoc.put "Pose" (.compound (Assoc.putNew "Head" b.headPose pose)) es
  let es := Assoc.putNew "ArmorItems" (defaultArmor s.rigItem) es
  return (flags s.markerArmorStands).foldl (fun es e => Assoc.put e.1 e.2 es) es

/-! ### Summoning -/

/-- The age of a cloud that never ends. -/
def endless : Int32 := Int32.minValue

/-- **The data of the entity that a bone is summoned as**, given the data of the entity that wears
the model. -/
def summonTag (b : Bone) (payload : Entries) (tags : Tags) (types : EntityTypes) : Tag :=
  match types.boneDisplay with
  | none => .compound payload
  | some display =>
    .compound [("Tags", .strings [newTag, tags.model, tags.bone b.name]), ("Age", .int endless),
      ("Duration", .int (-1)), ("WaitTime", .int endless),
      ("Passengers", .list .compound
        [.compound (Tag.mergeEntries [("id", .string display)] payload)])]

/-- One million. -/
def million : Double := .ofInt 1000000

/-- The text of a coordinate, without what is below a millionth. -/
def coordinate (x : Double) : String :=
  let rounded := (x.mul million).roundAway.div million
  if rounded.isZero then "0" else rounded.plain

/-- Where a bone is summoned, in local coordinates. -/
def summonPlace (b : Bone) (offset : Double) : String :=
  "^" ++ coordinate b.pos.x ++ " ^" ++ coordinate (b.pos.y.add offset) ++ " ^" ++
    coordinate b.pos.z

/-- **The command that summons a bone** where the root stands. The placeholder in the data is left
in it. -/
def summonCommand (b : Bone) (payload : Entries) (tags : Tags) (types : EntityTypes)
    (offset : Double) : String :=
  "summon " ++ types.boneRoot ++ " " ++ b.summonPlace offset ++ " " ++
    (b.summonTag payload tags types).render .compact

end Bone

end Statuary
