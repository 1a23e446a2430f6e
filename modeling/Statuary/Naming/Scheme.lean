import Statuary.Naming.Template

/-!
# The tags and types of an export

Every entity of a statue carries tags by which commands find it again: one that all entities of the
rig share, one of the root, one of all bones and one of a single bone. They come from four templates
(`Statuary.TagScheme`), into which the project is filled once and the name of a bone where it is
needed (`Statuary.Tags.bone`).

Which entities a bone is made of depends on the bone type: an armour stand alone, or an armour stand
riding on an area effect cloud (`Statuary.EntityTypes`).
-/

namespace Statuary

/-- The templates of the tags. -/
structure TagScheme where
  /-- The tag of every entity of the rig. -/
  model : String
  /-- The tag of the root. -/
  root : String
  /-- The tag of every bone. -/
  allBones : String
  /-- The tag of one bone. -/
  bone : String
  deriving DecidableEq, Repr

/-- The tags of one project. -/
structure Tags where
  /-- The tag of every entity of the rig, across all instances. -/
  model : String
  /-- The tag of the root. -/
  root : String
  /-- The tag of every bone. -/
  allBones : String
  /-- The template of the tag of one bone, the project filled in. -/
  boneTemplate : String
  deriving DecidableEq, Repr

/-- Fills a project into every template. -/
def TagScheme.resolve (s : TagScheme) (project : String) : Tags :=
  let bind (t : String) := Template.format t [(Template.projectKey, project)]
  ⟨bind s.model, bind s.root, bind s.allBones, bind s.bone⟩

/-- The tag that only the entities of the named bone carry. -/
def Tags.bone (t : Tags) (name : String) : String :=
  Template.format t.boneTemplate [(Template.boneKey, name)]

/-- The bone type made of an armour stand alone. -/
def armorStandType : String := "armorStand"

/-- The bone type made of an armour stand on an area effect cloud. -/
def cloudType : String := "aecStack"

/-- The name of the group of all entity types that bones are made of. -/
def boneGroup : String := "bone_entities"

/-- The entity types of one export. -/
structure EntityTypes where
  /-- The group that matches every bone entity. -/
  bone : String
  /-- The type of the root. -/
  root : String
  /-- The type of the entity that a bone is summoned as. -/
  boneRoot : String
  /-- The type of the entity riding on it, if it does not wear the model itself. -/
  boneDisplay : Option String
  deriving DecidableEq, Repr

namespace EntityTypes

/-- The entity types for a bone type; an unknown one is that of armour stands. -/
def ofBoneType (project root boneType : String) : EntityTypes :=
  let bone := "#" ++ project ++ ":" ++ boneGroup
  if boneType = cloudType then
    ⟨bone, root, "minecraft:area_effect_cloud", some "minecraft:armor_stand"⟩
  else ⟨bone, root, "minecraft:armor_stand", none⟩

/-- The type of the entity that wears the model. -/
def display (t : EntityTypes) : String :=
  t.boneDisplay.getD t.boneRoot

/-- The members of the group of bone entities. -/
def group (t : EntityTypes) : List String :=
  t.boneRoot :: t.boneDisplay.toList

end EntityTypes

/-- The two scoreboard objectives that give instances their identity. -/
structure Objectives where
  /-- Holds the last number given out. -/
  internal : String
  /-- Holds the number of the instance of an entity. -/
  id : String
  deriving DecidableEq, Repr

end Statuary
