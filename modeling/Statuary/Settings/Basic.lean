import Statuary.Naming.Identifier
import Statuary.Naming.Scheme
import Statuary.Number.Shortest
import Statuary.Text.Blank

/-!
# Project settings

The settings of a project say how its tags are made, what its bones are made of, and where the
exported program goes. Everything an export derives from them is a function here: the identifier of
the project, its tags, entity types and objectives, the vertical offset of bones and the output
path.
-/

namespace Statuary

/-- The settings of a project. -/
structure Settings where
  /-- The name of the project, free text. -/
  projectName : String := "statue"
  /-- The item that bones wear. -/
  rigItem : String := "minecraft:white_dye"
  /-- The template of the tag of every entity. -/
  modelTag : String := "aj.%projectName"
  /-- The template of the tag of the root. -/
  rootTag : String := "aj.%projectName.root"
  /-- The template of the tag of every bone. -/
  allBonesTag : String := "aj.%projectName.bone"
  /-- The template of the tag of one bone. -/
  boneTag : String := "aj.%projectName.bone.%boneName"
  /-- The entity type of the root. -/
  rootEntityType : String := "minecraft:marker"
  /-- What a bone is made of. -/
  boneType : String := armorStandType
  /-- Armour stands are without a body. -/
  markerArmorStands : Bool := true
  /-- The objective of the counter and of flags. -/
  internalObjective : String := "aj.i"
  /-- The objective of the numbers of statues. -/
  idObjective : String := "aj.id"
  /-- How the program is exported. -/
  exportMode : String := "mcb"
  /-- Where source text goes. -/
  sourcePath : String := ""
  /-- Where a pack goes. -/
  packPath : String := ""
  /-- The version of the format of packs. -/
  packFormat : Int64 := 10
  /-- The vertical offset of bones, if it is not the usual one. -/
  headOffset : Option Double := none
  deriving DecidableEq

/-- The export mode that writes a pack. -/
def packMode : String := "datapack"

namespace Settings

/-- The identifier of the project. -/
def project (s : Settings) : String :=
  Identifier.ofText s.projectName

/-- The templates of the tags. -/
def scheme (s : Settings) : TagScheme :=
  ⟨s.modelTag, s.rootTag, s.allBonesTag, s.boneTag⟩

/-- The tags of the project. -/
def tags (s : Settings) : Tags :=
  s.scheme.resolve s.project

/-- The objectives of the project. -/
def objectives (s : Settings) : Objectives :=
  ⟨s.internalObjective, s.idObjective⟩

/-- The entity types of the project. -/
def entityTypes (s : Settings) : EntityTypes :=
  .ofBoneType s.project s.rootEntityType s.boneType

/-- How far below the place of a bone its armour stand is summoned, so that its head is at the
place. -/
def standOffset : Double := (Decimal.mk true 1813 (-3)).toBinary .double

/-- The same for an armour stand that rides on a cloud and sits higher for that. -/
def ridingOffset : Double := (Decimal.mk true 1413 (-3)).toBinary .double

/-- The vertical offset of bones. -/
def effectiveOffset (s : Settings) : Double :=
  s.headOffset.getD (if s.boneType = cloudType then ridingOffset else standOffset)

/-- Where the program goes; empty if nothing was chosen. -/
def outputPath (s : Settings) : String :=
  trim (if s.exportMode = packMode then s.packPath else s.sourcePath)

end Settings

end Statuary
