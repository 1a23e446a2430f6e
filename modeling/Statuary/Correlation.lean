import Statuary.Json.Writer
import Statuary.Naming.Scheme
import Statuary.Program.Basic
import Statuary.Tag.Printer

/-!
# Which bones belong to which statue

The game has no references between entities, so a statue is a *condition*: entities with the tags of
the rig, of the right type, near enough to the root, whose number equals the root's. The number is
taken from a counter when the statue is summoned and copied to every member **while the members
still carry the tag of new entities**; after that the tag is dropped, and the number alone tells
statues apart.

The functions of this file say what is done as steps of that protocol (`Statuary.Step`), each of
which has one text (`Statuary.Correlation.statement`). A reader who wants to know what a function
does to the entities reads the steps; the game reads the texts.
-/

namespace Statuary

/-- The tag of entities whose summoning is not finished. -/
def newTag : String := "new"

/-- The holder of the last number given out. -/
def lastIdHolder : String := ".aj.last_id"

/-- The holder of the number of the statue at hand. -/
def thisHolder : String := ".this"

/-- What commands need to know to find the members of a statue. -/
structure Correlation where
  /-- The identifier of the project. -/
  project : String
  /-- The tags of the project. -/
  tags : Tags
  /-- The entity types of the project. -/
  types : EntityTypes
  /-- The objectives that hold numbers. -/
  objectives : Objectives
  /-- A distance within which every bone stands from its root. -/
  distance : Double

/-- A single order to the game. -/
inductive Order where
  /-- Creates an objective. -/
  | addObjective (name : String)
  /-- Summons a root with the tag of new entities. -/
  | summonRoot
  /-- Gives the executing entity the next number. -/
  | mintId
  /-- A command that comes from elsewhere. -/
  | run (command : String)
  /-- Gives the executing entity the number given out last. -/
  | takeId
  /-- Turns the executing entity as the root is turned. -/
  | align
  /-- Takes the tag of new entities from the executing entity. -/
  | dropNew
  /-- Kills every root of the rig. -/
  | killRoots
  /-- Kills every bone of the rig. -/
  | killBones
  /-- Remembers the number of the executing entity. -/
  | rememberId
  /-- Kills the bones near by that have the remembered number. -/
  | killRemembered
  /-- Kills the executing entity. -/
  | killSelf
  /-- Tells who runs a function that only a root may run it. -/
  | usage (function : String)
  deriving DecidableEq, Repr

/-- A step of a function: an order, or steps in other contexts. -/
inductive Step where
  /-- An order. -/
  | order (o : Order)
  /-- As the root near by that is new, at its place. -/
  | asNewRoot (body : List Step)
  /-- As every new entity of the rig near by. -/
  | asNewBones (body : List Step)
  /-- As every entity near by that wears a model and has the remembered number. -/
  | asRemembered (body : List Step)
  /-- As the executing entity if it is a root, else something else. -/
  | ifRoot (yes no : List Step)

/-- **The message for wrong use** of a function, which only an entity with the root tag may run. -/
def usageMessage (function rootTag : String) : String :=
  let part (s color : String) : String :=
    Json.ofMembers [("text", Json.ofText s), ("color", Json.ofText color)]
  Json.ofItems [Json.ofText "", part "AJ" "green", part " → " "light_purple", part "Error ←" "red",
    Json.ofText "\n", part function "blue", Json.ofText " ", part "must be executed as " "gray",
    part rootTag "light_purple"]

namespace Correlation

/-! ### Texts -/

/-- The distance in a selector. -/
def reach (p : Correlation) : String :=
  p.distance.plain

/-- A selector of entities by type and tags, with further conditions. -/
def selector (type : String) (tags : List String) (more : List String) : String :=
  "@e[" ++ ",".intercalate (("type=" ++ type) :: tags.map ("tag=" ++ ·) ++ more) ++ "]"

/-- The text of an order. -/
def orderText (p : Correlation) : Order → String
  | .addObjective name => "scoreboard objectives add " ++ name ++ " dummy"
  | .summonRoot =>
    let data := Tag.compound [("Tags", .strings [p.tags.model, p.tags.root, newTag])]
    "summon " ++ p.types.root ++ " ~ ~ ~ " ++ data.render .compact
  | .mintId =>
    "execute store result score @s " ++ p.objectives.id ++ " run scoreboard players add " ++
      lastIdHolder ++ " " ++ p.objectives.internal ++ " 1"
  | .run command => command
  | .takeId =>
    "scoreboard players operation @s " ++ p.objectives.id ++ " = " ++ lastIdHolder ++ " " ++
      p.objectives.internal
  | .align => "tp @s ~ ~ ~ ~ ~"
  | .dropNew => "tag @s remove " ++ newTag
  | .killRoots => "kill " ++ selector p.types.root [p.tags.model] []
  | .killBones => "kill " ++ selector p.types.bone [p.tags.model] []
  | .rememberId =>
    "scoreboard players operation " ++ thisHolder ++ " " ++ p.objectives.id ++ " = @s " ++
      p.objectives.id
  | .killRemembered =>
    "execute as " ++ selector p.types.bone [p.tags.model] ["distance=.." ++ p.reach] ++
      " if score @s " ++ p.objectives.id ++ " = " ++ thisHolder ++ " " ++ p.objectives.id ++
      " run kill @s"
  | .killSelf => "kill @s"
  | .usage function => "tellraw @s " ++ usageMessage (p.project ++ ":" ++ function) p.tags.root

/-- The head of the block run as the new root. -/
def newRootHead (p : Correlation) : String :=
  "execute as " ++ selector p.types.root [p.tags.root, newTag] ["distance=..1", "limit=1"] ++
    " at @s rotated ~ 0 run"

/-- The head of the block run as the new bones. -/
def newBonesHead (p : Correlation) : String :=
  "execute as " ++ selector p.types.bone [p.tags.model, newTag] ["distance=.." ++ p.reach] ++
    " positioned as @s run"

/-- The head of the block run as the entities with the remembered number. -/
def rememberedHead (p : Correlation) : String :=
  "execute as " ++ selector p.types.display [p.tags.allBones] ["distance=.." ++ p.reach] ++
    " if score @s " ++ p.objectives.id ++ " = " ++ thisHolder ++ " " ++ p.objectives.id ++ " run"

/-- The condition that the executing entity is a root. -/
def rootCondition (p : Correlation) : String :=
  "if entity @s[tag=" ++ p.tags.root ++ "] at @s"

mutual

/-- **The program text of steps.** -/
def statements (p : Correlation) : List Step → List Statement
  | [] => []
  | s :: ss => statement p s :: statements p ss

/-- The program text of a step. -/
def statement (p : Correlation) : Step → Statement
  | .order o => .line (p.orderText o)
  | .asNewRoot body => .block p.newRootHead (statements p body)
  | .asNewBones body => .block p.newBonesHead (statements p body)
  | .asRemembered body => .block p.rememberedHead (statements p body)
  | .ifRoot yes no => .branch p.rootCondition (statements p yes) (statements p no)

end

/-! ### Functions -/

/-- Steps that only a root may run; anyone else is told so. -/
def asRoot (function : String) (steps : List Step) : List Step :=
  [.ifRoot steps [.order (.usage function)]]

/-- Creates the two objectives. -/
def install (p : Correlation) : List Step :=
  [.order (.addObjective p.objectives.internal), .order (.addObjective p.objectives.id)]

/-- **Summons a statue**, given the commands that summon its bones: the root takes a number, summons
the bones, hands the number to all that is new, and at last is no longer new itself. -/
def summon (boneSummons : List String) : List Step :=
  [.order .summonRoot,
    .asNewRoot (.order .mintId :: boneSummons.map (fun c => .order (.run c)) ++
      [.asNewBones [.order .takeId, .order .align, .order .dropNew], .order .dropNew])]

/-- Kills every entity of the rig. -/
def removeAll : List Step :=
  [.order .killRoots, .order .killBones]

/-- Kills the statue whose root runs the function. -/
def removeThis : List Step :=
  asRoot "remove/this" [.order .rememberId, .order .killRemembered, .order .killSelf]

/-- Runs commands as every entity of the statue that wears a model. -/
def setVariant (variant : String) (commands : List String) : List Step :=
  asRoot ("set_variant/" ++ variant)
    [.order .rememberId, .asRemembered (commands.map fun c => .order (.run c))]

end Correlation

end Statuary
