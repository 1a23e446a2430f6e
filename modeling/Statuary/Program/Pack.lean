import Statuary.Files.Path
import Statuary.Json.Writer
import Statuary.Program.Basic

/-!
# The files of a pack

The game runs functions that are plain lists of commands. A program is brought into that form by
giving every inner body **a function of its own**, numbered in the order in which the bodies begin,
and by compiling a branch into a flag: the flag is cleared, raised where the condition holds, and
two lines test it, one for each body.

Compiling yields structured lines first (`Statuary.PackLine`); what a generated line calls and which
flag it uses can be read off them without looking into texts. `Statuary.PackLine.text` writes them.
-/

namespace Statuary

/-- A file of a pack, its path counted from the root of the pack. -/
structure PackFile where
  /-- The path. -/
  path : String
  /-- The content. -/
  data : String
  deriving DecidableEq, Repr

/-- What a pack is made for. -/
structure PackOptions where
  /-- The namespace of the functions. -/
  space : String
  /-- The directory of the functions made for inner bodies; empty for the usual one. -/
  generated : String := ""
  /-- The objective that holds the flags of branches. -/
  flagObjective : String := ""
  /-- The version of the format of the pack. -/
  packFormat : Int := 0
  /-- The description shown for the pack. -/
  description : String := ""
  /-- The function to run when the pack is loaded, if the program has it. -/
  loadFunction : String := ""

/-- The directory of the functions made for inner bodies. -/
def PackOptions.generatedDir (o : PackOptions) : String :=
  if o.generated = "" then "zzz" else o.generated

/-- Why a program cannot be packed. -/
inductive PackError where
  /-- The namespace is empty. -/
  | emptySpace
  /-- There is a branch and no objective for its flag. -/
  | noFlagObjective
  deriving DecidableEq, Repr

/-- The text of an error. -/
def PackError.message : PackError → String
  | emptySpace => "flatten: empty namespace"
  | noFlagObjective => "flatten: if/else needs a flag objective"

/-- A line of a compiled function. -/
inductive PackLine where
  /-- A command of the program. -/
  | command (text : String)
  /-- Runs generated function `n` in every context the head selects. -/
  | call (head : String) (n : Nat)
  /-- Clears a flag. -/
  | clear (flag : Nat)
  /-- Raises a flag where the condition holds. -/
  | raise (flag : Nat) (cond : String)
  /-- Runs generated function `n` in every context the condition selects, if the flag is up. -/
  | callIf (flag : Nat) (cond : String) (n : Nat)
  /-- Runs generated function `n` if the flag is down. -/
  | callUnless (flag : Nat) (n : Nat)
  deriving DecidableEq, Repr

namespace PackOptions

/-- The reference to generated function `n`. -/
def reference (o : PackOptions) (n : Nat) : String :=
  o.space ++ ":" ++ o.generatedDir ++ "/" ++ toString n

/-- A flag and its objective. -/
def flag (o : PackOptions) (n : Nat) : String :=
  "#if_" ++ toString n ++ " " ++ o.flagObjective

end PackOptions

/-- The text of a line. -/
def PackLine.text (o : PackOptions) : PackLine → String
  | command c => c
  | call head n => head ++ " function " ++ o.reference n
  | clear f => "scoreboard players set " ++ o.flag f ++ " 0"
  | raise f cond => "execute " ++ cond ++ " run scoreboard players set " ++ o.flag f ++ " 1"
  | callIf f cond n =>
    "execute if score " ++ o.flag f ++ " matches 1 " ++ cond ++ " run function " ++ o.reference n
  | callUnless f n =>
    "execute if score " ++ o.flag f ++ " matches 0 run function " ++ o.reference n

/-! ### Compiling bodies -/

/-- How many functions and flags have been used. -/
structure Counters where
  /-- The number of the next generated function. -/
  functions : Nat := 0
  /-- The number of the next flag. -/
  flags : Nat := 0
  deriving DecidableEq, Repr

/-- A compiled body: its lines, the generated functions it needs in the order in which they are
complete, and the counters after it. -/
structure Compiled where
  /-- The lines. -/
  lines : List PackLine
  /-- The generated functions, by number. -/
  generated : List (Nat × List PackLine)
  /-- The counters after it. -/
  after : Counters

mutual

/-- Compiles a body. -/
def compileBody (c : Counters) : List Statement → Compiled
  | [] => ⟨[], [], c⟩
  | n :: ns =>
    let first := compileStatement c n
    let rest := compileBody first.after ns
    ⟨first.lines ++ rest.lines, first.generated ++ rest.generated, rest.after⟩

/-- Compiles an element. An inner body gets its number before the bodies inside it. -/
def compileStatement (c : Counters) : Statement → Compiled
  | .line command => ⟨[.command command], [], c⟩
  | .block head body =>
    let inner := compileBody { c with functions := c.functions + 1 } body
    ⟨[.call head c.functions], inner.generated ++ [(c.functions, inner.lines)], inner.after⟩
  | .branch cond yes no =>
    let f := c.flags
    let n := c.functions
    let first := compileBody ⟨n + 1, f + 1⟩ yes
    let head := [.clear f, .raise f cond, .callIf f cond n]
    let made := first.generated ++ [(n, first.lines)]
    if no.isEmpty then ⟨head, made, first.after⟩
    else
      let m := first.after.functions
      let second := compileBody { first.after with functions := m + 1 } no
      ⟨head ++ [.callUnless f m], made ++ second.generated ++ [(m, second.lines)], second.after⟩

end

/-! ### Compiling members -/

/-- What a file of a pack is made of. -/
inductive PackPart where
  /-- A generated function. -/
  | generated (n : Nat) (lines : List PackLine)
  /-- A function of the program, by its names from the top. -/
  | function (path : List String) (lines : List PackLine)
  /-- A group of entity types, by its names from the top. -/
  | group (path : List String) (values : Option (List String))

mutual

/-- Compiles members below the named directories. -/
def compileItems (dirs : List String) (c : Counters) : List Item → List PackPart × Counters
  | [] => ([], c)
  | i :: is =>
    let (first, c) := compileItem dirs c i
    let (rest, c) := compileItems dirs c is
    (first ++ rest, c)

/-- Compiles a member below the named directories. -/
def compileItem (dirs : List String) (c : Counters) : Item → List PackPart × Counters
  | .function name body =>
    let compiled := compileBody c body
    (compiled.generated.map (fun (n, ls) => .generated n ls) ++
      [.function (dirs ++ [name]) compiled.lines], compiled.after)
  | .dir name items => compileItems (dirs ++ [name]) c items
  | .group name values => ([.group (dirs ++ [name]) values], c)

end

/-! ### Writing files -/

/-- The members of a JSON object or array, one a line, two blanks for each level. -/
def jsonLines (depth : Nat) (opening closing : String) (members : List String) : String :=
  let pad (n : Nat) := String.ofList (List.replicate (2 * n) ' ')
  match members with
  | [] => opening ++ closing
  | ms => opening ++ "\n" ++ ",\n".intercalate (ms.map (pad (depth + 1) ++ ·)) ++ "\n" ++
      pad depth ++ closing

/-- The JSON text of a group or tag: an object with the list of its values. -/
def valuesJson (values : Option (List String)) : String :=
  let list := match values with
    | none => "null"
    | some vs => jsonLines 1 "[" "]" (vs.map Json.ofText)
  jsonLines 0 "\x7b" "\x7d" ["\"values\": " ++ list] ++ "\n"

/-- The JSON text that describes the pack. -/
def metaJson (o : PackOptions) : String :=
  let inner := jsonLines 1 "\x7b" "\x7d"
    ["\"description\": " ++ Json.ofText o.description,
      "\"pack_format\": " ++ Json.ofInt o.packFormat]
  jsonLines 0 "\x7b" "\x7d" ["\"pack\": " ++ inner] ++ "\n"

namespace PackPart

/-- The path of a function by its names. -/
def functionPath (o : PackOptions) (names : List String) : String :=
  Path.join ("data" :: o.space :: "functions" :: names) ++ ".mcfunction"

/-- The path of a group by its names, the last of which gets the ending of the file. -/
def groupPath (o : PackOptions) (names : List String) : String :=
  let names := names.dropLast ++ (names.getLast?.map (· ++ ".json")).toList
  Path.join ("data" :: o.space :: "tags" :: "entity_types" :: names)

/-- The text of a function: the comment lines of the program, then its own. -/
def functionText (o : PackOptions) (header : List String) (lines : List PackLine) : String :=
  String.join (header.map (fun h => "#" ++ h ++ "\n") ++ lines.map (·.text o ++ "\n"))

/-- The file of a part. -/
def file (o : PackOptions) (header : List String) : PackPart → PackFile
  | generated n lines =>
    ⟨functionPath o [o.generatedDir, toString n], functionText o header lines⟩
  | function path lines => ⟨functionPath o path, functionText o header lines⟩
  | group path values => ⟨groupPath o path, valuesJson values⟩

end PackPart

namespace Program

/-- The parts of the pack of a program. -/
def packParts (p : Program) : List PackPart :=
  (compileItems [] {} p.items).1

/-- The file that has a function run when the pack is loaded, if the program has that function. -/
def loadFile (p : Program) (o : PackOptions) : List PackFile :=
  if o.loadFunction ≠ "" ∧ (p.function? o.loadFunction).isSome then
    [⟨"data/minecraft/tags/functions/load.json",
      valuesJson (some [o.space ++ ":" ++ o.loadFunction])⟩]
  else []

/-- **The files of the pack of a program**, in the order in which they are complete. -/
def pack (p : Program) (o : PackOptions) : Except PackError (List PackFile) :=
  if o.space = "" then .error .emptySpace
  else if o.flagObjective = "" ∧ itemsHaveBranch p.items then .error .noFlagObjective
  else .ok (p.packParts.map (·.file o p.header) ++ [⟨"pack.mcmeta", metaJson o⟩] ++ p.loadFile o)

end Program

end Statuary
