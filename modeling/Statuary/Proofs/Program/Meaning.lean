import Mathlib.Data.Int.Notation
import Mathlib.Data.Nat.Notation
import Mathlib.Logic.Function.Basic
import Statuary.Program.Pack

/-!
# What programs and packs do

A program and the pack made of it are run here, each in its own way, over **one interpretation** of
their texts: a command changes the world from a context, and the head of a block or the condition of
a branch selects contexts (`Statuary.Interpretation`). Neither sees the flags of branches, which are
kept beside the world.

* `Statuary.Interpretation.runBody` runs the body of a function as the tree it is.
* `Statuary.Interpretation.runFile` runs a file of a pack, line by line. A line that calls runs the
  file found at the path of the called function, so it matters that no other file is there. That the
  text of a line says what the line is has to be shown (`Statuary.PackLine.read_text`).

A file could call itself without an end, so a run of files is given a number of calls that it may
nest and has no result beyond it.
-/

namespace Statuary

/-- The meaning of the texts in a program, for worlds `W` and executing contexts `C`. -/
structure Interpretation (W C : Type) where
  /-- What a command does in a context. -/
  command : String → C → W → W
  /-- The contexts that the head of a block selects. -/
  head : String → C → W → List C
  /-- The contexts that a condition selects; it holds if there is one. -/
  cond : String → C → W → List C

/-- A world and the scores of the flags; a score may be missing. -/
@[ext]
structure Flagged (W : Type) where
  /-- The world. -/
  world : W
  /-- The scores of the flags. -/
  flags : ℕ → Option ℤ

/-- The world with the score of a flag set. -/
def Flagged.setFlag {W : Type} (s : Flagged W) (f : ℕ) (v : ℤ) : Flagged W :=
  { s with flags := Function.update s.flags f (some v) }

namespace Interpretation

variable {W C : Type} (I : Interpretation W C)

/-! ### Bodies -/

mutual

/-- **Running a body**: its statements one after another. -/
def runBody : List Statement → C → W → W
  | [], _, w => w
  | s :: ss, x, w => runBody ss x (runStatement s x w)

/-- Running a statement. A block runs in every context its head selects; a branch runs its first
body in every context the condition selects, and if there is none the second body where it stands.
-/
def runStatement : Statement → C → W → W
  | .line text, x, w => I.command text x w
  | .block head body, x, w => (I.head head x w).foldl (fun w y => runBody body y w) w
  | .branch cond yes no, x, w =>
    match I.cond cond x w with
    | [] => runBody no x w
    | y :: ys => (y :: ys).foldl (fun w y => runBody yes y w) w

end

/-! ### Files -/

/-- Running a line, given what calling a generated function does. -/
def runLine (call : ℕ → C → Flagged W → Option (Flagged W)) :
    PackLine → C → Flagged W → Option (Flagged W)
  | .command text, x, s => some { s with world := I.command text x s.world }
  | .call head n, x, s => (I.head head x s.world).foldlM (fun s y => call n y s) s
  | .clear f, _, s => some (s.setFlag f 0)
  | .raise f cond, x, s => some ((I.cond cond x s.world).foldl (fun s _ => s.setFlag f 1) s)
  | .callIf f cond n, x, s =>
    if s.flags f = some 1 then (I.cond cond x s.world).foldlM (fun s y => call n y s) s else some s
  | .callUnless f n, x, s => if s.flags f = some 0 then call n x s else some s

/-- Running lines one after another. -/
def runLines (call : ℕ → C → Flagged W → Option (Flagged W)) (lines : List PackLine) (x : C)
    (s : Flagged W) : Option (Flagged W) :=
  lines.foldlM (fun s l => I.runLine call l x s) s

/-- **Running a file**, given what is found at each path and the paths of the generated functions.
There is no result if a file is missing or calls are nested too deeply. -/
def runFile (files : String → Option (List PackLine)) (target : ℕ → String) :
    ℕ → String → C → Flagged W → Option (Flagged W)
  | 0, _, _, _ => none
  | k + 1, path, x, s =>
    (files path).bind fun lines => I.runLines (fun n => runFile files target k (target n)) lines x s

end Interpretation

/-! ### The files of a pack -/

namespace PackPart

/-- The lines of a part that is a function. -/
def lines? : PackPart → Option (List PackLine)
  | generated _ lines => some lines
  | function _ lines => some lines
  | group .. => none

end PackPart

namespace PackOptions

/-- The path of generated function `n`. -/
def generatedPath (o : PackOptions) (n : ℕ) : String :=
  PackPart.functionPath o [o.generatedDir, toString n]

end PackOptions

namespace Program

/-- The functions of a pack with their paths, in the order in which they are written. -/
def functionFiles (p : Program) (o : PackOptions) : List (String × List PackLine) :=
  p.packParts.filterMap fun part =>
    part.lines?.map fun lines => ((part.file o p.header).path, lines)

/-- The lines found at a path once all files are written: those that were written there last. -/
def linesAt (p : Program) (o : PackOptions) (path : String) : Option (List PackLine) :=
  (p.functionFiles o).reverse.lookup path

end Program

mutual

/-- The functions among the members below the named directories: names from the top, and body. -/
def functionsIn (dirs : List String) : List Item → List (List String × List Statement)
  | [] => []
  | i :: is => functionsOf dirs i ++ functionsIn dirs is

/-- The functions of a member below the named directories. -/
def functionsOf (dirs : List String) : Item → List (List String × List Statement)
  | .function name body => [(dirs ++ [name], body)]
  | .dir name items => functionsIn (dirs ++ [name]) items
  | .group .. => []

end

/-- The functions of a program: names from the top, and body. -/
def Program.functions (p : Program) : List (List String × List Statement) :=
  functionsIn [] p.items

end Statuary
