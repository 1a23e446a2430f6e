import Statuary.Tag.Printer
import Statuary.Text.Search

/-!
# Filling the model number into a command

The number of the model that a bone wears differs from variant to variant, while the rest of its
summon command does not. The command is therefore written once, with a reserved text where the
number belongs, and the text is replaced for each variant. The replacement works on the written
command: it looks for the reserved text **with its quotes**, and only the first place counts.
-/

namespace Statuary

/-- The reserved text that stands for the number of a model. -/
def placeholder : String := "%customModelData"

/-- Replaces the first occurrence of the quoted `marker` in a command by `expr`, without quotes. The
result says whether there was one. -/
def substituteFirst (text marker expr : String) : String × Bool :=
  match splitAtFirst (Tag.quote marker) text.toList with
  | none => (text, false)
  | some (before, after) => (String.ofList (before ++ expr.toList ++ after), true)

end Statuary
