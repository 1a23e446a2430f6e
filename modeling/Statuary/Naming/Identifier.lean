import Statuary.Text.Blank
import Statuary.Text.Fold

/-!
# Identifiers from free text

A project has a name in free text, while functions and tags need an identifier over small letters,
digits, `_` and `.`. The name is folded to ASCII; every run of characters that cannot be used
becomes **one** underscore, unless one stands there already; underscores at the ends go. A name of
which nothing is left is `unnamed`.
-/

namespace Statuary

/-- A character of an identifier. -/
def isNameChar (c : Char) : Bool :=
  ('a' ≤ c && c ≤ 'z') || ('0' ≤ c && c ≤ '9') || c == '_' || c == '.'

namespace Identifier

/-- The folded text: a character where it can be used, nothing where it cannot. Marks are gone. -/
def usable (cs : List Char) : List (Option Char) :=
  cs.filterMap fun c =>
    match foldChar c with
    | .mark => none
    | .ascii d => some (if isNameChar d then some d else none)
    | .other => some none

/-- Writes one underscore for a run of unusable characters, unless the text before ends in one. -/
def squeeze (underscore : Bool) : List (Option Char) → List Char
  | [] => []
  | some c :: cs => c :: squeeze (c == '_') cs
  | none :: cs => if underscore then squeeze true cs else '_' :: squeeze true cs

/-- A text without underscores at its ends. -/
def stripUnderscores (cs : List Char) : List Char :=
  dropEnd (· == '_') (cs.dropWhile (· == '_'))

/-- **The identifier of a free text.** -/
def ofText (s : String) : String :=
  match stripUnderscores (squeeze false (usable s.toList)) with
  | [] => "unnamed"
  | cs => String.ofList cs

end Identifier

end Statuary
