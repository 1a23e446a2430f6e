import Statuary.Text.Utf8

/-!
# Searching and splitting texts

Texts are searched as lists of characters, so that "the first occurrence" is a definition by
recursion on the text. `Statuary.splitAtFirst` cuts a text at the first occurrence of another one;
`Statuary.splitOnChar` cuts at every occurrence of a character.
-/

namespace Statuary

/-- The rest of a text after a given beginning, if it begins so. -/
def dropLead? : List Char → List Char → Option (List Char)
  | [], cs => some cs
  | _ :: _, [] => none
  | p :: ps, c :: cs => if p = c then dropLead? ps cs else none

/-- **The first occurrence.** The text before the first occurrence of `pat` and the text after it,
if there is one. -/
def splitAtFirst (pat : List Char) : List Char → Option (List Char × List Char)
  | [] => if pat.isEmpty then some ([], []) else none
  | c :: cs =>
    match dropLead? pat (c :: cs) with
    | some rest => some ([], rest)
    | none => (splitAtFirst pat cs).map fun (before, after) => (c :: before, after)

/-- The pieces of a text between the occurrences of a character; one more than there are
occurrences. -/
def splitOnChar (sep : Char) : List Char → List (List Char)
  | [] => [[]]
  | c :: cs =>
    if c = sep then [] :: splitOnChar sep cs
    else match splitOnChar sep cs with
      | [] => [[c]]
      | p :: ps => (c :: p) :: ps

/-- A text begins with another one. -/
def startsWith (pat s : String) : Bool :=
  (dropLead? pat.toList s.toList).isSome

/-- A text contains another one. -/
def contains (pat s : String) : Bool :=
  (splitAtFirst pat.toList s.toList).isSome

/-- The order of texts by their bytes. -/
def textLt (a b : String) : Bool :=
  Utf8.encode a < Utf8.encode b

/-- A text cut at its beginning continues it: nothing is lost. -/
theorem dropLead?_eq_some {p s r : List Char} (h : dropLead? p s = some r) : s = p ++ r := by
  induction p generalizing s with
  | nil => simpa [dropLead?] using h
  | cons a p ih =>
    cases s with
    | nil => simp [dropLead?] at h
    | cons c s =>
      simp only [dropLead?] at h
      split at h
      · rename_i hac
        simp [hac, ih h]
      · simp at h

end Statuary
