import Statuary.Text.Search

/-!
# Templates

A template is a text with places `%key` in it. Filling it in is **one pass from left to right**: at
each percent sign the longest bound key that follows is replaced by its value, and the pass goes on
after the key; what a value brings in is never looked at again. A percent sign that no bound key
follows stands for itself.
-/

namespace Statuary

/-- The values of the keys of a template. -/
abbrev Bindings := List (String × String)

namespace Template

/-- The longer of two keys that fit; the first on a tie. -/
def longer (a b : Option (String × String)) : Option (String × String) :=
  match a, b with
  | none, b => b
  | a, none => a
  | some a, some b => if Utf8.size a.1 < Utf8.size b.1 then some b else some a

/-- The longest bound key at the head of a text, with its value. -/
def longestKey (bindings : Bindings) (cs : List Char) : Option (String × String) :=
  (bindings.filter fun b => (dropLead? b.1.toList cs).isSome).foldl
    (fun best b => longer best (some b)) none

/-- Fills in the text after its first `skip` characters, which belong to a key that was replaced. -/
def fill (bindings : Bindings) : Nat → List Char → List Char
  | _, [] => []
  | skip + 1, _ :: cs => fill bindings skip cs
  | 0, c :: cs =>
    if c = '%' then
      match longestKey bindings cs with
      | some (key, value) => value.toList ++ fill bindings key.length cs
      | none => c :: fill bindings 0 cs
    else c :: fill bindings 0 cs

/-- **Filling in a template.** -/
def format (template : String) (bindings : Bindings) : String :=
  String.ofList (fill bindings 0 template.toList)

/-- The key of the name of a project. -/
def projectKey : String := "projectName"

/-- The key of the name of a bone. -/
def boneKey : String := "boneName"

end Template

end Statuary
