import Statuary.Json.Basic

/-!
# The fields of a message

A message is a JSON object with known fields, and its reader is forgiving in a fixed way: names
match whatever their case, unknown names are passed over, of a repeated field the last value counts,
and `null` leaves a field as it is. What is not forgiven is a value of the wrong kind, wherever it
stands (`Statuary.Json.textField?`, `Statuary.Json.intField?`). Nor are values inside one another
beyond a limit, whether they belong to a field or not (`Statuary.Json.readMessage?`).
-/

namespace Statuary.Json

/-- A character up to case. Two characters beyond ASCII have a letter of ASCII for their other case.
-/
def foldCase (c : Char) : Char :=
  if c.toNat = 0x17F then 's' else if c.toNat = 0x212A then 'k' else c.toLower

/-- Two names are the same up to case. -/
def sameName (a b : String) : Bool :=
  a.toList.map foldCase == b.toList.map foldCase

/-- How many arrays and objects are around a character of a text at most, given how many are around
its beginning, how many there were at most before it, and whether it begins inside a text value. -/
def deepest (depth most : Nat) (inText : Bool) : List Char → Nat
  | [] => most
  | c :: cs =>
    if inText then
      if c = '\\' then
        match cs with
        | [] => most
        | _ :: cs => deepest depth most true cs
      else deepest depth most (c ≠ '"') cs
    else if c = '"' then deepest depth most true cs
    else if c = '[' || c = '\x7b' then deepest (depth + 1) (max most (depth + 1)) false cs
    else if c = ']' || c = '\x7d' then deepest (depth - 1) most false cs
    else deepest depth most false cs

/-- The most arrays and objects of a message inside one another. -/
def messageDepth : Nat := 10000

/-- Reads the text of a message. -/
def readMessage? (s : String) : Option Json :=
  if messageDepth < deepest 0 0 false s.toList then none else read? .alone s

/-- The members of a message; `null` has none, and any other value is no message. -/
def message? : Json → Option (List (String × Json))
  | .object ms _ => some ms
  | .null => some []
  | _ => none

/-- The value of a field, given how its values are read and its value when it is missing. -/
def field? {α : Type} (read : Json → Option α) (default : α) (name : String)
    (ms : List (String × Json)) : Option α :=
  ms.foldlM (fun old (k, v) =>
    if sameName k name then
      match v with
      | .null => some old
      | v => read v
    else some old) default

/-- A field that holds a text. -/
def textField? (name : String) (ms : List (String × Json)) : Option String :=
  field? text? "" name ms

/-- A whole number of 64 bits, written without fraction and exponent. -/
def int? : Json → Option Int
  | .number ds => readSigned 64 ds.toList
  | _ => none

/-- A field that holds a whole number. -/
def intField? (name : String) (ms : List (String × Json)) : Option Int :=
  field? int? 0 name ms

end Statuary.Json
