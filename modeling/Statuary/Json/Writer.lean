import Statuary.Number.Shortest
import Statuary.Text.Quoted

/-!
# Writing JSON texts

The JSON texts the library writes go into commands, files and messages that are compared byte by
byte, so they are written piece by piece: a value is its text already, and an array or object joins
the texts of its parts. Texts are escaped so that they can also stand inside a page of markup: `<`,
`>`, `&` and the two line separators of Unicode are written by their code points. For a byte that is
part of no character the replacement character stands.
-/

namespace Statuary.Json

/-- A character inside a JSON text. -/
def escapeChar (c : Char) : List Char :=
  match c with
  | '"' => ['\\', '"']
  | '\\' => ['\\', '\\']
  | '\n' => ['\\', 'n']
  | '\r' => ['\\', 'r']
  | '\t' => ['\\', 't']
  | c =>
    let n := c.toNat
    if n = 8 then ['\\', 'b']
    else if n = 12 then ['\\', 'f']
    else if n < 0x20 || c == '<' || c == '>' || c == '&' || n == 0x2028 || n == 0x2029 then
      '\\' :: 'u' :: hexDigits 4 n
    else Utf8.ofChar c

/-- A text as a JSON value. -/
def ofText (s : String) : String :=
  let cs := if s.any Utf8.isCarrier then Utf8.spell escapeChar (fun _ => [Utf8.replacement]) s
    else s.toList.flatMap escapeChar
  String.ofList ('"' :: (cs ++ ['"']))

/-- A whole number as a JSON value. -/
def ofInt (n : Int) : String :=
  String.ofList (intDigits n)

/-- A truth value as a JSON value. -/
def ofBool (b : Bool) : String :=
  if b then "true" else "false"

/-- A number as a JSON value, if it has a value. -/
def ofDouble? (x : Double) : Option String :=
  if x.isFinite then some (String.ofList (x.text .json)) else none

/-- An array on one line. -/
def ofItems (values : List String) : String :=
  "[" ++ ",".intercalate values ++ "]"

/-- An object on one line, its members in the given order. -/
def ofMembers (members : List (String × String)) : String :=
  "\x7b" ++ ",".intercalate (members.map fun (k, v) => ofText k ++ ":" ++ v) ++ "\x7d"

end Statuary.Json
