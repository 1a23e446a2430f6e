import Statuary.Number.Decimal
import Statuary.Tag.Basic

/-!
# Unquoted words

A word without quotes is a number, a truth value or a text, and its letters decide which. A whole
number may end in the letter of its width, a binary number in `f` or `d`; a number **that does not
fit its width is a text**, as is everything that is no number at all. So a word is never cut short
and a value never wraps: `Statuary.Tag.scalar` keeps either the exact value or the exact letters.
-/

namespace Statuary

/-- A character of an unquoted word. -/
def isBareChar (c : Char) : Bool :=
  ('a' ≤ c && c ≤ 'z') || ('A' ≤ c && c ≤ 'Z') || ('0' ≤ c && c ≤ '9') ||
    c == '_' || c == '-' || c == '.' || c == '+'

/-- A decimal numeral read in a format; a number beyond the format is none. -/
def readBinary (f : BinaryFormat) (cs : List Char) : Option (Binary f) :=
  ((Decimal.read cs).map (·.toBinary f)).filter (·.isFinite)

namespace Tag

/-- The number that a word with the letter of a width at its end stands for. -/
def suffixed? (body : List Char) (letter : Char) : Option Tag :=
  match letter.toLower with
  | 'b' => (readSigned 8 body).map (.byte <| Int8.ofInt ·)
  | 's' => (readSigned 16 body).map (.short <| Int16.ofInt ·)
  | 'l' => (readSigned 64 body).map (.long <| Int64.ofInt ·)
  | 'f' => (readBinary .single body).map .float
  | 'd' => (readBinary .double body).map .double
  | _ => none

/-- The number that a word without such a letter stands for. A whole number is never read as a
binary one. -/
def unsuffixed? (word : List Char) : Option Tag :=
  if (readInteger word).isSome then (readSigned 32 word).map (.int <| Int32.ofInt ·)
  else (readBinary .double word).map .double

/-- The truth value that a word spells in any case, as a number. -/
def truth? (word : List Char) : Option Tag :=
  match word.map Char.toLower with
  | ['t', 'r', 'u', 'e'] => some (.byte 1)
  | ['f', 'a', 'l', 's', 'e'] => some (.byte 0)
  | _ => none

/-- **The tag of an unquoted word.** -/
def scalar (word : List Char) : Tag :=
  let number? := match word.getLast? with
    | none => none
    | some letter => suffixed? word.dropLast letter <|> unsuffixed? word
  (truth? word <|> number?).getD (.string (String.ofList word))

end Tag

end Statuary
