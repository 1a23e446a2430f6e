import Statuary.Text.Printable
import Statuary.Text.Utf8

/-!
# Quoted texts in diagnostics

A diagnostic shows a foreign text between quotes so that its ends and its invisible characters can
be seen. `Statuary.quoted` writes the whole text between double quotes, `Statuary.quotedChar` one
character between single quotes. The quote itself and the backslash get a backslash, seven control
characters have letters of their own, and what is not printable is written by its code point. A byte
that is part of no character is written by its number.
-/

namespace Statuary

/-- One digit of a number in base sixteen. -/
def hexDigit (n : Nat) : Char :=
  if n < 10 then Char.ofNat (48 + n) else Char.ofNat (87 + n)

/-- The last `width` digits of a number in base sixteen. -/
def hexDigits : Nat → Nat → List Char
  | 0, _ => []
  | width + 1, n => hexDigits width (n / 16) ++ [hexDigit (n % 16)]

/-- The letter that names a control character after a backslash. -/
def controlLetter (c : Char) : Option Char :=
  match c.toNat with
  | 7 => some 'a'
  | 8 => some 'b'
  | 9 => some 't'
  | 10 => some 'n'
  | 11 => some 'v'
  | 12 => some 'f'
  | 13 => some 'r'
  | _ => none

/-- A character between quotes of the given kind. -/
def quoteChar (quote c : Char) : List Char :=
  if c == quote || c == '\\' then ['\\', c]
  else if isPrintable c then [c]
  else match controlLetter c with
    | some l => ['\\', l]
    | none =>
      let n := c.toNat
      if n < 0x20 || n == 0x7F then '\\' :: 'x' :: hexDigits 2 n
      else if n < 0x10000 then '\\' :: 'u' :: hexDigits 4 n
      else '\\' :: 'U' :: hexDigits 8 n

/-- A byte that is part of no character, between quotes. -/
def quoteByte (b : UInt8) : List Char :=
  '\\' :: 'x' :: hexDigits 2 b.toNat

/-- A text between double quotes. -/
def quoted (s : String) : String :=
  String.ofList ('"' :: (Utf8.spell (quoteChar '"') quoteByte s ++ ['"']))

/-- A character between single quotes. -/
def quotedChar (c : Char) : String :=
  String.ofList ('\'' :: (quoteChar '\'' c ++ ['\'']))

/-- The first byte of a character in UTF-8, as a code point. -/
def firstByte (c : Char) : Char :=
  let n := c.toNat
  if let some b := Utf8.carried? c then Char.ofNat b.toNat
  else if n < 0x80 then c
  else if n < 0x800 then Char.ofNat (0xC0 + n / 0x40)
  else if n < 0x10000 then Char.ofNat (0xE0 + n / 0x1000)
  else Char.ofNat (0xF0 + n / 0x40000)

/-- The number of bytes of a text in UTF-8. -/
def byteCount (cs : List Char) : Nat :=
  cs.foldr (fun c n => Utf8.width c + n) 0

end Statuary
