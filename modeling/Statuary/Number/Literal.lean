import Statuary.Json.Basic
import Statuary.Number.Decimal

/-!
# Number literals of a wider grammar

Two inputs of the library take numbers in a wider grammar than tags do. A text in build data may be
any floating-point literal: decimal, or in base sixteen with a power of two, with underscores
between digits, or the name of an infinity or of no number (`Statuary.readFloatLiteral`). A document
may have whole numbers in bases two, eight and sixteen (`Statuary.readIntLiteral`).
-/

namespace Statuary

/-! ### Whole numbers -/

/-- The value of a digit in a base up to sixteen. -/
def digitIn? (base : Nat) (c : Char) : Option Nat :=
  (Json.hexValue? c).filter (· < base)

/-- The number that digits in a base spell; nothing for no digits. -/
def readInBase (base : Nat) (ds : List Char) : Option Nat :=
  if ds.isEmpty then none
  else ds.foldlM (fun n d => (digitIn? base d).map (base * n + ·)) 0

/-- A whole number without sign, its base told by its first characters: `0x`, `0o`, `0b`, or a zero
before octal digits. -/
def readUnsigned (cs : List Char) : Option Nat :=
  match cs with
  | ['0'] => some 0
  | '0' :: c :: ds =>
    if c == 'x' || c == 'X' then readInBase 16 ds
    else if c == 'o' || c == 'O' then readInBase 8 ds
    else if c == 'b' || c == 'B' then readInBase 2 ds
    else readInBase 8 (c :: ds)
  | ds => readInBase 10 ds

/-- A whole number of 64 bits: with a sign in the range of signed numbers, without one in that of
unsigned numbers too. -/
def readIntLiteral (cs : List Char) : Option Int :=
  let (negative, ds) := takeSign cs
  let unsigned := ds.length == cs.length
  (readUnsigned ds).bind fun n =>
    if negative then (if n ≤ signedBound 64 then some (-(n : Int)) else none)
    else if n < signedBound 64 || (unsigned && n < 2 * signedBound 64) then some (n : Int)
    else none

/-! ### Floating-point literals -/

/-- Underscores stand only between digits, or between the mark of a base and a digit. `digit` says
whether the character before was such a digit or mark, `under` whether it was an underscore. -/
def underscoresOk (hex : Bool) : Bool → Bool → List Char → Bool
  | _, under, [] => !under
  | digit, under, c :: cs =>
    if isDigit c || (hex && (Json.hexValue? c).isSome) then underscoresOk hex true false cs
    else if c == '_' then digit && underscoresOk hex false true cs
    else !under && underscoresOk hex false false cs

/-- A literal `0x digits [. digits] p [-+] digits` after its mark, in base sixteen with a power of
two. -/
def readHexFloat (negative : Bool) (cs : List Char) : Option Double := do
  let isHex (c : Char) : Bool := (Json.hexValue? c).isSome
  let (whole, cs) := cs.span isHex
  let (fraction, cs) := match cs with
    | '.' :: cs => cs.span isHex
    | cs => ([], cs)
  let m ← readInBase 16 (whole ++ fraction)
  match cs with
  | p :: cs =>
    let (down, ds) := takeSign cs
    if ds.isEmpty || !ds.all isDigit then none else
    let e := Decimal.exponentValue ds
    if p != 'p' && p != 'P' then none else
    let q : Int := (if down then -(e : Int) else e) - 4 * fraction.length
    if m = 0 then some (.zero negative)
    else if BinaryFormat.double.maxExp + BinaryFormat.double.precision ≤ m.log2 + q then
      some (.infinite negative)
    else if m.log2 + 1 + q < BinaryFormat.double.minExp - 1 then some (.zero negative)
    else some (.ofScaled negative m q)
  | [] => none

/-- **A floating-point literal.** One beyond the format is infinite. -/
def readFloatLiteral (s : String) : Option Double :=
  let cs := s.toList
  let (negative, body) := takeSign cs
  let lower := String.ofList (body.map Char.toLower)
  if lower == "inf" || lower == "infinity" then some (.infinite negative)
  else if lower == "nan" && body.length == cs.length then some .nan
  else
    match body with
    | '0' :: x :: rest =>
      if (x == 'x' || x == 'X') && !rest.isEmpty then
        if underscoresOk true true false rest then readHexFloat negative (rest.filter (· != '_'))
        else none
      else decimal cs
    | _ => decimal cs
where
  /-- A decimal literal. -/
  decimal (cs : List Char) : Option Double :=
    if underscoresOk false false false cs then
      (Decimal.read (cs.filter (· != '_'))).map (·.toBinary .double)
    else none

end Statuary
