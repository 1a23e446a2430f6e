import Statuary.Number.Binary

/-!
# Decimal numerals

A decimal numeral is a sign, a whole number of units and a power of ten. Reading one as a binary
number is a single rounding of its exact value, so a text is never read through an approximation
(`Statuary.Decimal.toBinary`). The only care needed is for exponents of many digits: a power of ten
far outside the format is recognised before it is computed.

The two written forms of a numeral are here too: positional digits and a mantissa with an exponent.
Which of them a place of the output uses is a `Statuary.DecimalStyle`.
-/

namespace Statuary

/-- The decimal number `± units · 10 ^ exponent`. -/
structure Decimal where
  /-- Below zero, or the zero with a minus sign. -/
  negative : Bool
  /-- The digits, read as one whole number. -/
  units : Nat
  /-- The power of ten of the last digit. -/
  exponent : Int
  deriving DecidableEq, Repr

/-! ### Digits -/

/-- A decimal digit. -/
def isDigit (c : Char) : Bool :=
  '0' ≤ c && c ≤ '9'

/-- The value of a digit. -/
def digitValue (c : Char) : Nat :=
  c.toNat - 48

/-- The whole number a run of digits spells. -/
def digitsValue (ds : List Char) : Nat :=
  ds.foldl (fun n d => 10 * n + digitValue d) 0

/-- The digits of a whole number, without leading zeros. -/
def natDigits (n : Nat) : List Char :=
  Nat.toDigits 10 n

/-- The digits of a whole number with a minus sign where it is negative. -/
def intDigits (n : Int) : List Char :=
  if n < 0 then '-' :: natDigits n.natAbs else natDigits n.natAbs

/-- The run of digits at the head of a text, and what follows it. -/
def spanDigits (cs : List Char) : List Char × List Char :=
  cs.span isDigit

/-- The sign at the head of a text, and what follows it. -/
def takeSign : List Char → Bool × List Char
  | '-' :: cs => (true, cs)
  | '+' :: cs => (false, cs)
  | cs => (false, cs)

/-- A whole number `[-+] digits`; the whole text must be used. -/
def readInteger (cs : List Char) : Option Int :=
  let (negative, ds) := takeSign cs
  if ds.isEmpty || !ds.all isDigit then none
  else some (if negative then -(digitsValue ds : Int) else digitsValue ds)

/-- One more than the greatest whole number of `bits` bits with a sign. -/
def signedBound (bits : Nat) : Nat :=
  Nat.pow 2 (bits - 1)

/-- A whole number has `bits` bits with a sign. -/
def isSigned (bits : Nat) (n : Int) : Bool :=
  -(signedBound bits : Int) ≤ n && n < signedBound bits

/-- A whole number of `bits` bits with a sign. -/
def readSigned (bits : Nat) (cs : List Char) : Option Int :=
  (readInteger cs).filter (isSigned bits)

namespace Decimal

/-! ### Reading -/

/-- **Reading a numeral.** The number of the format nearest to the exact decimal value. Powers of
ten beyond every unit of the format are infinite or vanish without being computed. -/
def toBinary (x : Decimal) (f : BinaryFormat) : Binary f :=
  if x.units = 0 then .zero x.negative
  else if f.maxExp + f.precision ≤ x.exponent then .infinite x.negative
  else if x.units.log2 + 1 + 3 * x.exponent < f.minExp - 1 then .zero x.negative
  else match x.exponent with
    | .ofNat k => .ofRatio x.negative (x.units * Nat.pow 10 k) 1
    | .negSucc k => .ofRatio x.negative x.units (Nat.pow 10 (k + 1))

/-- The number that the digits of an exponent spell. From ten thousand on further digits do not
count: what they could change is far outside every format. -/
def exponentValue (ds : List Char) : Nat :=
  ds.foldl (fun n d => if n < 10000 then 10 * n + digitValue d else n) 0

/-- The exponent part `e±digits` of a numeral, or the empty text for none. -/
def readExponent : List Char → Option Int
  | [] => some 0
  | c :: cs =>
    if c == 'e' || c == 'E' then
      let (negative, ds) := takeSign cs
      if ds.isEmpty || !ds.all isDigit then none
      else some (if negative then -(exponentValue ds : Int) else exponentValue ds)
    else none

/-- A numeral of the form `[-+] digits [. digits] [e [-+] digits]` with a digit on at least one
side of the point; the whole text must be used. -/
def read (cs : List Char) : Option Decimal :=
  let (negative, cs) := takeSign cs
  let (whole, cs) := spanDigits cs
  let (fraction, cs) := match cs with
    | '.' :: cs => spanDigits cs
    | cs => ([], cs)
  if whole.isEmpty && fraction.isEmpty then none else
  match readExponent cs with
  | none => none
  | some e => some ⟨negative, digitsValue (whole ++ fraction), e - fraction.length⟩

/-! ### Writing -/

/-- Removes zeros at the end of the digits, at most `fuel` of them. -/
def stripZeros : Nat → Nat → Int → Nat × Int
  | 0, n, e => (n, e)
  | fuel + 1, n, e => if n % 10 = 0 then stripZeros fuel (n / 10) (e + 1) else (n, e)

/-- The same number without zeros at the end of its digits; zero has exponent zero. -/
def trim (x : Decimal) : Decimal :=
  if x.units = 0 then { x with exponent := 0 } else
  let (n, e) := stripZeros (natDigits x.units).length x.units x.exponent
  { x with units := n, exponent := e }

/-- The minus sign, where there is one. -/
def sign (x : Decimal) : List Char :=
  if x.negative then ['-'] else []

/-- Positional digits: zeros fill the places between the digits and the point. -/
def positional (x : Decimal) : List Char :=
  let ds := natDigits x.units
  x.sign ++ match x.exponent with
    | .ofNat k => if x.units = 0 then ds else ds ++ List.replicate k '0'
    | .negSucc k =>
      let places := k + 1
      let ds := List.replicate (places + 1 - ds.length) '0' ++ ds
      ds.take (ds.length - places) ++ '.' :: ds.drop (ds.length - places)

/-- The power of ten of the first digit. -/
def magnitude (x : Decimal) : Int :=
  x.exponent + ((natDigits x.units).length : Int) - 1

/-- One digit before the point, and an exponent of at least `width` digits with its sign. -/
def scientific (width : Nat) (x : Decimal) : List Char :=
  let ds := natDigits x.units
  let e := x.magnitude
  let es := natDigits e.natAbs
  x.sign ++ ds.take 1 ++ (if ds.length ≤ 1 then [] else '.' :: ds.drop 1) ++
    'e' :: (if e < 0 then '-' else '+') :: (List.replicate (width - es.length) '0' ++ es)

end Decimal

/-- How a place of the output writes numbers: which magnitudes are positional, and how many digits
an exponent has at least. -/
structure DecimalStyle where
  /-- The least magnitude written positionally; none for all. -/
  least : Option Int
  /-- The least magnitude that is too large for positional digits; none for no limit. -/
  bound : Option Int
  /-- Digits of an exponent. -/
  width : Nat

namespace DecimalStyle

/-- Positional digits for every number. -/
def plain : DecimalStyle := ⟨none, none, 0⟩

/-- Positional digits from `0.0001` up to `999999`, as in diagnostics. -/
def brief : DecimalStyle := ⟨some (-4), some 6, 2⟩

/-- The numbers of a JSON text: positional digits from `0.000001` up to `10^21`. -/
def json : DecimalStyle := ⟨some (-6), some 21, 1⟩

/-- Writes a numeral without superfluous zeros in this style. -/
def write (s : DecimalStyle) (x : Decimal) : List Char :=
  if x.units ≠ 0 ∧ (s.least.any (x.magnitude < ·) ∨ s.bound.any (· ≤ x.magnitude)) then
    x.scientific s.width
  else x.positional

end DecimalStyle

end Statuary
