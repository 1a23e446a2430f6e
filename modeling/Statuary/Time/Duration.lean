import Statuary.Number.Decimal

/-!
# Lengths of time

A length of time is written as one or more numbers, each with a unit, as in `1h30m` or `1.5s`; a
lone zero needs no unit. It is read as a whole number of nanoseconds, what is less than one being
dropped from each part (`Statuary.Duration.ofText?`).
-/

namespace Statuary.Duration

/-- The nanoseconds of a millisecond. -/
def millisecond : Nat := 1000000

/-- The nanoseconds of a second. -/
def second : Nat := 1000000000

/-- The nanoseconds of a unit. The small letter before `s` for a millionth is written in either of
the two ways that Unicode has for it. -/
def unit? (name : String) : Option Nat :=
  [("ns", 1), ("us", 1000), ("\u00b5s", 1000), ("\u03bcs", 1000), ("ms", millisecond),
    ("s", second), ("m", 60 * second), ("h", 3600 * second)].lookup name

/-- A number with its unit at the head of a text: its nanoseconds and what follows it. -/
def readPart (cs : List Char) : Option (Nat × List Char) := do
  let (whole, cs) := spanDigits cs
  let (fraction, cs) := match cs with
    | '.' :: cs => spanDigits cs
    | cs => ([], cs)
  if whole.isEmpty && fraction.isEmpty then none
  let (name, cs) := cs.span fun c => c ≠ '.' ∧ !isDigit c
  let unit ← unit? (String.ofList name)
  return (digitsValue (whole ++ fraction) * unit / Nat.pow 10 fraction.length, cs)

/-- The sum of at most `fuel` parts that make up a text. -/
def readParts : Nat → List Char → Option Nat
  | _, [] => some 0
  | 0, _ => none
  | fuel + 1, cs => do
    let (n, rest) ← readPart cs
    return n + (← readParts fuel rest)

/-- **The nanoseconds of a length of time**, which must fit into 64 bits. -/
def ofText? (s : String) : Option Int :=
  let (negative, cs) := takeSign s.toList
  if cs.isEmpty then none
  else if cs = ['0'] then some 0
  else do
    let n ← readParts cs.length cs
    if negative then (if n ≤ signedBound 64 then some (-(n : Int)) else none)
    else if n < signedBound 64 then some (n : Int) else none

end Statuary.Duration
