import Statuary.Number.Decimal

/-!
# The shortest decimal of a binary number

A binary number is written with the **fewest digits that read back as the same number**. For one,
two, three… digits the two neighbours of the value on that decimal grid are tried, and a neighbour
counts only if *reading it gives the number again*: that reading undoes writing is then built into
the definition rather than argued from intervals. Where both neighbours count the nearer one is
taken, and on a tie the even one. Seventeen digits always suffice; should none be found, the exact
expansion is used, which every binary number has.

Main definitions: `Statuary.Binary.shortest`, and `Statuary.Binary.text` for the texts of all
numbers, `NaN` and the infinities included.
-/

namespace Statuary

namespace Binary

variable {f : BinaryFormat}

/-- The power of ten of the first digit of `n / d`. -/
def magnitudeOf (n d : Nat) : Int :=
  if d ≤ n then ((natDigits (n / d)).length : Int) - 1
  else
    let k := (natDigits (d / n)).length
    if d ≤ n * Nat.pow 10 (k - 1) then -((k : Int) - 1) else -(k : Int)

/-- The value `n / d` measured in units of `10 ^ e`, as a fraction. -/
def inUnits (n d : Nat) : Int → Nat × Nat
  | .ofNat k => (n, d * Nat.pow 10 k)
  | .negSucc k => (n * Nat.pow 10 (k + 1), d)

/-- The neighbour of `n / d` on the grid of `10 ^ e` that reads back as `x`, the nearer one if both
do. -/
def onGrid (x : Binary f) (negative : Bool) (n d : Nat) (e : Int) : Option Decimal :=
  let (a, b) := inUnits n d e
  let low := a / b
  let down : Decimal := ⟨negative, low, e⟩
  let up : Decimal := ⟨negative, low + 1, e⟩
  let isDown := down.toBinary f = x
  let isUp := up.toBinary f = x
  if isDown ∧ isUp then some (if roundDivEven a b = low then down else up)
  else if isDown then some down
  else if isUp then some up
  else none

/-- Every digit of `± m · 2 ^ q`. -/
def expansion (negative : Bool) (m : Nat) : Int → Decimal
  | .ofNat k => ⟨negative, m * Nat.pow 2 k, 0⟩
  | .negSucc k => ⟨negative, m * Nat.pow 5 (k + 1), -((k : Int) + 1)⟩

/-- The most digits that are tried. -/
def maxDigits : Nat := 17

/-- **The shortest decimal** of `± m · 2 ^ q`, where that number is `x`. -/
def shortestOf (x : Binary f) (negative : Bool) (m : Nat) (q : Int) : Decimal :=
  let (n, d) := scaleDown m 1 (-q)
  let top := magnitudeOf n d
  match (List.range maxDigits).findSome? fun (k : Nat) => onGrid x negative n d (top - k) with
  | some y => y
  | none => expansion negative m q

/-- The shortest decimal of a number, if it has a value. -/
def shortest : Binary f → Option Decimal
  | .finite s m q h =>
    some (if m = 0 then ⟨s, 0, 0⟩ else (shortestOf (.finite s m q h) s m q).trim)
  | _ => none

/-- The text of a number in a style. -/
def text (style : DecimalStyle) (x : Binary f) : List Char :=
  match x with
  | .nan => ['N', 'a', 'N']
  | .infinite s => (if s then '-' else '+') :: ['I', 'n', 'f']
  | .finite .. => (x.shortest.map style.write).getD []

/-- Positional text of a number. -/
def plain (x : Binary f) : String :=
  String.ofList (x.text .plain)

/-- The text of a number in a diagnostic. -/
def brief (x : Binary f) : String :=
  String.ofList (x.text .brief)

/-- The number rounded to a fixed count of places after the point, a tie in the exact value going
to the even digit. -/
def fixed (places : Nat) (x : Binary f) : String :=
  match x with
  | .finite s m q _ =>
    let (n, d) := scaleDown m 1 (-q)
    String.ofList (Decimal.positional ⟨s, roundDivEven (n * Nat.pow 10 places) d, -(places : Int)⟩)
  | x => x.plain

end Binary

end Statuary
