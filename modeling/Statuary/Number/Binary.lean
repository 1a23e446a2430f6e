/-!
# Binary floating-point numbers

Positions, angles and distances are binary numbers of a fixed width, and the texts the program
writes depend on their last bit. This file has them as exact objects: a finite number is a sign,
a mantissa and an exponent, and every operation computes the exact result first and rounds it
**once**, to the nearest number of the format, a tie going to the even mantissa.

The one obstacle is that the same value has many pairs `m · 2 ^ q`. So a finite number carries the
proof that its pair is the canonical one (`Statuary.BinaryFormat.Canonical`): the exponent is the
least of the format, or the mantissa fills the precision. Two finite numbers are then equal as
terms exactly when they have the same sign and value, and "this text reads back as that number" is
a plain equation.

* `Statuary.Binary.ofRatio` rounds a fraction, and everything else goes through it;
* `Statuary.Binary.add`, `mul`, `div`, `sqrt`, `ceil`, `roundAway` are the arithmetic;
* `Statuary.Binary.same` and `Statuary.Binary.lt` compare by value, `nan` being apart from all.
-/

namespace Statuary

/-- A binary format: the numbers `± m · 2 ^ q` with `m < 2 ^ precision` and
`minExp ≤ q ≤ maxExp`. -/
structure BinaryFormat where
  /-- Bits of a mantissa. -/
  precision : Nat
  /-- The exponent of the least unit. -/
  minExp : Int
  /-- The exponent of the greatest unit. -/
  maxExp : Int
  /-- There is a unit. -/
  minExp_le_maxExp : minExp ≤ maxExp := by decide

namespace BinaryFormat

/-- The format of 32 bits. -/
def single : BinaryFormat where
  precision := 24
  minExp := -149
  maxExp := 104

/-- The format of 64 bits. -/
def double : BinaryFormat where
  precision := 53
  minExp := -1074
  maxExp := 971

/-- `m · 2 ^ q` is written with the one pair that the format has for its value. -/
def Canonical (f : BinaryFormat) (m : Nat) (q : Int) : Prop :=
  m < Nat.pow 2 f.precision ∧ f.minExp ≤ q ∧ q ≤ f.maxExp ∧
    (q = f.minExp ∨ Nat.pow 2 f.precision ≤ 2 * m)

instance (f : BinaryFormat) (m : Nat) (q : Int) : Decidable (f.Canonical m q) := by
  unfold Canonical
  infer_instance

/-- Zero is canonical at the least exponent. -/
theorem canonical_zero (f : BinaryFormat) : f.Canonical 0 f.minExp :=
  ⟨Nat.two_pow_pos _, Int.le_refl _, f.minExp_le_maxExp, .inl rfl⟩

end BinaryFormat

/-- A number of the format `f`. -/
inductive Binary (f : BinaryFormat) where
  /-- The result of an operation that has none. -/
  | nan
  /-- Larger than every finite number, or smaller. -/
  | infinite (negative : Bool)
  /-- The number `± mantissa · 2 ^ exponent`; zero keeps its sign. -/
  | finite (negative : Bool) (mantissa : Nat) (exponent : Int)
      (canonical : f.Canonical mantissa exponent)
  deriving DecidableEq

/-- A number of 32 bits. -/
abbrev Single := Binary .single

/-- A number of 64 bits. -/
abbrev Double := Binary .double

/-! ### Fractions and whole roots -/

/-- The whole number nearest to `n / d`, a tie going to the even one. -/
def roundDivEven (n d : Nat) : Nat :=
  let q := n / d
  let r := n % d
  if 2 * r < d then q else if d < 2 * r then q + 1 else q + q % 2

/-- The greatest `r < 2 ^ k` above `base` with `r * r ≤ n`, found bit by bit. -/
def rootBelow (n : Nat) : Nat → Nat → Nat
  | 0, base => base
  | k + 1, base =>
    let next := base + Nat.pow 2 k
    rootBelow n k (if next * next ≤ n then next else base)

/-- The whole part of the square root of `n`. -/
def wholeRoot (n : Nat) : Nat :=
  rootBelow n (n.log2 / 2 + 1) 0

/-- The fraction `n / d` divided by `2 ^ q`. -/
def scaleDown (n d : Nat) : Int → Nat × Nat
  | .ofNat k => (n, d <<< k)
  | .negSucc k => (n <<< (k + 1), d)

namespace Binary

variable {f : BinaryFormat}

/-- Zero with a sign. -/
def zero (negative : Bool) : Binary f :=
  .finite negative 0 f.minExp f.canonical_zero

/-- **Rounding.** The number of the format nearest to `n / d` with the given sign; beyond the
greatest one it is infinite. The exponent is the one that leaves `precision` bits before the
point, or the least of the format; a mantissa rounded up to a power of two moves to the next
exponent. -/
def ofRatio (negative : Bool) (n d : Nat) : Binary f :=
  if n = 0 then zero negative else
  let guess : Int := (n.log2 : Int) - d.log2 - f.precision
  let (a, b) := scaleDown n d guess
  let q := max f.minExp (if a < b <<< f.precision then guess else guess + 1)
  let (a, b) := scaleDown n d q
  let m := roundDivEven a b
  let (m, q) := if m < Nat.pow 2 f.precision then (m, q) else (m / 2, q + 1)
  if h : f.Canonical m q then .finite negative m q h else .infinite negative

/-- The number nearest to `m · 2 ^ q`. -/
def ofScaled (negative : Bool) (m : Nat) (q : Int) : Binary f :=
  let (n, d) := scaleDown m 1 (-q)
  ofRatio negative n d

/-- The number nearest to a whole number. -/
def ofInt (n : Int) : Binary f :=
  ofRatio (n < 0) n.natAbs 1

/-! ### Tests and order -/

/-- The number has a value. -/
def isFinite : Binary f → Bool
  | .finite .. => true
  | _ => false

/-- The number is the result of no operation. -/
def isNaN : Binary f → Bool
  | .nan => true
  | _ => false

/-- The number is a zero of either sign. -/
def isZero : Binary f → Bool
  | .finite _ m _ _ => m == 0
  | _ => false

/-- Equality of values: `nan` equals nothing, and the two zeros are equal. -/
def same (x y : Binary f) : Bool :=
  !x.isNaN && (x == y || (x.isZero && y.isZero))

/-- The mantissa with its sign. -/
def signed (negative : Bool) (m : Nat) : Int :=
  if negative then -(m : Int) else m

/-- Two signed mantissas brought to the smaller of the two exponents. -/
def align (a : Int) (p : Int) (b : Int) (q : Int) : Int × Int × Int :=
  let e := min p q
  (a * Nat.pow 2 (p - e).toNat, b * Nat.pow 2 (q - e).toNat, e)

/-- Less by value; nothing is less than `nan` or more than it. -/
def lt : Binary f → Binary f → Bool
  | .nan, _ => false
  | _, .nan => false
  | .infinite s, .infinite t => s && !t
  | .infinite s, .finite .. => s
  | .finite .., .infinite t => !t
  | .finite s m p _, .finite t n q _ =>
    let (a, b, _) := align (signed s m) p (signed t n) q
    a < b

/-! ### Arithmetic -/

/-- The sum. Two numbers that cancel give the positive zero. -/
def add : Binary f → Binary f → Binary f
  | .nan, _ => .nan
  | _, .nan => .nan
  | .infinite s, .infinite t => if s == t then .infinite s else .nan
  | .infinite s, .finite .. => .infinite s
  | .finite .., .infinite t => .infinite t
  | .finite s m p _, .finite t n q _ =>
    let (a, b, e) := align (signed s m) p (signed t n) q
    let sum := a + b
    if sum = 0 then zero (s && t) else ofScaled (sum < 0) sum.natAbs e

/-- The product. -/
def mul : Binary f → Binary f → Binary f
  | .nan, _ => .nan
  | _, .nan => .nan
  | .infinite s, .infinite t => .infinite (s ^^ t)
  | .infinite s, .finite t n _ _ => if n = 0 then .nan else .infinite (s ^^ t)
  | .finite s m _ _, .infinite t => if m = 0 then .nan else .infinite (s ^^ t)
  | .finite s m p _, .finite t n q _ => ofScaled (s ^^ t) (m * n) (p + q)

/-- The quotient. -/
def div : Binary f → Binary f → Binary f
  | .nan, _ => .nan
  | _, .nan => .nan
  | .infinite _, .infinite _ => .nan
  | .infinite s, .finite t _ _ _ => .infinite (s ^^ t)
  | .finite s _ _ _, .infinite t => zero (s ^^ t)
  | .finite s m p _, .finite t n q _ =>
    if n = 0 then (if m = 0 then .nan else .infinite (s ^^ t)) else
    let (a, b) := scaleDown m n (q - p)
    ofRatio (s ^^ t) a b

/-- The square root. The mantissa is first widened by an even number of bits, so that the whole
root has more bits than the format keeps; a remainder is remembered as one further bit, which is
enough to round correctly because the root is then never a tie. -/
def sqrt : Binary f → Binary f
  | .nan => .nan
  | .infinite s => if s then .nan else .infinite false
  | .finite s m q _ =>
    if m = 0 then zero s else if s then .nan else
    let odd := (q % 2).toNat
    let wide := m <<< (odd + 2 * (f.precision + 2))
    let root := wholeRoot wide
    let sticky := if root * root = wide then 0 else 1
    ofScaled false (2 * root + sticky) ((q - odd) / 2 - (f.precision + 2) - 1)

/-- The whole number `n` with the sign of a number that it was cut from. -/
def whole (negative : Bool) (n : Nat) : Binary f :=
  ofRatio negative n 1

/-- The least whole number that is not below. -/
def ceil : Binary f → Binary f
  | .finite s m (.negSucc k) _ =>
    let unit := Nat.pow 2 (k + 1)
    whole s (if s then m / unit else (m + unit - 1) / unit)
  | x => x

/-- The nearest whole number, a tie going away from zero. -/
def roundAway : Binary f → Binary f
  | .finite s m (.negSucc k) _ => whole s ((m + Nat.pow 2 k) / Nat.pow 2 (k + 1))
  | x => x

/-- The nearest number of another format. -/
def convert {g : BinaryFormat} : Binary f → Binary g
  | .nan => .nan
  | .infinite s => .infinite s
  | .finite s m q _ => ofScaled s m q

/-! ### First facts -/

/-- A number with a value is the same as itself. -/
theorem same_self {x : Binary f} (h : x.isFinite = true) : x.same x = true := by
  cases x <;> simp_all [same, isNaN, isFinite]

end Binary

end Statuary
