import Mathlib.Algebra.Order.Field.Power
import Mathlib.Algebra.Order.Floor.Semifield
import Mathlib.Data.Int.Log
import Mathlib.Data.Rat.Floor
import Mathlib.Tactic.FieldSimp
import Mathlib.Tactic.Linarith
import Mathlib.Tactic.Positivity
import Mathlib.Tactic.Ring
import Statuary.Number.Binary

/-!
# Rounding depends on the value alone

`Statuary.Binary.ofRatio` rounds a fraction given by a numerator and a denominator, and finds the
exponent of the result from their numbers of bits. The same value has many fractions, with different
numbers of bits, so it is not evident that all of them are rounded to one number. Here rounding is
written once more, as a function of the rational number that the fraction stands for: the exponent
of its unit is read off the logarithm of the value (`Statuary.Binary.unitOf`), and the value in that
unit goes to the nearest whole number (`Statuary.nearestEven`). The two agree
(`Statuary.Binary.ofRatio_eq`), and from then on no proof looks at bits again.

What follows is what reading and writing numerals rests on:

* `Statuary.Binary.ofRatio_canonical`: a number of the format is rounded to itself;
* `Statuary.Binary.ofRatio_of_le`, `Statuary.Binary.ofRatio_of_lt`: where a value is too large for
  the format, and where it vanishes.
-/

namespace Statuary

/-! ### The nearest whole number -/

/-- The whole number nearest to a rational number that is not negative, a tie going to the even
one. -/
def nearestEven (v : ℚ) : ℕ :=
  if 2 * (v - ⌊v⌋₊) < 1 then ⌊v⌋₊
  else if 1 < 2 * (v - ⌊v⌋₊) then ⌊v⌋₊ + 1
  else ⌊v⌋₊ + ⌊v⌋₊ % 2

@[simp] theorem nearestEven_natCast (n : ℕ) : nearestEven n = n := by
  simp [nearestEven]

theorem nearestEven_eq_zero {v : ℚ} (h : 2 * v < 1) : nearestEven v = 0 := by
  have hfloor : ⌊v⌋₊ = 0 := Nat.floor_eq_zero.mpr (by linarith)
  rw [nearestEven, hfloor, if_pos (by simpa using h)]

/-- The distance of a fraction from the whole number below it is what the remainder says. -/
theorem two_mul_div_sub_floor (n : ℕ) {d : ℕ} (hd : 0 < d) :
    2 * ((n : ℚ) / d - (n / d : ℕ)) = ((2 * (n % d) : ℕ) : ℚ) / d := by
  have hd' : (d : ℚ) ≠ 0 := by exact_mod_cast hd.ne'
  have hdm : (n : ℚ) = d * (n / d : ℕ) + (n % d : ℕ) := by exact_mod_cast (Nat.div_add_mod n d).symm
  push_cast
  rw [eq_div_iff hd']
  calc 2 * ((n : ℚ) / d - (n / d : ℕ)) * d = 2 * (n - d * (n / d : ℕ)) := by
        field_simp
    _ = 2 * (n % d : ℕ) := by rw [hdm]; ring

theorem roundDivEven_eq (n : ℕ) {d : ℕ} (hd : 0 < d) :
    roundDivEven n d = nearestEven ((n : ℚ) / d) := by
  have hd' : (0 : ℚ) < d := by exact_mod_cast hd
  have hfloor : ⌊(n : ℚ) / d⌋₊ = n / d := Nat.floor_div_eq_div n d
  have hlt : (2 * ((n : ℚ) / d - (n / d : ℕ)) < 1) ↔ 2 * (n % d) < d := by
    rw [two_mul_div_sub_floor n hd, div_lt_one hd', Nat.cast_lt]
  have hgt : (1 < 2 * ((n : ℚ) / d - (n / d : ℕ))) ↔ d < 2 * (n % d) := by
    rw [two_mul_div_sub_floor n hd, one_lt_div hd', Nat.cast_lt]
  rw [nearestEven, hfloor]
  simp only [hlt, hgt]
  rfl

/-! ### Fractions in a unit -/

theorem scaleDown_snd_pos {n d : ℕ} (hd : 0 < d) (q : ℤ) : 0 < (scaleDown n d q).2 := by
  cases q with
  | ofNat k =>
    change 0 < d <<< k
    rw [Nat.shiftLeft_eq]
    positivity
  | negSucc k => exact hd

theorem scaleDown_ratio (n d : ℕ) (q : ℤ) :
    ((scaleDown n d q).1 : ℚ) / (scaleDown n d q).2 = (n : ℚ) / d / 2 ^ q := by
  cases q with
  | ofNat k =>
    change (n : ℚ) / ((d <<< k : ℕ) : ℚ) = _
    rw [Nat.shiftLeft_eq, Int.ofNat_eq_natCast, zpow_natCast]
    push_cast
    rw [div_div]
  | negSucc k =>
    change ((n <<< (k + 1) : ℕ) : ℚ) / d = _
    rw [Nat.shiftLeft_eq, zpow_negSucc]
    push_cast
    rw [div_inv_eq_mul]
    ring

namespace Binary

variable {f : BinaryFormat}

/-- The exponent of the unit in which a positive value is rounded. -/
def unitOf (f : BinaryFormat) (v : ℚ) : ℤ :=
  max f.minExp (Int.log 2 v + 1 - f.precision)

/-- The number with a rounded mantissa, which may have become a power of two. -/
def settle (negative : Bool) (m : ℕ) (q : ℤ) : Binary f :=
  let p := if m < Nat.pow 2 f.precision then (m, q) else (m / 2, q + 1)
  if h : f.Canonical p.1 p.2 then .finite negative p.1 p.2 h else .infinite negative

theorem ratio_pos {n d : ℕ} (hn : 0 < n) (hd : 0 < d) : (0 : ℚ) < (n : ℚ) / d := by
  have hn' : (0 : ℚ) < n := by exact_mod_cast hn
  have hd' : (0 : ℚ) < d := by exact_mod_cast hd
  exact div_pos hn' hd'

/-- The numbers of bits of a fraction give its magnitude up to one place. -/
theorem log_ratio_bounds {n d : ℕ} (hn : 0 < n) (hd : 0 < d) :
    (n.log2 : ℤ) - d.log2 - 1 ≤ Int.log 2 ((n : ℚ) / d) ∧
      Int.log 2 ((n : ℚ) / d) < (n.log2 : ℤ) - d.log2 + 1 := by
  have hv := ratio_pos hn hd
  have hd' : (0 : ℚ) < d := by exact_mod_cast hd
  have hnlo : (2 : ℚ) ^ n.log2 ≤ n := by exact_mod_cast Nat.log2_self_le hn.ne'
  have hnhi : (n : ℚ) < 2 ^ (n.log2 + 1) := by exact_mod_cast Nat.lt_log2_self
  have hdlo : (2 : ℚ) ^ d.log2 ≤ d := by exact_mod_cast Nat.log2_self_le hd.ne'
  have hdhi : (d : ℚ) < 2 ^ (d.log2 + 1) := by exact_mod_cast Nat.lt_log2_self
  have hsplit : ∀ a b : ℕ, (2 : ℚ) ^ ((a : ℤ) - b) = 2 ^ a / 2 ^ b := fun a b => by
    rw [zpow_sub₀ (by norm_num), zpow_natCast, zpow_natCast]
  constructor
  · rw [← Int.zpow_le_iff_le_log (by norm_num) hv]
    have he : ((n.log2 : ℤ) - d.log2 - 1) = (n.log2 : ℤ) - (d.log2 + 1 : ℕ) := by push_cast; ring
    rw [Nat.cast_ofNat, he, hsplit]
    exact div_le_div₀ (Nat.cast_nonneg n) hnlo hd' hdhi.le
  · rw [← Int.lt_zpow_iff_log_lt (by norm_num) hv]
    have he : ((n.log2 : ℤ) - d.log2 + 1) = ((n.log2 + 1 : ℕ) : ℤ) - d.log2 := by push_cast; ring
    rw [Nat.cast_ofNat, he, hsplit]
    exact div_lt_div₀ hnhi hdlo (by positivity) (by positivity)

/-- The exponent found by comparing bits is the exponent of the unit. -/
theorem guess_eq {n d : ℕ} (hn : 0 < n) (hd : 0 < d) (p : ℕ) :
    (if (scaleDown n d ((n.log2 : ℤ) - d.log2 - p)).1 <
        (scaleDown n d ((n.log2 : ℤ) - d.log2 - p)).2 <<< p
      then (n.log2 : ℤ) - d.log2 - p else (n.log2 : ℤ) - d.log2 - p + 1) =
      Int.log 2 ((n : ℚ) / d) + 1 - p := by
  obtain ⟨hlo, hhi⟩ := log_ratio_bounds hn hd
  set g : ℤ := (n.log2 : ℤ) - d.log2 - p with hg
  have hpos : (0 : ℚ) < ((scaleDown n d g).2 : ℚ) := by exact_mod_cast scaleDown_snd_pos hd g
  have hiff : (scaleDown n d g).1 < (scaleDown n d g).2 <<< p ↔
      Int.log 2 ((n : ℚ) / d) < (n.log2 : ℤ) - d.log2 := by
    rw [← Int.lt_zpow_iff_log_lt (by norm_num) (ratio_pos hn hd), Nat.shiftLeft_eq, mul_comm,
      ← Nat.cast_lt (α := ℚ), Nat.cast_mul, ← div_lt_iff₀ hpos, scaleDown_ratio,
      div_lt_iff₀ (by positivity), Nat.cast_pow, Nat.cast_ofNat, ← zpow_natCast,
      ← zpow_add₀ (by norm_num)]
    have he : (p : ℤ) + g = (n.log2 : ℤ) - d.log2 := by rw [hg]; ring
    rw [he]
  by_cases h : (scaleDown n d g).1 < (scaleDown n d g).2 <<< p
  · rw [if_pos h]
    have := hiff.mp h
    omega
  · rw [if_neg h]
    have := mt hiff.mpr h
    omega

/-- **Rounding a fraction is rounding its value.** -/
theorem ofRatio_eq (negative : Bool) {n d : ℕ} (hn : 0 < n) (hd : 0 < d) :
    (ofRatio negative n d : Binary f) =
      settle negative (nearestEven ((n : ℚ) / d / 2 ^ unitOf f ((n : ℚ) / d)))
        (unitOf f ((n : ℚ) / d)) := by
  rw [ofRatio, if_neg hn.ne']
  simp only [guess_eq hn hd f.precision]
  change (settle negative (roundDivEven _ _) (unitOf f ((n : ℚ) / d)) : Binary f) = _
  rw [roundDivEven_eq _ (scaleDown_snd_pos hd _)]
  congr 2
  exact scaleDown_ratio n d _

/-- Fractions with one value are rounded to one number. -/
theorem ofRatio_congr (negative : Bool) {n d n' d' : ℕ} (hd : 0 < d) (hd' : 0 < d')
    (h : n * d' = n' * d) : (ofRatio negative n d : Binary f) = ofRatio negative n' d' := by
  rcases Nat.eq_zero_or_pos n with rfl | hn
  · have hn' : n' = 0 := by
      rcases Nat.mul_eq_zero.mp (by simpa using h.symm) with h0 | h0
      · exact h0
      · omega
    rw [hn', ofRatio, ofRatio, if_pos rfl, if_pos rfl]
  · have hn' : 0 < n' := by
      rcases Nat.eq_zero_or_pos n' with rfl | h0
      · rw [Nat.zero_mul] at h
        rcases Nat.mul_eq_zero.mp h with h0 | h0 <;> omega
      · exact h0
    have hv : (n : ℚ) / d = (n' : ℚ) / d' := by
      rw [div_eq_div_iff (by exact_mod_cast hd.ne') (by exact_mod_cast hd'.ne')]
      exact_mod_cast h
    rw [ofRatio_eq negative hn hd, ofRatio_eq negative hn' hd', hv]

/-! ### Numbers of the format, and what lies outside it -/

theorem settle_canonical (negative : Bool) {m : ℕ} {q : ℤ} (h : f.Canonical m q) :
    settle negative m q = .finite negative m q h := by
  have hlt : m < Nat.pow 2 f.precision := h.1
  simp only [settle, if_pos hlt, dif_pos h]

/-- The unit of a number of the format is the exponent it is written with. -/
theorem unitOf_canonical {m : ℕ} {q : ℤ} (hm : 0 < m) (h : f.Canonical m q) :
    unitOf f ((m : ℚ) * 2 ^ q) = q := by
  obtain ⟨hlt, hmin, -, hfull⟩ := h
  have hv : (0 : ℚ) < (m : ℚ) * 2 ^ q := by positivity
  have hlt' : (m : ℚ) < 2 ^ f.precision := by exact_mod_cast hlt
  have hhi : Int.log 2 ((m : ℚ) * 2 ^ q) < f.precision + q := by
    rw [← Int.lt_zpow_iff_log_lt (by norm_num) hv, Nat.cast_ofNat, zpow_add₀ (by norm_num),
      zpow_natCast]
    exact mul_lt_mul_of_pos_right hlt' (by positivity)
  rw [unitOf]
  rcases hfull with rfl | hfull
  · omega
  · -- the mantissa fills the precision, so that the logarithm is known exactly
    have hfull' : (2 : ℚ) ^ f.precision ≤ 2 * m := by exact_mod_cast hfull
    have hlo : (f.precision : ℤ) + q - 1 ≤ Int.log 2 ((m : ℚ) * 2 ^ q) := by
      rw [← Int.zpow_le_iff_le_log (by norm_num) hv, Nat.cast_ofNat, zpow_sub₀ (by norm_num),
        zpow_add₀ (by norm_num), zpow_natCast, zpow_one, div_le_iff₀ (by norm_num)]
      calc (2 : ℚ) ^ f.precision * 2 ^ q ≤ 2 * m * 2 ^ q :=
            mul_le_mul_of_nonneg_right hfull' (by positivity)
        _ = m * 2 ^ q * 2 := by ring
    omega

/-- **A number of the format is rounded to itself**, whatever fraction it is given as. -/
theorem ofRatio_canonical (negative : Bool) {n d m : ℕ} {q : ℤ} (hd : 0 < d) (hm : 0 < m)
    (h : f.Canonical m q) (hv : (n : ℚ) / d = m * 2 ^ q) :
    ofRatio negative n d = .finite negative m q h := by
  have hn : 0 < n := by
    rcases Nat.eq_zero_or_pos n with rfl | h0
    · have hpos : (0 : ℚ) < (m : ℚ) * 2 ^ q := by positivity
      rw [← hv, Nat.cast_zero, zero_div] at hpos
      exact absurd hpos (lt_irrefl _)
    · exact h0
  rw [ofRatio_eq negative hn hd, hv, unitOf_canonical hm h, mul_div_assoc,
    div_self (by positivity), mul_one, nearestEven_natCast, settle_canonical negative h]

/-- A value beyond every mantissa at the greatest exponent is infinite. -/
theorem ofRatio_of_le (negative : Bool) {n d : ℕ} (hd : 0 < d)
    (h : (2 : ℚ) ^ (f.maxExp + f.precision) ≤ (n : ℚ) / d) :
    (ofRatio negative n d : Binary f) = .infinite negative := by
  have hn : 0 < n := by
    rcases Nat.eq_zero_or_pos n with rfl | h0
    · have hpos : (0 : ℚ) < 2 ^ (f.maxExp + f.precision) := by positivity
      rw [Nat.cast_zero, zero_div] at h
      exact absurd h (not_le.mpr hpos)
    · exact h0
  have hlog : f.maxExp + f.precision ≤ Int.log 2 ((n : ℚ) / d) := by
    rw [← Int.zpow_le_iff_le_log (by norm_num) (ratio_pos hn hd), Nat.cast_ofNat]
    exact h
  have hunit : f.maxExp < unitOf f ((n : ℚ) / d) := by
    rw [unitOf]
    omega
  have hnot : ∀ m, ∀ q, unitOf f ((n : ℚ) / d) ≤ q → ¬ f.Canonical m q :=
    fun m q hq hc => absurd hc.2.2.1 (by omega)
  rw [ofRatio_eq negative hn hd, settle]
  split_ifs with h1 h2 h2
  · exact absurd h2 (hnot _ _ le_rfl)
  · rfl
  · exact absurd h2 (hnot _ _ (by simp))
  · rfl

/-- A value below half of the least unit vanishes. -/
theorem ofRatio_of_lt (negative : Bool) {n d : ℕ} (hd : 0 < d)
    (h : (n : ℚ) / d < 2 ^ (f.minExp - 1)) : (ofRatio negative n d : Binary f) = zero negative := by
  rcases Nat.eq_zero_or_pos n with rfl | hn
  · rw [ofRatio, if_pos rfl]
  · have hv := ratio_pos hn hd
    have hlog : Int.log 2 ((n : ℚ) / d) < f.minExp - 1 := by
      rw [← Int.lt_zpow_iff_log_lt (by norm_num) hv, Nat.cast_ofNat]
      exact h
    have hunit : unitOf f ((n : ℚ) / d) = f.minExp := by
      rw [unitOf]
      omega
    have hsmall : 2 * ((n : ℚ) / d / 2 ^ f.minExp) < 1 := by
      rw [zpow_sub₀ (by norm_num), zpow_one, lt_div_iff₀ (by norm_num)] at h
      rw [← mul_div_assoc, div_lt_one (by positivity), mul_comm]
      exact h
    rw [ofRatio_eq negative hn hd, hunit, nearestEven_eq_zero hsmall,
      settle_canonical negative f.canonical_zero]
    rfl

end Binary

end Statuary
