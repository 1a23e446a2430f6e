import Mathlib.Algebra.Order.Group.Unbundled.Abs
import Mathlib.Algebra.Ring.Parity
import Statuary.Proofs.Number.Numeral

/-!
# Rounding goes to the nearest number

A value is rounded in a unit of its own magnitude, and that is how it is computed. Here it is said
what comes of it without units and magnitudes (`Statuary.Binary.IsNearest`): **no number of the
format is nearer**, and if another one is as near then the mantissa is even. There is only one such
number, and rounding finds it for exactly the values below a limit, which is halfway between the
greatest number and the next one that there would be (`Statuary.Decimal.toBinary_eq_iff`).

Numbers with greater units are multiples of the unit, so for them all is said by the nearest whole
number (`Statuary.nearestEven_sub_le`). Numbers with lesser units are below the power of two that
the value has reached, which is nearer (`Statuary.Binary.competitor`).
-/

namespace Statuary

/-! ### The nearest whole number -/

section Whole

variable {v : ℚ}

theorem abs_nearestEven_sub_le (hv : 0 ≤ v) : |(nearestEven v : ℚ) - v| ≤ 1 / 2 := by
  have hfloor := Nat.floor_le hv
  have hnext := Nat.lt_floor_add_one v
  have hmod : ((⌊v⌋₊ % 2 : ℕ) : ℚ) ≤ 1 := by
    exact_mod_cast Nat.le_of_lt_succ (Nat.mod_lt _ two_pos)
  have hmod' : (0 : ℚ) ≤ ((⌊v⌋₊ % 2 : ℕ) : ℚ) := Nat.cast_nonneg _
  rw [nearestEven]
  split_ifs <;> push_cast at * <;> rw [abs_le] <;> constructor <;> linarith

/-- Two whole numbers cannot both be near to a value. -/
theorem one_le_abs_sub_add {k n : ℕ} (v : ℚ) (h : k ≠ n) :
    1 ≤ |(n : ℚ) - v| + |(k : ℚ) - v| := by
  have hapart : (1 : ℚ) ≤ |(n : ℚ) - k| := by
    exact_mod_cast Int.one_le_abs (sub_ne_zero.mpr fun hcast => h (Int.ofNat_inj.mp hcast.symm))
  calc (1 : ℚ) ≤ |(n : ℚ) - k| := hapart
    _ ≤ |(n : ℚ) - v| + |v - k| := abs_sub_le _ _ _
    _ = |(n : ℚ) - v| + |(k : ℚ) - v| := by rw [abs_sub_comm v]

/-- **No whole number is nearer.** -/
theorem nearestEven_sub_le (hv : 0 ≤ v) (k : ℕ) :
    |(nearestEven v : ℚ) - v| ≤ |(k : ℚ) - v| := by
  have herror := abs_nearestEven_sub_le hv
  rcases eq_or_ne k (nearestEven v) with rfl | hne
  · exact le_rfl
  · have hapart := one_le_abs_sub_add v hne
    linarith

/-- Of two whole numbers that are nearest, the even one is taken. -/
theorem parity_of_tie (hv : 0 ≤ v) {k : ℕ} (hne : k ≠ nearestEven v)
    (htie : |(k : ℚ) - v| = |(nearestEven v : ℚ) - v|) : Even (nearestEven v) ∧ Odd k := by
  have hhalf : |(nearestEven v : ℚ) - v| = 1 / 2 := by
    have hapart := one_le_abs_sub_add v hne
    have herror := abs_nearestEven_sub_le hv
    linarith
  rw [hhalf] at htie
  have hfloor := Nat.floor_le hv
  have hnext := Nat.lt_floor_add_one v
  rw [nearestEven] at hhalf hne ⊢
  split_ifs at hhalf hne ⊢ with hlow hhigh
  · rw [abs_of_nonpos (by linarith)] at hhalf
    linarith
  · rw [Nat.cast_add, Nat.cast_one, abs_of_nonneg (by linarith)] at hhalf
    linarith
  · have hk : k = ⌊v⌋₊ ∨ k = ⌊v⌋₊ + 1 := by
      rcases (abs_eq (by norm_num)).mp htie with hk | hk
      · refine .inr ?_
        have hcast : (k : ℚ) = (⌊v⌋₊ + 1 : ℕ) := by
          push_cast
          linarith
        exact_mod_cast hcast
      · refine .inl ?_
        have hcast : (k : ℚ) = ⌊v⌋₊ := by linarith
        exact_mod_cast hcast
    rw [Nat.even_iff, Nat.odd_iff]
    omega

end Whole

/-! ### The nearest number of a format -/

/-- **The limit of a format**: halfway from its greatest number to the next one there would be. -/
def BinaryFormat.limit (f : BinaryFormat) : ℚ :=
  (2 ^ f.precision - 1 / 2) * 2 ^ f.maxExp

namespace Binary

variable {f : BinaryFormat} {m n : ℕ} {q r : ℤ} {v : ℚ}

/-- **The number nearest to a value** with a sign; if another one is as near then its mantissa is
even. -/
def IsNearest (x : Binary f) (negative : Bool) (v : ℚ) : Prop :=
  ∃ (m : ℕ) (q : ℤ) (h : f.Canonical m q), x = .finite negative m q h ∧
    ∀ (n : ℕ) (r : ℤ), f.Canonical n r →
      |(m : ℚ) * 2 ^ q - v| ≤ |(n : ℚ) * 2 ^ r - v| ∧
        (|(n : ℚ) * 2 ^ r - v| = |(m : ℚ) * 2 ^ q - v| → (n : ℚ) * 2 ^ r ≠ m * 2 ^ q → Even m)

/-- A value has one pair in a format. -/
theorem canonical_inj (hm : f.Canonical m q) (hn : f.Canonical n r)
    (h : (m : ℚ) * 2 ^ q = n * 2 ^ r) : m = n ∧ q = r := by
  have hpow : ∀ e : ℤ, (2 : ℚ) ^ e ≠ 0 := fun e => zpow_ne_zero e two_ne_zero
  rcases Nat.eq_zero_or_pos m with rfl | hpos
  · rw [Nat.cast_zero, zero_mul, eq_comm, mul_eq_zero, or_iff_left (hpow r), Nat.cast_eq_zero] at h
    subst h
    -- zero has the least exponent
    have hleast : ∀ {e}, f.Canonical 0 e → e = f.minExp := fun hc =>
      hc.2.2.2.resolve_right (Nat.not_le.mpr (Nat.two_pow_pos _))
    exact ⟨rfl, (hleast hm).trans (hleast hn).symm⟩
  · have hpos' : 0 < n := by
      refine Nat.pos_of_ne_zero fun hzero => ?_
      rw [hzero, Nat.cast_zero, zero_mul, mul_eq_zero, or_iff_left (hpow q), Nat.cast_eq_zero] at h
      exact hpos.ne' h
    obtain rfl : q = r := by rw [← unitOf_canonical hpos hm, h, unitOf_canonical hpos' hn]
    exact ⟨Nat.cast_injective (mul_right_cancel₀ (hpow q) h), rfl⟩

/-! ### A value in its unit -/

/-- A value has fewer bits in its unit than the precision has. -/
theorem div_unitOf_lt (f : BinaryFormat) (v : ℚ) : v / 2 ^ unitOf f v < 2 ^ f.precision := by
  have hlog : v < 2 ^ (Int.log 2 v + 1) := by
    exact_mod_cast Int.lt_zpow_succ_log_self (by norm_num) v
  have hle : Int.log 2 v + 1 ≤ f.precision + unitOf f v := by
    rw [unitOf]
    omega
  rw [div_lt_iff₀ (by positivity), ← zpow_natCast, ← zpow_add₀ (by norm_num)]
  exact hlog.trans_le (zpow_le_zpow_right₀ (by norm_num) hle)

/-- It has as many bits unless its unit is the least one. -/
theorem le_div_unitOf (hv : 0 < v) (h : f.minExp < unitOf f v) :
    2 ^ f.precision ≤ 2 * (v / 2 ^ unitOf f v) := by
  have hlog : 2 ^ Int.log 2 v ≤ v := by
    exact_mod_cast Int.zpow_log_le_self (by norm_num) hv
  have heq : Int.log 2 v + 1 = f.precision + unitOf f v := by
    rw [unitOf] at h ⊢
    omega
  rw [← mul_div_assoc, le_div_iff₀ (by positivity), ← zpow_natCast, ← zpow_add₀ (by norm_num),
    ← heq, zpow_add₀ (by norm_num), zpow_one, mul_comm]
  exact mul_le_mul_of_nonneg_left hlog (by norm_num)

/-- The mantissa of a value before it is settled. -/
def mantissaOf (f : BinaryFormat) (v : ℚ) : ℕ :=
  nearestEven (v / 2 ^ unitOf f v)

theorem abs_mantissaOf_sub_le (f : BinaryFormat) (hv : 0 < v) :
    |(mantissaOf f v : ℚ) - v / 2 ^ unitOf f v| ≤ 1 / 2 :=
  abs_nearestEven_sub_le (by positivity)

theorem mantissaOf_le (f : BinaryFormat) (hv : 0 < v) : mantissaOf f v ≤ 2 ^ f.precision := by
  have herror := (abs_le.mp (abs_mantissaOf_sub_le f hv)).2
  have hlt := div_unitOf_lt f v
  have hcast : (mantissaOf f v : ℚ) < (2 ^ f.precision + 1 : ℕ) := by
    push_cast
    linarith
  exact Nat.le_of_lt_succ (by exact_mod_cast hcast)

theorem le_two_mul_mantissaOf (hp : 1 ≤ f.precision) (hv : 0 < v) (h : f.minExp < unitOf f v) :
    2 ^ f.precision ≤ 2 * mantissaOf f v := by
  have herror := (abs_le.mp (abs_mantissaOf_sub_le f hv)).1
  have hle := le_div_unitOf hv h
  have hcast : ((2 ^ f.precision : ℕ) : ℚ) ≤ (2 * mantissaOf f v + 1 : ℕ) := by
    push_cast
    linarith
  have hnat : 2 ^ f.precision ≤ 2 * mantissaOf f v + 1 := by exact_mod_cast hcast
  have heven : 2 ^ f.precision = 2 * 2 ^ (f.precision - 1) := by
    rw [← pow_succ', Nat.sub_add_cancel hp]
  omega

/-- A mantissa that is not rounded up to a power of two stays away from it by half. -/
theorem div_unitOf_lt_of_lt (hp : 1 ≤ f.precision) (hv : 0 < v)
    (h : mantissaOf f v < 2 ^ f.precision) : v / 2 ^ unitOf f v < 2 ^ f.precision - 1 / 2 := by
  have herror := (abs_le.mp (abs_mantissaOf_sub_le f hv)).1
  have hle : (mantissaOf f v : ℚ) + 1 ≤ 2 ^ f.precision := by exact_mod_cast h
  refine lt_of_le_of_ne (by linarith) fun heq => ?_
  -- at half the power of two would be taken, which is even
  have hmantissa : (mantissaOf f v : ℚ) + 1 = 2 ^ f.precision := by linarith
  have htie : |((2 ^ f.precision : ℕ) : ℚ) - v / 2 ^ unitOf f v| =
      |(mantissaOf f v : ℚ) - v / 2 ^ unitOf f v| := by
    rw [heq, abs_of_nonneg (by push_cast; linarith), abs_of_nonpos (by linarith)]
    push_cast
    linarith
  have hodd := (parity_of_tie (by positivity) h.ne' htie).2
  exact Nat.not_odd_iff_even.mpr (Nat.even_pow.mpr ⟨even_two, Nat.one_le_iff_ne_zero.mp hp⟩) hodd

/-- **Which values fit**: those below the limit of the format. -/
theorem fits_iff (hp : 1 ≤ f.precision) (hv : 0 < v) :
    (mantissaOf f v < 2 ^ f.precision ∧ unitOf f v ≤ f.maxExp ∨
      mantissaOf f v = 2 ^ f.precision ∧ unitOf f v < f.maxExp) ↔ v < f.limit := by
  have hunit : (0 : ℚ) < 2 ^ unitOf f v := by positivity
  have hscale : v = v / 2 ^ unitOf f v * 2 ^ unitOf f v := (div_mul_cancel₀ v hunit.ne').symm
  have hone : (1 : ℚ) ≤ 2 ^ f.precision := one_le_pow₀ (by norm_num)
  constructor
  · rintro (⟨hm, hq⟩ | ⟨hm, hq⟩)
    · calc v = v / 2 ^ unitOf f v * 2 ^ unitOf f v := hscale
        _ < (2 ^ f.precision - 1 / 2) * 2 ^ unitOf f v :=
          mul_lt_mul_of_pos_right (div_unitOf_lt_of_lt hp hv hm) hunit
        _ ≤ f.limit := mul_le_mul_of_nonneg_left (zpow_le_zpow_right₀ (by norm_num) hq)
          (by linarith)
    · have hdouble : (2 : ℚ) ^ unitOf f v * 2 ≤ 2 ^ f.maxExp := by
        rw [← zpow_add_one₀ (by norm_num)]
        exact zpow_le_zpow_right₀ (by norm_num) hq
      calc v = v / 2 ^ unitOf f v * 2 ^ unitOf f v := hscale
        _ < 2 ^ f.precision * 2 ^ unitOf f v := mul_lt_mul_of_pos_right (div_unitOf_lt f v) hunit
        _ ≤ (2 ^ f.precision - 1 / 2) * (2 ^ unitOf f v * 2) := by nlinarith
        _ ≤ f.limit := mul_le_mul_of_nonneg_left hdouble (by linarith)
  · intro hlimit
    have hlog : Int.log 2 v < f.precision + f.maxExp := by
      rw [← Int.lt_zpow_iff_log_lt (by norm_num) hv, Nat.cast_ofNat, zpow_add₀ (by norm_num),
        zpow_natCast]
      refine hlimit.trans (mul_lt_mul_of_pos_right (by linarith) (by positivity))
    have hq : unitOf f v ≤ f.maxExp := by
      have hexp := f.minExp_le_maxExp
      rw [unitOf]
      omega
    rcases (mantissaOf_le f hv).lt_or_eq with hm | hm
    · exact .inl ⟨hm, hq⟩
    · refine .inr ⟨hm, lt_of_le_of_ne hq fun heq => ?_⟩
      have herror := (abs_le.mp (abs_mantissaOf_sub_le f hv)).2
      rw [hm, Nat.cast_pow, Nat.cast_ofNat] at herror
      rw [hscale, BinaryFormat.limit, ← heq, mul_lt_mul_iff_left₀ hunit] at hlimit
      linarith

/-! ### Competitors -/

/-- Distances from a value in its unit. -/
theorem abs_mul_sub (f : BinaryFormat) (v x : ℚ) :
    |x * 2 ^ unitOf f v - v| = |x - v / 2 ^ unitOf f v| * 2 ^ unitOf f v := by
  have hunit : (0 : ℚ) < 2 ^ unitOf f v := by positivity
  rw [← abs_of_pos hunit, ← abs_mul, abs_of_pos hunit, sub_mul, div_mul_cancel₀ v hunit.ne']

/-- **Every number of the format** is a multiple of the unit of a value, or it is farther away than
what the value is rounded to. -/
theorem competitor (hp : 1 ≤ f.precision) (hv : 0 < v) (h : f.Canonical n r) :
    (∃ k : ℕ, (n : ℚ) * 2 ^ r = k * 2 ^ unitOf f v ∧ (Odd k → n = k)) ∨
      |(mantissaOf f v : ℚ) * 2 ^ unitOf f v - v| < |(n : ℚ) * 2 ^ r - v| := by
  rcases le_or_gt (unitOf f v) r with hr | hr
  · obtain ⟨d, rfl⟩ := Int.le.dest hr
    refine .inl ⟨n * 2 ^ d, ?_, fun hodd => ?_⟩
    · rw [zpow_add₀ (by norm_num), zpow_natCast]
      push_cast
      ring
    · obtain rfl : d = 0 := by
        by_contra hd
        exact Nat.not_even_iff_odd.mpr hodd ((Nat.even_pow.mpr ⟨even_two, hd⟩).mul_left n)
      rw [pow_zero, mul_one]
  · -- the power of two below the value is nearer
    refine .inr ?_
    have hunit : (0 : ℚ) < 2 ^ unitOf f v := by positivity
    obtain ⟨b, hb⟩ : ∃ b : ℕ, (2 : ℚ) ^ f.precision = 2 * b := by
      refine ⟨2 ^ (f.precision - 1), ?_⟩
      rw [Nat.cast_pow, Nat.cast_ofNat, ← pow_succ', Nat.sub_add_cancel hp]
    have hfull := le_div_unitOf hv (h.2.1.trans_lt hr)
    have hnear : |(mantissaOf f v : ℚ) - v / 2 ^ unitOf f v| ≤ v / 2 ^ unitOf f v - b := by
      refine (nearestEven_sub_le (by positivity) b).trans_eq ?_
      rw [abs_of_nonpos (by linarith), neg_sub]
    have hn : (n : ℚ) < 2 ^ f.precision := by exact_mod_cast h.1
    have hbelow : (n : ℚ) * 2 ^ r < b * 2 ^ unitOf f v := by
      calc (n : ℚ) * 2 ^ r < 2 ^ f.precision * 2 ^ r :=
            mul_lt_mul_of_pos_right hn (by positivity)
        _ = b * 2 ^ (r + 1) := by
            rw [hb, zpow_add_one₀ (by norm_num)]
            ring
        _ ≤ b * 2 ^ unitOf f v :=
            mul_le_mul_of_nonneg_left (zpow_le_zpow_right₀ (by norm_num) hr) (Nat.cast_nonneg b)
    calc |(mantissaOf f v : ℚ) * 2 ^ unitOf f v - v|
        = |(mantissaOf f v : ℚ) - v / 2 ^ unitOf f v| * 2 ^ unitOf f v := abs_mul_sub f v _
      _ ≤ (v / 2 ^ unitOf f v - b) * 2 ^ unitOf f v := mul_le_mul_of_nonneg_right hnear hunit.le
      _ = v - b * 2 ^ unitOf f v := by rw [sub_mul, div_mul_cancel₀ v hunit.ne']
      _ < v - n * 2 ^ r := by linarith
      _ ≤ |(n : ℚ) * 2 ^ r - v| := by
          rw [abs_sub_comm]
          exact le_abs_self _

/-- No number of the format is nearer to a value than what it is rounded to. -/
theorem mantissaOf_sub_le (hp : 1 ≤ f.precision) (hv : 0 < v) (h : f.Canonical n r) :
    |(mantissaOf f v : ℚ) * 2 ^ unitOf f v - v| ≤ |(n : ℚ) * 2 ^ r - v| := by
  rcases competitor hp hv h with ⟨k, hk, -⟩ | hfar
  · rw [hk, abs_mul_sub, abs_mul_sub]
    exact mul_le_mul_of_nonneg_right (nearestEven_sub_le (by positivity) k) (by positivity)
  · exact hfar.le

/-- If one is as near then its mantissa is odd, and even is what the value is rounded to. -/
theorem parity_of_competitor (hp : 1 ≤ f.precision) (hv : 0 < v) (h : f.Canonical n r)
    (htie : |(n : ℚ) * 2 ^ r - v| = |(mantissaOf f v : ℚ) * 2 ^ unitOf f v - v|)
    (hne : (n : ℚ) * 2 ^ r ≠ mantissaOf f v * 2 ^ unitOf f v) :
    Even (mantissaOf f v) ∧ Odd n := by
  rcases competitor hp hv h with ⟨k, hk, hodd⟩ | hfar
  · rw [hk, abs_mul_sub, abs_mul_sub] at htie
    have hk' : k ≠ mantissaOf f v := fun heq => hne (by rw [hk, heq])
    obtain ⟨heven, hkodd⟩ := parity_of_tie (by positivity) hk'
      (mul_right_cancel₀ (zpow_ne_zero _ two_ne_zero) htie)
    exact ⟨heven, hodd hkodd ▸ hkodd⟩
  · exact absurd htie hfar.ne'

/-! ### Rounding -/

/-- A value that fits is settled as a number of the format that has the rounded value. -/
theorem exists_settle (hp : 2 ≤ f.precision) (hv : 0 < v) (hlimit : v < f.limit)
    (negative : Bool) : ∃ (m : ℕ) (q : ℤ) (h : f.Canonical m q),
      (settle negative (mantissaOf f v) (unitOf f v) : Binary f) = .finite negative m q h ∧
      (m : ℚ) * 2 ^ q = mantissaOf f v * 2 ^ unitOf f v ∧ (Even (mantissaOf f v) → Even m) := by
  have hp' : 1 ≤ f.precision := one_le_two.trans hp
  have hmin : f.minExp ≤ unitOf f v := le_max_left ..
  rcases (fits_iff hp' hv).mpr hlimit with ⟨hm, hq⟩ | ⟨hm, hq⟩
  · have hc : f.Canonical (mantissaOf f v) (unitOf f v) :=
      ⟨hm, hmin, hq, hmin.eq_or_lt.imp Eq.symm (le_two_mul_mantissaOf hp' hv)⟩
    exact ⟨_, _, hc, settle_canonical negative hc, rfl, id⟩
  · have hhalf : 2 ^ f.precision = 2 * 2 ^ (f.precision - 1) := by
      rw [← pow_succ', Nat.sub_add_cancel hp']
    have hc : f.Canonical (mantissaOf f v / 2) (unitOf f v + 1) := by
      rw [hm]
      refine ⟨Nat.div_lt_self (Nat.two_pow_pos _) one_lt_two, by omega, by omega, .inr ?_⟩
      rw [hhalf, Nat.mul_div_cancel_left _ two_pos]
      exact hhalf.le
    refine ⟨_, _, hc, ?_, ?_, fun _ => ?_⟩
    · simp only [settle, hm, Nat.pow_eq, lt_irrefl, if_false]
      exact dif_pos (hm ▸ hc)
    · rw [hm, hhalf, Nat.mul_div_cancel_left _ two_pos, zpow_add_one₀ (by norm_num)]
      push_cast
      ring
    · rw [hm, hhalf, Nat.mul_div_cancel_left _ two_pos]
      exact Nat.even_pow.mpr ⟨even_two, by omega⟩

/-- A value beyond the limit is settled as infinite. -/
theorem settle_of_limit_le (hp : 1 ≤ f.precision) (hv : 0 < v) (hlimit : f.limit ≤ v)
    (negative : Bool) :
    (settle negative (mantissaOf f v) (unitOf f v) : Binary f) = .infinite negative := by
  have hnot := mt (fits_iff hp hv).mp (not_lt.mpr hlimit)
  rw [not_or, not_and, not_and] at hnot
  have hle := mantissaOf_le f hv
  simp only [settle, Nat.pow_eq]
  split_ifs with hm hc hc
  · exact absurd hc.2.2.1 (hnot.1 hm)
  · rfl
  · exact absurd hc.2.2.1 fun hq =>
      hnot.2 (le_antisymm hle (not_lt.mp hm)) (Int.lt_of_add_one_le hq)
  · rfl

/-- **A value that fits is rounded to the number nearest to it.** -/
theorem isNearest_settle (hp : 2 ≤ f.precision) (hv : 0 < v) (hlimit : v < f.limit)
    (negative : Bool) :
    (settle negative (mantissaOf f v) (unitOf f v) : Binary f).IsNearest negative v := by
  have hp' : 1 ≤ f.precision := one_le_two.trans hp
  obtain ⟨m, q, h, hsettle, hvalue, heven⟩ := exists_settle hp hv hlimit negative
  refine ⟨m, q, h, hsettle, fun n r hn => ?_⟩
  rw [hvalue]
  exact ⟨mantissaOf_sub_le hp' hv hn, fun htie hne =>
    heven (parity_of_competitor hp' hv hn htie hne).1⟩

/-- **There is only one nearest number.** -/
theorem IsNearest.eq_settle (hp : 2 ≤ f.precision) (hv : 0 < v) (hlimit : v < f.limit)
    {negative : Bool} {x : Binary f} (hx : x.IsNearest negative v) :
    x = settle negative (mantissaOf f v) (unitOf f v) := by
  have hp' : 1 ≤ f.precision := one_le_two.trans hp
  obtain ⟨m, q, h, hsettle, hvalue, -⟩ := exists_settle hp hv hlimit negative
  obtain ⟨n, r, hn, rfl, hnearest⟩ := hx
  obtain ⟨hle, heven⟩ := hnearest m q h
  rw [hvalue] at hle heven
  have htie := le_antisymm hle (mantissaOf_sub_le hp' hv hn)
  have heq : (n : ℚ) * 2 ^ r = m * 2 ^ q := by
    -- otherwise its mantissa were even and odd
    by_contra hne
    rw [hvalue] at hne
    exact Nat.not_even_iff_odd.mpr (parity_of_competitor hp' hv hn htie hne).2
      (heven htie.symm (Ne.symm hne))
  obtain ⟨rfl, rfl⟩ := canonical_inj hn h heq
  exact hsettle.symm

theorem isNearest_zero_iff {negative : Bool} {x : Binary f} :
    x.IsNearest negative 0 ↔ x = zero negative := by
  constructor
  · rintro ⟨m, q, h, rfl, hnearest⟩
    have hle := (hnearest 0 f.minExp f.canonical_zero).1
    rw [Nat.cast_zero, zero_mul, sub_zero, sub_zero, abs_zero, abs_nonpos_iff] at hle
    obtain ⟨rfl, rfl⟩ := canonical_inj h f.canonical_zero (by rw [hle, Nat.cast_zero, zero_mul])
    rfl
  · rintro rfl
    refine ⟨0, f.minExp, f.canonical_zero, rfl, fun n r _ => ?_⟩
    rw [Nat.cast_zero, zero_mul, sub_zero, sub_zero, abs_zero]
    exact ⟨abs_nonneg _, fun htie hne => absurd (abs_eq_zero.mp htie) hne⟩

end Binary

theorem BinaryFormat.limit_pos (f : BinaryFormat) : 0 < f.limit := by
  have hone : (1 : ℚ) ≤ 2 ^ f.precision := one_le_pow₀ (by norm_num)
  exact mul_pos (by linarith) (by positivity)

/-- **Reading a decimal is exact up to one rounding**: it has a value in a format if it is below the
limit, and then the nearest one. -/
theorem Decimal.toBinary_eq_iff {f : BinaryFormat} (hf : f.Spans) (hp : 2 ≤ f.precision)
    {x : Decimal} {y : Binary f} : x.toBinary f = y ∧ y.isFinite = true ↔
      x.value < f.limit ∧ y.IsNearest x.negative x.value := by
  have hvalue := x.fraction_ratio
  rw [toBinary_eq_ofRatio hf]
  rcases Nat.eq_zero_or_pos x.fraction.1 with hzero | hpos
  · rw [hzero, Nat.cast_zero, zero_div] at hvalue
    rw [hzero, ← hvalue, Binary.ofRatio, if_pos rfl, Binary.isNearest_zero_iff,
      and_iff_right f.limit_pos]
    constructor
    · exact fun h => h.1.symm
    · rintro rfl
      exact ⟨rfl, rfl⟩
  · have hv : 0 < x.value := hvalue ▸ Binary.ratio_pos hpos x.fraction_snd_pos
    have hround : (Binary.ofRatio x.negative x.fraction.1 x.fraction.2 : Binary f) =
        .settle x.negative (Binary.mantissaOf f x.value) (Binary.unitOf f x.value) := by
      rw [Binary.ofRatio_eq x.negative hpos x.fraction_snd_pos, hvalue]
      rfl
    rw [hround]
    rcases lt_or_ge x.value f.limit with hlimit | hlimit
    · constructor
      · rintro ⟨rfl, -⟩
        exact ⟨hlimit, Binary.isNearest_settle hp hv hlimit x.negative⟩
      · rintro ⟨-, hnearest⟩
        obtain ⟨m, q, h, hy, -⟩ := id hnearest
        exact ⟨(hnearest.eq_settle hp hv hlimit).symm, hy ▸ rfl⟩
    · rw [Binary.settle_of_limit_le (one_le_two.trans hp) hv hlimit]
      constructor
      · rintro ⟨rfl, hfinite⟩
        cases hfinite
      · exact fun h => absurd h.1 (not_lt.mpr hlimit)

end Statuary
