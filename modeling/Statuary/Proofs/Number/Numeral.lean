import Statuary.Number.Shortest
import Statuary.Proofs.Number.Rounding

/-!
# Numerals are read as they are written

A whole number is written with its digits, and a binary number with the digits of its shortest
decimal. Both are read back: `Statuary.readInteger_intDigits`, and for binary numbers
`Statuary.Binary.exists_plain`, which says that the text of a number with a value is a sign, digits,
and perhaps a point and more digits, and that **any** numeral with that sign and that value is read
as the number.

Between the two stands the decimal. What a decimal is read as depends on its sign and its value and
not on its digits (`Statuary.Decimal.toBinary_congr`), which is why zeros at the end may be removed
or added. The proof goes through `Statuary.Decimal.toBinary_eq_ofRatio`: the two shortcuts for
powers of ten far outside the format give what rounding the exact value gives.
-/

namespace Statuary

/-! ### Digits -/

theorem isDigit_of_mem_natDigits {n : ℕ} {c : Char} (hc : c ∈ natDigits n) : isDigit c = true :=
  Nat.isDigit_of_mem_toDigits (by norm_num) (by norm_num) hc

theorem natDigits_ne_nil (n : ℕ) : natDigits n ≠ [] :=
  Nat.toDigits_ne_nil

theorem digitsValue_natDigits (n : ℕ) : digitsValue (natDigits n) = n :=
  Nat.ofDigitChars_ten_toDigits

theorem digitsValue_append (ds es : List Char) :
    digitsValue (ds ++ es) = 10 ^ es.length * digitsValue ds + digitsValue es := by
  have h : Nat.ofDigitChars 10 (ds ++ es) 0 =
      10 ^ es.length * Nat.ofDigitChars 10 ds 0 + Nat.ofDigitChars 10 es 0 := by
    rw [Nat.ofDigitChars_append, Nat.ofDigitChars_eq_ofDigitChars_zero]
  exact h

theorem digitsValue_replicate_zero (k : ℕ) : digitsValue (List.replicate k '0') = 0 := by
  have h : Nat.ofDigitChars 10 (List.replicate k '0') 0 = 0 := by
    rw [Nat.ofDigitChars_replicate_zero, Nat.mul_zero]
  exact h

theorem toLower_of_isDigit {c : Char} (hc : isDigit c = true) : c.toLower = c := by
  rw [isDigit, Bool.and_eq_true, decide_eq_true_eq, decide_eq_true_eq, Char.le_def,
    Char.le_def] at hc
  have hupper : ¬ (c.val ≥ 'A'.val ∧ c.val ≤ 'Z'.val) :=
    fun h => absurd (UInt32.le_trans h.1 hc.2) (by decide)
  exact dif_neg hupper

/-- A sign is taken off only where one stands. -/
theorem takeSign_of_head {cs : List Char} (h : ∀ c ∈ cs.head?, isDigit c = true) :
    takeSign cs = (false, cs) := by
  cases cs with
  | nil => rfl
  | cons c cs =>
    have hc : isDigit c = true := h c rfl
    have hminus : c ≠ '-' := fun he => absurd hc (by rw [he]; decide)
    have hplus : c ≠ '+' := fun he => absurd hc (by rw [he]; decide)
    simp [takeSign, hminus, hplus]

theorem takeSign_digits {ds : List Char} (h : ∀ c ∈ ds, isDigit c = true) :
    takeSign ds = (false, ds) :=
  takeSign_of_head fun c hc => h c (List.mem_of_mem_head? hc)

/-- **Whole numbers** are read as they are written. -/
theorem readInteger_intDigits (n : ℤ) : readInteger (intDigits n) = some n := by
  have hall : (natDigits n.natAbs).all isDigit = true :=
    List.all_eq_true.mpr fun c hc => isDigit_of_mem_natDigits hc
  have hne : (natDigits n.natAbs).isEmpty = false := by simp [natDigits_ne_nil]
  rw [intDigits]
  split_ifs with hn
  · have habs : -|n| = n := by rw [abs_of_neg hn, neg_neg]
    simp [readInteger, takeSign, hne, hall, digitsValue_natDigits, habs]
  · have habs : |n| = n := abs_of_nonneg (by omega)
    rw [readInteger, takeSign_digits fun c hc => isDigit_of_mem_natDigits hc]
    simp [hne, hall, digitsValue_natDigits, habs]

theorem isSigned_iff {bits : ℕ} {n : ℤ} :
    isSigned bits n = true ↔ -2 ^ (bits - 1) ≤ n ∧ n < 2 ^ (bits - 1) := by
  rw [isSigned, Bool.and_eq_true, decide_eq_true_eq, decide_eq_true_eq, signedBound, Nat.pow_eq]
  push_cast
  rfl

theorem readSigned_intDigits {bits : ℕ} {n : ℤ} (h : isSigned bits n = true) :
    readSigned bits (intDigits n) = some n := by
  rw [readSigned, readInteger_intDigits, Option.filter_some, if_pos h]

theorem intDigits_ne_nil (n : ℤ) : intDigits n ≠ [] := by
  rw [intDigits]
  split_ifs
  · simp
  · exact natDigits_ne_nil _

/-- The text of a whole number is its digits. -/
theorem toList_toString (n : ℤ) : (toString n).toList = intDigits n := by
  cases n with
  | ofNat n => simp [toString, intDigits, Nat.repr, natDigits, Int.repr]
  | negSucc n => simp [toString, intDigits, Nat.repr, natDigits, Int.repr]

/-- The characters of a written whole number. -/
theorem mem_intDigits {n : ℤ} {c : Char} (hc : c ∈ intDigits n) : c = '-' ∨ isDigit c = true := by
  rw [intDigits] at hc
  split_ifs at hc
  · rcases List.mem_cons.mp hc with rfl | hc
    · exact .inl rfl
    · exact .inr (isDigit_of_mem_natDigits hc)
  · exact .inr (isDigit_of_mem_natDigits hc)

/-- A written whole number ends in a digit. -/
theorem isDigit_of_getLast?_intDigits {n : ℤ} {c : Char} (hc : c ∈ (intDigits n).getLast?) :
    isDigit c = true := by
  have hlast : ∀ {d}, d ∈ (natDigits n.natAbs).getLast? → isDigit d = true := fun hd =>
    isDigit_of_mem_natDigits (List.mem_of_getLast? hd)
  rw [intDigits] at hc
  split_ifs at hc
  · rw [List.getLast?_cons_of_ne_nil (natDigits_ne_nil _)] at hc
    exact hlast hc
  · exact hlast hc

/-! ### Decimals by their value -/

/-- The format has units on both sides of one. -/
def BinaryFormat.Spans (f : BinaryFormat) : Prop :=
  f.minExp ≤ 0 ∧ 0 ≤ f.maxExp + f.precision

theorem BinaryFormat.single_spans : BinaryFormat.single.Spans := by
  unfold Spans
  decide

theorem BinaryFormat.double_spans : BinaryFormat.double.Spans := by
  unfold Spans
  decide

namespace Decimal

/-- The value of a decimal, its sign left aside. -/
def value (x : Decimal) : ℚ :=
  x.units * 10 ^ x.exponent

/-- A fraction with the value of a decimal. -/
def fraction (x : Decimal) : ℕ × ℕ :=
  match x.exponent with
  | .ofNat k => (x.units * 10 ^ k, 1)
  | .negSucc k => (x.units, 10 ^ (k + 1))

theorem fraction_snd_pos (x : Decimal) : 0 < x.fraction.2 := by
  rw [fraction]
  cases x.exponent with
  | ofNat k => exact Nat.one_pos
  | negSucc k => exact Nat.pow_pos (by norm_num)

theorem fraction_ratio (x : Decimal) : (x.fraction.1 : ℚ) / x.fraction.2 = x.value := by
  obtain ⟨s, u, e⟩ := x
  cases e with
  | ofNat k => simp [fraction, value]
  | negSucc k => simp [fraction, value, zpow_negSucc, div_eq_mul_inv]

/-- The first shortcut: a power of ten beyond the format. -/
theorem le_value_of_le_exponent {f : BinaryFormat} (hf : f.Spans) {x : Decimal} (hu : x.units ≠ 0)
    (h : f.maxExp + f.precision ≤ x.exponent) : (2 : ℚ) ^ (f.maxExp + f.precision) ≤ x.value := by
  have hu' : (1 : ℚ) ≤ x.units := by exact_mod_cast Nat.one_le_iff_ne_zero.mpr hu
  obtain ⟨k, hk⟩ := Int.eq_ofNat_of_zero_le (le_trans hf.2 h)
  calc (2 : ℚ) ^ (f.maxExp + f.precision) ≤ 2 ^ x.exponent :=
        zpow_le_zpow_right₀ (by norm_num) h
    _ ≤ 10 ^ x.exponent := by
        rw [hk, zpow_natCast, zpow_natCast]
        exact pow_le_pow_left₀ (by norm_num) (by norm_num) k
    _ ≤ x.units * 10 ^ x.exponent := le_mul_of_one_le_left (by positivity) hu'

/-- The second shortcut: ten is more than the third power of two, so a negative power of ten takes
at least three bits a place. -/
theorem value_lt_of_lt {f : BinaryFormat} (hf : f.Spans) {x : Decimal}
    (h : (x.units.log2 : ℤ) + 1 + 3 * x.exponent < f.minExp - 1) :
    x.value < 2 ^ (f.minExp - 1) := by
  have hneg : x.exponent < 0 := by
    have := hf.1
    omega
  have hu : (x.units : ℚ) < 2 ^ ((x.units.log2 : ℤ) + 1) := by
    have h2 : (x.units : ℚ) < 2 ^ (x.units.log2 + 1) := by exact_mod_cast Nat.lt_log2_self
    exact_mod_cast h2
  have hten : (10 : ℚ) ^ x.exponent ≤ 2 ^ (3 * x.exponent) := by
    obtain ⟨k, hk⟩ := Int.eq_ofNat_of_zero_le (show 0 ≤ -x.exponent by omega)
    have he : x.exponent = -(k : ℤ) := by omega
    rw [he, mul_neg, zpow_neg, zpow_neg, zpow_mul, zpow_natCast, zpow_natCast]
    apply inv_anti₀ (by positivity)
    exact pow_le_pow_left₀ (by norm_num) (by norm_num) k
  calc x.value ≤ x.units * 2 ^ (3 * x.exponent) :=
        mul_le_mul_of_nonneg_left hten (Nat.cast_nonneg _)
    _ < 2 ^ ((x.units.log2 : ℤ) + 1) * 2 ^ (3 * x.exponent) :=
        mul_lt_mul_of_pos_right hu (by positivity)
    _ = 2 ^ ((x.units.log2 : ℤ) + 1 + 3 * x.exponent) := (zpow_add₀ (by norm_num) _ _).symm
    _ ≤ 2 ^ (f.minExp - 1) := zpow_le_zpow_right₀ (by norm_num) h.le

/-- **Reading a decimal is rounding its value**; the shortcuts change nothing. -/
theorem toBinary_eq_ofRatio {f : BinaryFormat} (hf : f.Spans) (x : Decimal) :
    x.toBinary f = .ofRatio x.negative x.fraction.1 x.fraction.2 := by
  rw [toBinary]
  split_ifs with hu hbig hsmall
  · have hzero : x.fraction.1 = 0 := by
      rw [fraction]
      cases x.exponent <;> simp [hu]
    rw [hzero, Binary.ofRatio, if_pos rfl]
  · rw [Binary.ofRatio_of_le x.negative x.fraction_snd_pos]
    rw [fraction_ratio]
    exact le_value_of_le_exponent hf hu hbig
  · rw [Binary.ofRatio_of_lt x.negative x.fraction_snd_pos]
    rw [fraction_ratio]
    exact value_lt_of_lt hf hsmall
  · rw [fraction]
    cases x.exponent <;> rfl

/-- What a decimal is read as depends on its sign and its value. -/
theorem toBinary_congr {f : BinaryFormat} (hf : f.Spans) {x y : Decimal}
    (hs : x.negative = y.negative) (hv : x.value = y.value) : x.toBinary f = y.toBinary f := by
  rw [toBinary_eq_ofRatio hf, toBinary_eq_ofRatio hf, hs]
  apply Binary.ofRatio_congr _ x.fraction_snd_pos y.fraction_snd_pos
  have hx : (x.fraction.2 : ℚ) ≠ 0 := by exact_mod_cast x.fraction_snd_pos.ne'
  have hy : (y.fraction.2 : ℚ) ≠ 0 := by exact_mod_cast y.fraction_snd_pos.ne'
  have h := fraction_ratio x
  rw [hv, ← fraction_ratio y, div_eq_div_iff hx hy] at h
  exact_mod_cast h

/-! ### Zeros at the end -/

theorem stripZeros_value (fuel n : ℕ) (e : ℤ) :
    ((stripZeros fuel n e).1 : ℚ) * 10 ^ (stripZeros fuel n e).2 = n * 10 ^ e := by
  induction fuel generalizing n e with
  | zero => rfl
  | succ fuel ih =>
    rw [stripZeros]
    split_ifs with h
    · have hn : (n : ℚ) = (n / 10 : ℕ) * 10 := by
        exact_mod_cast (Nat.div_mul_cancel (Nat.dvd_of_mod_eq_zero h)).symm
      rw [ih, zpow_add₀ (by norm_num), zpow_one]
      calc ((n / 10 : ℕ) : ℚ) * (10 ^ e * 10) = (n / 10 : ℕ) * 10 * 10 ^ e := by ring
        _ = n * 10 ^ e := by rw [← hn]
    · rfl

@[simp] theorem trim_negative (x : Decimal) : x.trim.negative = x.negative := by
  rw [trim]
  split_ifs <;> rfl

theorem trim_value (x : Decimal) : x.trim.value = x.value := by
  rw [trim]
  split_ifs with h
  · simp [value, h]
  · exact stripZeros_value _ _ _

/-! ### Positional digits -/

/-- A sign as it is written. -/
def signText (negative : Bool) : List Char :=
  if negative then ['-'] else []

/-- The decimal that digits on both sides of a point spell. -/
def ofPlaces (negative : Bool) (whole fraction : List Char) : Decimal :=
  ⟨negative, digitsValue (whole ++ fraction), -(fraction.length : ℤ)⟩

theorem takeSign_signText (negative : Bool) {cs : List Char}
    (h : ∀ c ∈ cs.head?, isDigit c = true) :
    takeSign (signText negative ++ cs) = (negative, cs) := by
  cases negative with
  | true => rfl
  | false => exact takeSign_of_head h

theorem spanDigits_append {ds rest : List Char} (hds : ∀ c ∈ ds, isDigit c = true)
    (hrest : ∀ c ∈ rest.head?, isDigit c = false) : spanDigits (ds ++ rest) = (ds, rest) := by
  rw [spanDigits, List.span_eq_takeWhile_dropWhile, List.takeWhile_append_of_pos hds,
    List.dropWhile_append_of_pos hds]
  cases rest with
  | nil => simp
  | cons c rest =>
    have hc : isDigit c = false := hrest c rfl
    simp [hc]

theorem head_isDigit {whole rest : List Char} (hne : whole ≠ [])
    (hw : ∀ c ∈ whole, isDigit c = true) : ∀ c ∈ (whole ++ rest).head?, isDigit c = true := by
  intro c hc
  rw [List.head?_append_of_ne_nil _ hne] at hc
  exact hw c (List.mem_of_mem_head? hc)

/-- Digits with a point between them are read place by place. -/
theorem read_places (negative : Bool) {whole fraction : List Char} (hne : whole ≠ [])
    (hw : ∀ c ∈ whole, isDigit c = true) (hfr : ∀ c ∈ fraction, isDigit c = true) :
    read (signText negative ++ (whole ++ '.' :: fraction)) =
      some (ofPlaces negative whole fraction) := by
  have hpoint : ∀ c ∈ ('.' :: fraction).head?, isDigit c = false := by
    rintro c ⟨⟩
    rfl
  have hend : spanDigits fraction = (fraction, []) := by
    have hspan : spanDigits (fraction ++ []) = (fraction, []) := spanDigits_append hfr (by simp)
    rwa [List.append_nil] at hspan
  have hwe : whole.isEmpty = false := by simp [hne]
  rw [read, takeSign_signText negative (head_isDigit hne hw)]
  simp only [spanDigits_append hw hpoint, hend, hwe]
  simp [readExponent, ofPlaces]

/-- Zeros at the end of a fraction change the numeral and not its value. -/
theorem ofPlaces_value (negative : Bool) (whole fraction : List Char) (k : ℕ) :
    (ofPlaces negative whole (fraction ++ List.replicate k '0')).value =
      (ofPlaces negative whole fraction).value := by
  rw [value, value, ofPlaces, ofPlaces, ← List.append_assoc, digitsValue_append,
    digitsValue_replicate_zero]
  simp only [List.length_append, List.length_replicate, Nat.cast_add, neg_add_rev, Nat.add_zero,
    Nat.cast_mul, Nat.cast_pow, Nat.cast_ofNat]
  rw [zpow_add₀ (by norm_num), zpow_neg, zpow_natCast]
  field_simp

theorem sign_eq (x : Decimal) : x.sign = signText x.negative := rfl

/-- **The shape of positional digits**: a sign, digits, and perhaps a point and more digits, which
spell the decimal. -/
theorem exists_positional (x : Decimal) : ∃ whole fraction : List Char, whole ≠ [] ∧
    (∀ c ∈ whole, isDigit c = true) ∧ (∀ c ∈ fraction, isDigit c = true) ∧
    (ofPlaces x.negative whole fraction).value = x.value ∧
    x.positional = signText x.negative ++
      (whole ++ if fraction.isEmpty then [] else '.' :: fraction) := by
  have hdig : ∀ {k : ℕ}, ∀ c ∈ List.replicate k '0', isDigit c = true := fun c hc => by
    rw [(List.mem_replicate.mp hc).2]
    rfl
  obtain ⟨s, u, e⟩ := x
  cases e with
  | ofNat k =>
    -- no point is written; zero has one digit, whatever its exponent
    by_cases hu : u = 0
    · refine ⟨natDigits 0, [], natDigits_ne_nil _, fun c => isDigit_of_mem_natDigits, by simp, ?_,
        ?_⟩
      · simp [value, ofPlaces, digitsValue_natDigits, hu]
      · simp [positional, sign_eq, hu]
    · refine ⟨natDigits u ++ List.replicate k '0', [], by simp [natDigits_ne_nil], ?_, by simp, ?_,
        by simp [positional, sign_eq, hu]⟩
      · intro c hc
        rcases List.mem_append.mp hc with hc | hc
        · exact isDigit_of_mem_natDigits hc
        · exact hdig c hc
      · simp [value, ofPlaces, digitsValue_append, digitsValue_natDigits,
          digitsValue_replicate_zero, mul_comm]
  | negSucc k =>
    -- zeros in front, so that there is a digit before the point
    set ds := List.replicate (k + 1 + 1 - (natDigits u).length) '0' ++ natDigits u with hds
    have hlen : k + 1 < ds.length := by
      rw [hds, List.length_append, List.length_replicate]
      omega
    have hall : ∀ c ∈ ds, isDigit c = true := by
      intro c hc
      rcases List.mem_append.mp hc with hc | hc
      · exact hdig c hc
      · exact isDigit_of_mem_natDigits hc
    have hval : digitsValue ds = u := by
      rw [hds, digitsValue_append, digitsValue_replicate_zero, digitsValue_natDigits]
      simp
    have hdrop : (ds.drop (ds.length - (k + 1))).length = k + 1 := by
      rw [List.length_drop]
      omega
    refine ⟨ds.take (ds.length - (k + 1)), ds.drop (ds.length - (k + 1)), ?_,
      fun c hc => hall c (List.mem_of_mem_take hc), fun c hc => hall c (List.mem_of_mem_drop hc),
      ?_, ?_⟩
    · rw [Ne, List.take_eq_nil_iff, ← List.length_eq_zero_iff]
      omega
    · rw [value, value, ofPlaces, List.take_append_drop, hval, hdrop]
      rfl
    · have hne : (ds.drop (ds.length - (k + 1))).isEmpty = false := by
        rw [List.isEmpty_eq_false_iff, ← List.length_pos_iff, hdrop]
        exact Nat.succ_pos k
      rw [hne]
      rfl

end Decimal

/-! ### The shortest decimal reads back -/

namespace Binary

variable {f : BinaryFormat}

theorem toBinary_of_onGrid {x : Binary f} {s : Bool} {n d : ℕ} {e : ℤ} {y : Decimal}
    (h : onGrid x s n d e = some y) : y.toBinary f = x := by
  simp only [onGrid] at h
  split_ifs at h with hboth heven hdown hup
  · rw [← Option.some.inj h, hboth.1]
  · rw [← Option.some.inj h, hboth.2]
  · rw [← Option.some.inj h, hdown]
  · rw [← Option.some.inj h, hup]

theorem expansion_negative (s : Bool) (m : ℕ) (q : ℤ) : (expansion s m q).negative = s := by
  cases q <;> rfl

/-- Every binary number has a decimal expansion of its own. -/
theorem expansion_value (s : Bool) (m : ℕ) (q : ℤ) : (expansion s m q).value = m * 2 ^ q := by
  cases q with
  | ofNat k => simp [expansion, Decimal.value]
  | negSucc k =>
    rw [expansion, Decimal.value, zpow_negSucc]
    have he : -((k : ℤ) + 1) = -((k + 1 : ℕ) : ℤ) := by push_cast; ring
    have hten : (10 : ℚ) ^ (k + 1) = 5 ^ (k + 1) * 2 ^ (k + 1) := by
      rw [← mul_pow]
      norm_num
    rw [he, zpow_neg, zpow_natCast, hten, Nat.pow_eq]
    push_cast
    field_simp

theorem shortestOf_toBinary (hf : f.Spans) {s : Bool} {m : ℕ} {q : ℤ} (h : f.Canonical m q)
    (hm : 0 < m) :
    (shortestOf (.finite s m q h) s m q : Decimal).toBinary f = .finite s m q h := by
  rw [shortestOf]
  rcases scaleDown m 1 (-q) with ⟨n, d⟩
  dsimp only
  split
  · next y hy =>
    obtain ⟨k, -, hk⟩ := List.exists_of_findSome?_eq_some hy
    exact toBinary_of_onGrid hk
  · have hv := (expansion s m q).fraction_ratio
    rw [expansion_value] at hv
    rw [Decimal.toBinary_eq_ofRatio hf,
      ofRatio_canonical _ (Decimal.fraction_snd_pos _) hm h hv, expansion_negative]

/-- **The shortest decimal of a number is read as the number.** -/
theorem toBinary_of_shortest (hf : f.Spans) {x : Binary f} {y : Decimal}
    (h : x.shortest = some y) : y.toBinary f = x := by
  cases x with
  | nan => cases h
  | infinite s => cases h
  | finite s m q hc =>
    rw [shortest, Option.some.injEq] at h
    split_ifs at h with hm
    · -- a zero is canonical at the least exponent only
      subst hm
      have hq : q = f.minExp := by
        rcases hc.2.2.2 with hq | hfull
        · exact hq
        · exact absurd hfull (by simp)
      subst hq
      rw [← h, Decimal.toBinary, if_pos rfl]
      rfl
    · rw [← h, Decimal.toBinary_congr hf (Decimal.trim_negative _) (Decimal.trim_value _)]
      exact shortestOf_toBinary hf hc (Nat.pos_of_ne_zero hm)

/-- **The text of a number with a value** is a sign, digits, and perhaps a point and more digits;
and the decimal that they spell is read as the number. -/
theorem exists_plain (hf : f.Spans) {x : Binary f} (hx : x.isFinite = true) :
    ∃ (negative : Bool) (whole fraction : List Char), whole ≠ [] ∧
      (∀ c ∈ whole, isDigit c = true) ∧ (∀ c ∈ fraction, isDigit c = true) ∧
      (Decimal.ofPlaces negative whole fraction).toBinary f = x ∧
      x.text .plain = Decimal.signText negative ++
        (whole ++ if fraction.isEmpty then [] else '.' :: fraction) := by
  obtain ⟨y, hy⟩ : ∃ y, x.shortest = some y := by
    cases x with
    | nan => cases hx
    | infinite s => cases hx
    | finite s m q h => exact ⟨_, rfl⟩
  have htext : x.text .plain = y.positional := by
    cases x with
    | nan => cases hy
    | infinite s => cases hy
    | finite s m q h => simp [text, hy, DecimalStyle.write, DecimalStyle.plain]
  obtain ⟨whole, fraction, hne, hw, hfr, hv, hpos⟩ := y.exists_positional
  have hread : (Decimal.ofPlaces y.negative whole fraction).toBinary f = y.toBinary f :=
    Decimal.toBinary_congr hf rfl hv
  exact ⟨y.negative, whole, fraction, hne, hw, hfr, hread.trans (toBinary_of_shortest hf hy),
    htext.trans hpos⟩

end Binary

end Statuary
