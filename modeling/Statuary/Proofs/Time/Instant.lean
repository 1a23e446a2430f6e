import Mathlib.Data.List.TakeWhile
import Statuary.Proofs.Number.Numeral
import Statuary.Time.Instant

/-!
# Which texts of instants are read back

The calendar first: within an era the first days of years and the year of a day belong together
(`Statuary.Date.yearOf_spec`), since the year grows with the day and is right on the first and last
day of every year. So every number of days comes back from its date (`Statuary.Date.toDays_ofDays`).

The text of an instant is read back as the instant if its year has four digits, and **not at all**
otherwise (`Statuary.Instant.ofText_text_iff`): what is written then has a sign in front or a digit
where a hyphen must be.
-/

namespace Statuary

/-! ### The calendar -/

namespace Date

/-- The year, within its era, of a day of the era. -/
def yearOf (day : ℕ) : ℕ :=
  (day - day / 1460 + day / 36524 - day / 146096) / 365

/-- The first day of a year within its era. -/
def firstDay (year : ℕ) : ℕ :=
  365 * year + year / 4 - year / 100

theorem yearOf_le_succ {n : ℕ} (h : n + 1 < eraDays) : yearOf n ≤ yearOf (n + 1) := by
  have h : n + 1 < 146097 := h
  exact Nat.div_le_div_right (by omega)

theorem yearOf_mono {a b : ℕ} (h : a ≤ b) (hb : b < eraDays) : yearOf a ≤ yearOf b := by
  induction b, h using Nat.le_induction with
  | base => exact le_rfl
  | succ b _ ih => exact (ih (Nat.lt_of_succ_lt hb)).trans (yearOf_le_succ hb)

/-- The first day of a year is in it, and the day before is not. The last year of an era is followed
by none, and it ends with the era. -/
theorem year_bounds : ∀ y < 400, firstDay y < eraDays ∧ firstDay (y + 1) ≤ firstDay y + 366 ∧
    (0 < y → yearOf (firstDay y - 1) < y) ∧ (y < 399 → y < yearOf (firstDay (y + 1))) := by
  decide +kernel

/-- **A day lies in its year.** -/
theorem yearOf_spec {n : ℕ} (h : n < eraDays) :
    yearOf n < 400 ∧ firstDay (yearOf n) ≤ n ∧ n < firstDay (yearOf n) + 366 := by
  have hlast : yearOf n ≤ 399 := yearOf_mono (Nat.le_of_lt_succ h) (by decide)
  obtain ⟨hera, hlength, hbefore, hafter⟩ := year_bounds (yearOf n) (by omega)
  refine ⟨by omega, ?_, ?_⟩
  · by_contra hearly
    have hpos : 0 < yearOf n := by
      refine Nat.pos_of_ne_zero fun hzero => hearly ?_
      rw [hzero]
      exact Nat.zero_le n
    exact absurd (yearOf_mono (by omega) (by omega)) (Nat.not_le.mpr (hbefore hpos))
  · by_contra hlate
    rcases Nat.lt_or_ge (yearOf n) 399 with hyear | hyear
    · exact absurd (yearOf_mono (by omega) h) (Nat.not_le.mpr (hafter hyear))
    · have hyear : yearOf n = 399 := by omega
      rw [hyear] at hlate
      exact hlate (h.trans_le (by decide))

/-- The date of a day of a year of an era; years begin in March. -/
def inYear (era : ℤ) (year day : ℕ) : Date :=
  let march := (5 * day + 2) / 153
  let month := if march < 10 then march + 3 else march - 9
  ⟨year + era * 400 + (if month ≤ 2 then 1 else 0), month, day - (153 * march + 2) / 5 + 1⟩

/-- Every number of days is that of a day of a year of an era. -/
theorem exists_inYear (days : ℤ) : ∃ (era : ℤ) (year day : ℕ), year < 400 ∧ day < 366 ∧
    ofDays days = inYear era year day ∧
      days + epochDays = era * eraDays + (firstDay year + day) := by
  have hdays := Int.mul_ediv_add_emod (days + epochDays) eraDays
  have hnonneg : 0 ≤ (days + epochDays) % eraDays := Int.emod_nonneg _ (by decide)
  have hlt : (days + epochDays) % eraDays < eraDays := Int.emod_lt_of_pos _ (by decide)
  obtain ⟨n, hn⟩ := Int.eq_ofNat_of_zero_le hnonneg
  rw [hn] at hlt hdays
  obtain ⟨hyear, hfirst, hlast⟩ := yearOf_spec (Int.ofNat_lt.mp hlt)
  refine ⟨(days + epochDays) / eraDays, yearOf n, n - firstDay (yearOf n), hyear, by omega, ?_, ?_⟩
  · rw [ofDays, hn]
    rfl
  · rw [← Nat.cast_add, Nat.add_sub_cancel' hfirst, mul_comm, hdays]

/-- A day is that many days after the first of its month. -/
theorem march_bounds {day : ℕ} (h : day < 366) : (5 * day + 2) / 153 < 12 ∧
    (153 * ((5 * day + 2) / 153) + 2) / 5 ≤ day ∧
    day < (153 * ((5 * day + 2) / 153) + 2) / 5 + 31 := by
  omega

/-- Months and days are in their ranges. -/
theorem inYear_range (era : ℤ) (year : ℕ) {day : ℕ} (h : day < 366) :
    (1 ≤ (inYear era year day).month ∧ (inYear era year day).month ≤ 12) ∧
      1 ≤ (inYear era year day).day ∧ (inYear era year day).day ≤ 31 := by
  obtain ⟨hmarch, -, hday⟩ := march_bounds h
  simp only [inYear]
  split_ifs <;> omega

theorem toDays_inYear (era : ℤ) {year day : ℕ} (hyear : year < 400) (hday : day < 366) :
    toDays (inYear era year day) = era * eraDays + (firstDay year + day) - epochDays := by
  obtain ⟨hmarch, hinside, -⟩ := march_bounds hday
  have hera : ((year : ℤ) + era * 400) / 400 = era := by omega
  have hrest : (((year : ℤ) + era * 400) % 400).toNat = year := by omega
  simp only [toDays, inYear]
  split_ifs with hlate hearly hearly
  · omega
  · rw [add_zero, hera, hrest, firstDay]
    omega
  · rw [add_sub_cancel_right, hera, hrest, firstDay]
    omega
  · omega

/-- **Every day comes back from its date.** -/
theorem toDays_ofDays (days : ℤ) : toDays (ofDays days) = days := by
  obtain ⟨era, year, day, hyear, hday, hdate, hdays⟩ := exists_inYear days
  rw [hdate, toDays_inYear era hyear hday, ← hdays, Int.add_sub_cancel]

theorem ofDays_range (days : ℤ) : (1 ≤ (ofDays days).month ∧ (ofDays days).month ≤ 12) ∧
    1 ≤ (ofDays days).day ∧ (ofDays days).day ≤ 31 := by
  obtain ⟨era, year, day, -, hday, hdate, -⟩ := exists_inYear days
  rw [hdate]
  exact inYear_range era year hday

/-- The year of a day in terms of its era: the last days of an era are in the year after it. -/
theorem year_inYear (era : ℤ) (year : ℕ) {day : ℕ} (hday : day < 366) :
    (inYear era year day).year = year + era * 400 + (if 306 ≤ day then 1 else 0) := by
  simp only [inYear]
  split_ifs <;> omega

/-- **Years begin with eras**, sixty days before them. -/
theorem le_year_ofDays_iff (era days : ℤ) :
    400 * era ≤ (ofDays days).year ↔ eraDays * era ≤ days + epochDays + 60 := by
  obtain ⟨own, year, day, hyear, hday, hdate, hdays⟩ := exists_inYear days
  rw [hdate, year_inYear own year hday, hdays, eraDays, firstDay]
  -- only in the era before can the last days make a difference
  rcases lt_trichotomy (own + 1) era with hearlier | rfl | hlater
  · split_ifs <;> omega
  · split_ifs <;> omega
  · split_ifs <;> omega

end Date

/-! ### Numbers of a fixed width -/

section Digits

variable {width n : ℕ}

theorem length_padDigits_eq_iff (hwidth : 0 < width) :
    (padDigits width n).length = width ↔ n < 10 ^ width := by
  have hiff : (natDigits n).length ≤ width ↔ n < 10 ^ width :=
    Nat.length_toDigits_le_iff (by decide) hwidth
  rw [← hiff, padDigits, List.length_append, List.length_replicate]
  omega

theorem le_length_padDigits (width n : ℕ) : width ≤ (padDigits width n).length := by
  rw [padDigits, List.length_append, List.length_replicate]
  omega

theorem isDigit_of_mem_padDigits {c : Char} (h : c ∈ padDigits width n) : isDigit c = true := by
  rcases List.mem_append.mp h with h | h
  · rw [List.eq_of_mem_replicate h]
    rfl
  · exact isDigit_of_mem_natDigits h

theorem digitsValue_padDigits (width n : ℕ) : digitsValue (padDigits width n) = n := by
  rw [padDigits, digitsValue_append, digitsValue_replicate_zero, digitsValue_natDigits, mul_zero,
    zero_add]

end Digits

namespace Instant

/-! ### Reading parts of a text -/

theorem readField_append {width : ℕ} (part : String) {ds : List Char} (rest : List Char)
    (h : width ≤ ds.length) (hdigits : ∀ c ∈ ds, isDigit c = true) :
    readField width part (ds ++ rest) =
      .ok (digitsValue (ds.take width), ds.drop width ++ rest) := by
  rw [readField, List.take_append_of_le_length h, List.drop_append_of_le_length h]
  exact if_pos ⟨List.length_take_of_le h,
    List.all_eq_true.mpr fun c hc => hdigits c (List.mem_of_mem_take hc)⟩

/-- A number of the width that is read is read as it is written. -/
theorem readField_padDigits {width n : ℕ} (part : String) (rest : List Char)
    (hwidth : 0 < width) (h : n < 10 ^ width) :
    readField width part (padDigits width n ++ rest) = .ok (n, rest) := by
  have hlength := (length_padDigits_eq_iff hwidth).mpr h
  rw [readField_append part rest hlength.ge fun c => isDigit_of_mem_padDigits,
    List.take_of_length_le hlength.le, List.drop_of_length_le hlength.le, digitsValue_padDigits,
    List.nil_append]

/-- No number begins with a sign. -/
theorem readField_sign (width : ℕ) (part : String) (cs : List Char) :
    readField (width + 1) part ('-' :: cs) =
      .error (.mismatch (String.ofList ('-' :: cs)) part) := by
  refine if_neg fun h => ?_
  rw [List.take_succ_cons, List.all_cons] at h
  exact Bool.false_ne_true (Bool.and_eq_true_iff.mp h.2).1

theorem readMark_cons (c : Char) (rest : List Char) : readMark c (c :: rest) = .ok rest :=
  if_pos rfl

theorem readMark_of_isDigit {c : Char} (rest : List Char) (h : isDigit c = true) :
    readMark '-' (c :: rest) =
      .error (.mismatch (String.ofList (c :: rest)) (String.singleton '-')) := by
  refine if_neg ?_
  rintro rfl
  exact Bool.false_ne_true h

theorem inRange_eq_ok {low high n : ℕ} (what : String) (h : low ≤ n ∧ n ≤ high) :
    inRange what low high n = .ok () :=
  if_pos h

/-- Zeros at the end that are left out are put back. -/
theorem take_stripped (ds : List Char) :
    ((ds.reverse.dropWhile (· == '0')).reverse ++ List.replicate ds.length '0').take ds.length =
      ds := by
  have hzero : ∀ c ∈ ds.reverse.takeWhile (· == '0'), (c == '0') = true :=
    fun c hc => List.mem_takeWhile_imp (p := (· == '0')) hc
  have hzeros : ds.reverse.takeWhile (· == '0') =
      List.replicate (ds.reverse.takeWhile (· == '0')).length '0' :=
    List.eq_replicate_of_mem fun c hc => beq_iff_eq.mp (hzero c hc)
  have hsplit : ds = (ds.reverse.dropWhile (· == '0')).reverse ++
      List.replicate (ds.reverse.takeWhile (· == '0')).length '0' := by
    rw [← List.reverse_replicate, ← hzeros, ← List.reverse_append, List.takeWhile_append_dropWhile,
      List.reverse_reverse]
  generalize (ds.reverse.dropWhile (· == '0')).reverse = front at hsplit ⊢
  generalize (ds.reverse.takeWhile (· == '0')).length = k at hsplit
  subst hsplit
  rw [List.length_append, List.length_replicate, List.take_length_add_append,
    List.take_replicate, Nat.min_eq_left (Nat.le_add_left ..)]

theorem readFraction_fractionText {n : ℕ} (h : n < second) :
    readFraction (fractionText n ++ ['Z']) = (n, ['Z']) := by
  have hlength : (padDigits 9 n).length = 9 := (length_padDigits_eq_iff (by decide)).mpr h
  by_cases hzero : n = 0
  · rw [fractionText, if_pos hzero, hzero]
    rfl
  · have hdigits : ∀ c ∈ ((padDigits 9 n).reverse.dropWhile (· == '0')).reverse,
        isDigit c = true := fun c hc =>
      isDigit_of_mem_padDigits (List.mem_reverse.mp
        ((List.dropWhile_sublist _).mem (List.mem_reverse.mp hc)))
    have hstripped := take_stripped (padDigits 9 n)
    rw [hlength] at hstripped
    have hne : ((padDigits 9 n).reverse.dropWhile (· == '0')).reverse.isEmpty = false := by
      -- zeros alone would spell zero
      rw [Bool.eq_false_iff]
      intro hempty
      rw [List.isEmpty_iff.mp hempty] at hstripped
      have hvalue := congrArg digitsValue hstripped
      rw [digitsValue_padDigits] at hvalue
      exact hzero hvalue.symm
    rw [fractionText, if_neg hzero, List.cons_append, readFraction,
      Decimal.spanDigits_append hdigits (by simp [isDigit])]
    simp only [hne, hstripped, digitsValue_padDigits]
    rfl

/-! ### Reading a text -/

/-- The year of an instant has four digits. -/
def HasYear (t : Instant) : Prop :=
  0 ≤ t.date.year ∧ t.date.year ≤ 9999

instance : DecidablePred HasYear :=
  fun t => inferInstanceAs (Decidable (0 ≤ t.date.year ∧ t.date.year ≤ 9999))

/-- The instants whose years have four digits, by their seconds since the beginning of 1970. -/
theorem hasYear_iff (t : Instant) :
    t.HasYear ↔ -62167219200 ≤ t.seconds ∧ t.seconds < 253402300800 := by
  have hfirst := Date.le_year_ofDays_iff 0 (t.seconds / 86400)
  have hlast := Date.le_year_ofDays_iff 25 (t.seconds / 86400)
  rw [Date.epochDays, Date.eraDays] at hfirst hlast
  rw [HasYear, date]
  omega

/-- The seconds of an instant are those of its date and its time of day. -/
theorem seconds_eq (t : Instant) : t.seconds = t.date.toDays * 86400 + (t.timeOfDay / 3600 * 3600 +
    t.timeOfDay / 60 % 60 * 60 + t.timeOfDay % 60 : ℕ) := by
  rw [date, Date.toDays_ofDays, timeOfDay]
  omega

theorem nanos_eq (t : Instant) : t.nanos = t.seconds * second + t.fraction := by
  have hnonneg : 0 ≤ t.nanos % second := Int.emod_nonneg _ (by decide)
  rw [seconds, fraction, Int.toNat_of_nonneg hnonneg, mul_comm]
  exact (Int.mul_ediv_add_emod _ _).symm

theorem timeOfDay_lt (t : Instant) : t.timeOfDay < 86400 := by
  rw [timeOfDay]
  omega

theorem fraction_lt (t : Instant) : t.fraction < second := by
  rw [fraction, second]
  omega

/-- **An instant is read back from its text** if its year has four digits. -/
theorem ofText_text {t : Instant} (h : t.HasYear) : ofText t.text = .ok t := by
  obtain ⟨year, hyear⟩ := Int.eq_ofNat_of_zero_le h.1
  have hfour : year < 10 ^ 4 := by
    have hle := h.2
    rw [hyear] at hle
    omega
  obtain ⟨hmonth, hday⟩ : (1 ≤ t.date.month ∧ t.date.month ≤ 12) ∧
      1 ≤ t.date.day ∧ t.date.day ≤ 31 := Date.ofDays_range _
  have hdate : t.date = ⟨(year : ℤ), t.date.month, t.date.day⟩ := by rw [← hyear]
  have htime := t.timeOfDay_lt
  have hyearText : yearText t.date.year = padDigits 4 year := by
    rw [hyear, yearText, if_neg (by omega)]
    rfl
  rw [ofText, text, String.toList_ofList, clockText, hyearText]
  simp only [List.append_assoc, List.cons_append]
  simp (disch := omega) only [readField_padDigits, readMark_cons, inRange_eq_ok,
    readFraction_fractionText t.fraction_lt, bind, Except.bind]
  rw [if_neg (not_not.mpr rfl), ← hdate, ← seconds_eq, ← nanos_eq]
  rfl

/-- A year of another width is not read. -/
theorem exists_error_of_not_hasYear {t : Instant} (h : ¬ t.HasYear) :
    ∃ fault, ofText t.text = .error fault := by
  rw [ofText, text, String.toList_ofList, clockText, yearText]
  split_ifs with hneg
  · -- a sign stands where a digit must be
    simp only [List.append_assoc, List.cons_append]
    rw [readField_sign]
    exact ⟨_, rfl⟩
  · -- a digit stands where a hyphen must be
    have hwide : ¬ (padDigits 4 t.date.year.natAbs).length = 4 := by
      rw [length_padDigits_eq_iff (by decide)]
      exact fun hlt => h ⟨by omega, by omega⟩
    have hlong : 4 < (padDigits 4 t.date.year.natAbs).length := by
      have hleast := le_length_padDigits 4 t.date.year.natAbs
      omega
    have hrest : (padDigits 4 t.date.year.natAbs).drop 4 =
        (padDigits 4 t.date.year.natAbs)[4] :: (padDigits 4 t.date.year.natAbs).drop 5 :=
      List.drop_eq_getElem_cons hlong
    have hdigit : isDigit (padDigits 4 t.date.year.natAbs)[4] = true :=
      isDigit_of_mem_padDigits (List.getElem_mem hlong)
    simp only [List.append_assoc]
    rw [readField_append _ _ hlong.le fun c => isDigit_of_mem_padDigits, hrest]
    simp only [bind, Except.bind, List.cons_append, readMark_of_isDigit _ hdigit]
    exact ⟨_, rfl⟩

/-- **Which instants are read back**: those whose years have four digits. -/
theorem ofText_text_iff (t : Instant) : (∃ u, ofText t.text = .ok u) ↔ t.HasYear := by
  constructor
  · rintro ⟨u, hu⟩
    by_contra h
    obtain ⟨fault, hfault⟩ := exists_error_of_not_hasYear h
    rw [hfault] at hu
    cases hu
  · exact fun h => ⟨t, ofText_text h⟩

end Instant

end Statuary
