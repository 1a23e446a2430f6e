import Mathlib.Computability.RegularExpressions
import Statuary.Proofs.Tag.ScanWord

/-!
# Which words are numerals

Two regular expressions say what a numeral looks like (`Statuary.NumberForm.integer`,
`Statuary.NumberForm.decimal`), and both scans of a word hold **exactly for the words that match**
(`Statuary.Scan.isInteger_eq_rmatch`, `Statuary.Scan.isDecimal_eq_rmatch`), whatever characters are
in them.

Between an expression and a scan stands the numeral as it is written, with its parts
(`Statuary.IsWhole`, `Statuary.Decimal.IsWritten`). The parts have a value each, so from them also
follows what a numeral is read as. How the digits of an exponent are counted is left open there, for
they are counted up to ten thousand and what follows only if it can matter. That it cannot matter
for words of ordinary length, nor for exponents below a hundred thousand, is the last part
(`Statuary.Decimal.IsWritten.exists_exact`).
-/

namespace Statuary

/-! ### Regular expressions -/

namespace NumberForm

open RegularExpression

/-- One of some characters. -/
def oneOf (cs : List Char) : RegularExpression Char :=
  (cs.map char).sum

/-- A match or nothing. -/
def opt (P : RegularExpression Char) : RegularExpression Char :=
  1 + P

/-- One match or more. -/
def many (P : RegularExpression Char) : RegularExpression Char :=
  P * P.star

/-- `[0-9]` -/
def digit : RegularExpression Char :=
  oneOf ['0', '1', '2', '3', '4', '5', '6', '7', '8', '9']

/-- `[-+]?` -/
def sign : RegularExpression Char :=
  opt (oneOf ['-', '+'])

/-- `[-+]?[0-9]+` -/
def integer : RegularExpression Char :=
  sign * many digit

/-- `[0-9]+[.]?|[0-9]*[.][0-9]+` -/
def mantissa : RegularExpression Char :=
  many digit * opt (char '.') + digit.star * (char '.' * many digit)

/-- `[eE][-+]?[0-9]+` -/
def exponent : RegularExpression Char :=
  oneOf ['e', 'E'] * integer

/-- `[-+]?([0-9]+[.]?|[0-9]*[.][0-9]+)([eE][-+]?[0-9]+)?` -/
def decimal : RegularExpression Char :=
  sign * (mantissa * opt exponent)

variable {P : RegularExpression Char} {cs : List Char}

theorem oneOf_rmatch_iff {ds : List Char} : (oneOf ds).rmatch cs ↔ ∃ c ∈ ds, cs = [c] := by
  induction ds with
  | nil => simp [oneOf, zero_rmatch]
  | cons d ds ih =>
    rw [List.exists_mem_cons_iff, ← ih, ← char_rmatch_iff, ← add_rmatch_iff]
    rfl

theorem opt_rmatch_iff : (opt P).rmatch cs ↔ cs = [] ∨ P.rmatch cs := by
  rw [opt, add_rmatch_iff, one_rmatch_iff]

theorem toNat_le_of_isDigit {c : Char} (h : isDigit c = true) : c.toNat ≤ 57 := by
  rw [isDigit, Bool.and_eq_true, decide_eq_true_eq, decide_eq_true_eq] at h
  exact h.2

theorem isDigit_iff_mem {c : Char} :
    isDigit c = true ↔ c ∈ ['0', '1', '2', '3', '4', '5', '6', '7', '8', '9'] := by
  constructor
  · intro h
    have hall : ∀ c : Char, c.toNat < 58 → isDigit c = true →
        c ∈ ['0', '1', '2', '3', '4', '5', '6', '7', '8', '9'] :=
      Utf8.forall_char_lt (by decide)
    exact hall c (Nat.lt_succ_of_le (toNat_le_of_isDigit h)) h
  · have hall : ['0', '1', '2', '3', '4', '5', '6', '7', '8', '9'].all isDigit = true := by decide
    exact List.all_eq_true.mp hall c

theorem star_digit_rmatch_iff : digit.star.rmatch cs ↔ ∀ c ∈ cs, isDigit c = true := by
  rw [star_rmatch_iff]
  constructor
  · rintro ⟨parts, rfl, hparts⟩ c hc
    obtain ⟨part, hpart, hc⟩ := List.mem_flatten.mp hc
    obtain ⟨d, hd, rfl⟩ := oneOf_rmatch_iff.mp (hparts part hpart).2
    rw [List.mem_singleton.mp hc]
    exact isDigit_iff_mem.mpr hd
  · intro h
    refine ⟨cs.map fun c => [c], by rw [← List.flatMap_def, List.flatMap_singleton'], ?_⟩
    simp only [List.forall_mem_map]
    exact fun c hc => ⟨List.cons_ne_nil _ _,
      oneOf_rmatch_iff.mpr ⟨c, isDigit_iff_mem.mp (h c hc), rfl⟩⟩

end NumberForm

/-! ### Parts of a numeral -/

/-- A sign in front of a number, or none. -/
inductive IsSign : Bool → List Char → Prop
  | none : IsSign false []
  | plus : IsSign false ['+']
  | minus : IsSign true ['-']

/-- Digits, at least one. -/
def IsDigits (ds : List Char) : Prop :=
  ds ≠ [] ∧ ∀ c ∈ ds, isDigit c = true

/-- **A whole number** as it is written. -/
inductive IsWhole : List Char → ℤ → Prop
  | mk {negative : Bool} {s ds : List Char} (hs : IsSign negative s) (hds : IsDigits ds) :
    IsWhole (s ++ ds) (Binary.signed negative (digitsValue ds))

/-- Digits with a point among them or behind them, or without one: the digits before the point,
those after it, and how they are written. -/
inductive IsMantissa : List Char → List Char → List Char → Prop
  | whole {ds : List Char} (hds : IsDigits ds) : IsMantissa ds [] ds
  | point {ds : List Char} (hds : IsDigits ds) : IsMantissa ds [] (ds ++ ['.'])
  | fraction {ds es : List Char} (hds : ∀ c ∈ ds, isDigit c = true) (hes : IsDigits es) :
    IsMantissa ds es (ds ++ '.' :: es)

/-- An exponent, the value of whose digits is said by `E`, or none. -/
inductive IsExponent (E : List Char → ℕ) : List Char → ℤ → Prop
  | none : IsExponent E [] 0
  | some {letter : Char} {negative : Bool} {s ds : List Char} (hletter : letter ∈ ['e', 'E'])
    (hs : IsSign negative s) (hds : IsDigits ds) :
    IsExponent E (letter :: (s ++ ds)) (Binary.signed negative (E ds))

/-- **A decimal numeral** as it is written. -/
inductive Decimal.IsWritten (E : List Char → ℕ) : List Char → Decimal → Prop
  | mk {negative : Bool} {s ds es m t : List Char} {e : ℤ} (hs : IsSign negative s)
    (hm : IsMantissa ds es m) (ht : IsExponent E t e) :
    IsWritten E (s ++ (m ++ t)) ⟨negative, digitsValue (ds ++ es), e - es.length⟩

variable {cs : List Char}

/-- Every text is a sign and what is read behind it. -/
theorem exists_isSign (cs : List Char) :
    ∃ s, IsSign (takeSign cs).1 s ∧ cs = s ++ (takeSign cs).2 := by
  fun_cases takeSign cs with
  | case1 cs => exact ⟨['-'], .minus, rfl⟩
  | case2 cs => exact ⟨['+'], .plus, rfl⟩
  | case3 cs => exact ⟨[], .none, rfl⟩

/-- Behind a sign stands none. -/
theorem takeSign_append {negative : Bool} {s : List Char} (hs : IsSign negative s)
    (hcs : ∀ c ∈ cs.head?, c ≠ '-' ∧ c ≠ '+') : takeSign (s ++ cs) = (negative, cs) := by
  rcases hs with _ | _ | _
  · rw [List.nil_append, takeSign]
    · rintro rest rfl
      exact (hcs '-' rfl).1 rfl
    · rintro rest rfl
      exact (hcs '+' rfl).2 rfl
  · rfl
  · rfl

theorem ne_sign_of_isDigit {c : Char} (hc : isDigit c = true) : c ≠ '-' ∧ c ≠ '+' := by
  constructor <;> rintro rfl <;> exact absurd hc (by decide)

theorem IsDigits.ne_sign {ds : List Char} (h : IsDigits ds) : ∀ c ∈ ds.head?, c ≠ '-' ∧ c ≠ '+' :=
  fun _ hc => ne_sign_of_isDigit (h.2 _ (List.mem_of_mem_head? hc))

/-- The test for digits that readers make. -/
theorem isDigits_iff {ds : List Char} :
    (ds.isEmpty || !ds.all isDigit) = false ↔ IsDigits ds := by
  rw [IsDigits, Bool.or_eq_false_iff, List.isEmpty_eq_false_iff, Bool.not_eq_false',
    List.all_eq_true]

/-- **Whole numbers** are read as they are written. -/
theorem readInteger_eq_some_iff {n : ℤ} : readInteger cs = some n ↔ IsWhole cs n := by
  have hread : readInteger cs = if (takeSign cs).2.isEmpty || !(takeSign cs).2.all isDigit then none
      else some (Binary.signed (takeSign cs).1 (digitsValue (takeSign cs).2)) := rfl
  constructor
  · intro h
    obtain ⟨s, hs, hcs⟩ := exists_isSign cs
    rw [hread] at h
    split_ifs at h with hdigits
    obtain rfl := Option.some.inj h
    have hwhole := IsWhole.mk hs (isDigits_iff.mp (Bool.eq_false_iff.mpr hdigits))
    rwa [← hcs] at hwhole
  · rintro ⟨hs, hds⟩
    rw [hread, takeSign_append hs hds.ne_sign, if_neg (Bool.eq_false_iff.mp (isDigits_iff.mpr hds))]

namespace Decimal

theorem mark_iff {c : Char} : (c == 'e' || c == 'E') = true ↔ c ∈ ['e', 'E'] := by
  simp

/-- **Exponents** are read as they are written. -/
theorem readExponent_eq_some_iff {e : ℤ} :
    readExponent cs = some e ↔ IsExponent exponentValue cs e := by
  have hread (c : Char) (cs : List Char) : readExponent (c :: cs) =
      if c == 'e' || c == 'E' then
        if (takeSign cs).2.isEmpty || !(takeSign cs).2.all isDigit then none
        else some (Binary.signed (takeSign cs).1 (exponentValue (takeSign cs).2))
      else none := rfl
  constructor
  · intro h
    rcases cs with _ | ⟨c, cs⟩
    · obtain rfl := Option.some.inj h
      exact .none
    · obtain ⟨s, hs, hcs⟩ := exists_isSign cs
      rw [hread] at h
      split_ifs at h with hletter hdigits
      obtain rfl := Option.some.inj h
      have hexponent := IsExponent.some (E := exponentValue) (mark_iff.mp hletter) hs
        (isDigits_iff.mp (Bool.eq_false_iff.mpr hdigits))
      rwa [← hcs] at hexponent
  · rintro (_ | ⟨hletter, hs, hds⟩)
    · rfl
    · rw [hread, if_pos (mark_iff.mpr hletter), takeSign_append hs hds.ne_sign,
        if_neg (Bool.eq_false_iff.mp (isDigits_iff.mpr hds))]

/-- An exponent begins with no digit and no point. -/
theorem head_of_isExponent {E : List Char → ℕ} {e : ℤ} (h : IsExponent E cs e) :
    ∀ c ∈ cs.head?, isDigit c = false ∧ c ≠ '.' := by
  rcases h with _ | ⟨hletter, -, -⟩
  · exact fun _ hc => absurd hc (by simp)
  · rintro c ⟨⟩
    rcases List.mem_pair.mp hletter with rfl | rfl <;> exact ⟨rfl, by decide⟩

/-- A mantissa is what a numeral begins with. -/
theorem exists_part {ds es m t : List Char} (hm : IsMantissa ds es m)
    (ht : ∀ c ∈ t.head?, isDigit c = false ∧ c ≠ '.') :
    ∃ part, Places (m ++ t) ds part t ∧ part.tail = es ∧ (ds.isEmpty && es.isEmpty) = false := by
  have hrest : ∀ c ∈ t.head?, isDigit c = false := fun c hc => (ht c hc).1
  rcases hm with ⟨hds⟩ | ⟨hds⟩ | ⟨hds, hes⟩
  · exact ⟨[], ⟨rfl, hds.2, .inl ⟨rfl, fun c hc => (ht c hc).2⟩, hrest⟩, rfl, by simp [hds.1]⟩
  · exact ⟨['.'], ⟨List.append_assoc .., hds.2, .inr ⟨[], rfl, by simp⟩, hrest⟩, rfl,
      by simp [hds.1]⟩
  · exact ⟨'.' :: es, ⟨List.append_assoc .., hds, .inr ⟨es, rfl, hes.2⟩, hrest⟩, rfl,
      by simp [hes.1]⟩

/-- Every beginning with a digit is that of a mantissa. -/
theorem isMantissa_of_places {ds part t : List Char} (h : Places cs ds part t)
    (hne : ¬ (ds.isEmpty && part.tail.isEmpty) = true) :
    ∃ m, cs = m ++ t ∧ IsMantissa ds part.tail m := by
  refine ⟨ds ++ part, h.eq.trans (List.append_assoc ..).symm, ?_⟩
  have hcs := h.whole
  rcases h.part with ⟨rfl, -⟩ | ⟨es, rfl, hes⟩
  · rw [List.append_nil]
    exact .whole ⟨by simpa using hne, hcs⟩
  · by_cases hempty : es = []
    · subst hempty
      exact .point ⟨by simpa using hne, hcs⟩
    · exact .fraction hcs ⟨hempty, hes⟩

/-- A mantissa begins with no sign. -/
theorem head_of_isMantissa {ds es m : List Char} (hm : IsMantissa ds es m) (t : List Char) :
    ∀ c ∈ (m ++ t).head?, c ≠ '-' ∧ c ≠ '+' := by
  have hdigits : ∀ {ds : List Char}, IsDigits ds → ∀ rest, ∀ c ∈ (ds ++ rest).head?,
      c ≠ '-' ∧ c ≠ '+' := fun hds rest c hc => by
    rw [List.head?_append_of_ne_nil _ hds.1] at hc
    exact hds.ne_sign c hc
  rcases hm with ⟨hds⟩ | ⟨hds⟩ | ⟨hds, -⟩
  · exact hdigits hds t
  · rw [List.append_assoc]
    exact hdigits hds _
  · rw [List.append_assoc]
    rcases eq_or_ne ds [] with rfl | hne
    · rintro c ⟨⟩
      decide
    · exact hdigits ⟨hne, hds⟩ _

/-- **Decimal numerals** are read as they are written. -/
theorem read_eq_some_iff {x : Decimal} : read cs = some x ↔ IsWritten exponentValue cs x := by
  constructor
  · intro h
    obtain ⟨s, hs, hcs⟩ := exists_isSign cs
    obtain ⟨ds, part, t, hplaces⟩ := exists_places (takeSign cs).2
    rw [read_of_places hplaces] at h
    split_ifs at h with hempty
    obtain ⟨e, he, rfl⟩ := Option.map_eq_some_iff.mp h
    obtain ⟨m, hm, hmantissa⟩ := isMantissa_of_places hplaces hempty
    rw [hm] at hcs
    have hwritten := IsWritten.mk hs hmantissa (readExponent_eq_some_iff.mp he)
    rwa [← hcs] at hwritten
  · rintro @⟨negative, s, ds, es, m, t, e, hs, hm, ht⟩
    obtain ⟨part, hplaces, rfl, hempty⟩ := exists_part hm (head_of_isExponent ht)
    have hsign := takeSign_append hs (head_of_isMantissa hm t)
    rw [read_of_places (by rwa [hsign]), hsign, hempty, readExponent_eq_some_iff.mpr ht]
    rfl

end Decimal

/-! ### Matches -/

namespace NumberForm

open RegularExpression

theorem many_digit_rmatch_iff : (many digit).rmatch cs ↔ IsDigits cs := by
  rw [many, mul_rmatch_iff]
  constructor
  · rintro ⟨first, rest, rfl, hfirst, hrest⟩
    obtain ⟨c, hc, rfl⟩ := oneOf_rmatch_iff.mp hfirst
    exact ⟨by simp, List.forall_mem_cons.mpr
      ⟨isDigit_iff_mem.mpr hc, star_digit_rmatch_iff.mp hrest⟩⟩
  · rintro ⟨hne, hcs⟩
    obtain ⟨c, rest, rfl⟩ := List.exists_cons_of_ne_nil hne
    obtain ⟨hc, hrest⟩ := List.forall_mem_cons.mp hcs
    exact ⟨[c], rest, rfl, oneOf_rmatch_iff.mpr ⟨c, isDigit_iff_mem.mp hc, rfl⟩,
      star_digit_rmatch_iff.mpr hrest⟩

theorem sign_rmatch_iff : sign.rmatch cs ↔ ∃ negative, IsSign negative cs := by
  rw [sign, opt_rmatch_iff, oneOf_rmatch_iff]
  constructor
  · rintro (rfl | ⟨c, hc, rfl⟩)
    · exact ⟨_, .none⟩
    · rcases List.mem_pair.mp hc with rfl | rfl
      · exact ⟨_, .minus⟩
      · exact ⟨_, .plus⟩
  · rintro ⟨negative, _ | _ | _⟩
    · exact .inl rfl
    · exact .inr ⟨'+', by decide, rfl⟩
    · exact .inr ⟨'-', by decide, rfl⟩

theorem integer_rmatch_iff : integer.rmatch cs ↔ ∃ n, IsWhole cs n := by
  rw [integer, mul_rmatch_iff]
  constructor
  · rintro ⟨s, ds, rfl, hs, hds⟩
    obtain ⟨negative, hs⟩ := sign_rmatch_iff.mp hs
    exact ⟨_, .mk hs (many_digit_rmatch_iff.mp hds)⟩
  · rintro ⟨n, hs, hds⟩
    exact ⟨_, _, rfl, sign_rmatch_iff.mpr ⟨_, hs⟩, many_digit_rmatch_iff.mpr hds⟩

theorem mantissa_rmatch_iff : mantissa.rmatch cs ↔ ∃ ds es, IsMantissa ds es cs := by
  rw [mantissa, add_rmatch_iff, mul_rmatch_iff, mul_rmatch_iff]
  constructor
  · rintro (⟨ds, point, rfl, hds, hpoint⟩ | ⟨ds, rest, rfl, hds, hrest⟩)
    · rcases opt_rmatch_iff.mp hpoint with rfl | hpoint
      · rw [List.append_nil]
        exact ⟨_, _, .whole (many_digit_rmatch_iff.mp hds)⟩
      · rw [(char_rmatch_iff _ _).mp hpoint]
        exact ⟨_, _, .point (many_digit_rmatch_iff.mp hds)⟩
    · obtain ⟨point, es, rfl, hpoint, hes⟩ := (mul_rmatch_iff _ _ _).mp hrest
      rw [(char_rmatch_iff _ _).mp hpoint]
      exact ⟨_, _, .fraction (star_digit_rmatch_iff.mp hds) (many_digit_rmatch_iff.mp hes)⟩
  · rintro ⟨ds, es, ⟨hds⟩ | ⟨hds⟩ | ⟨hds, hes⟩⟩
    · exact .inl ⟨cs, [], (List.append_nil _).symm, many_digit_rmatch_iff.mpr hds,
        opt_rmatch_iff.mpr (.inl rfl)⟩
    · exact .inl ⟨ds, ['.'], rfl, many_digit_rmatch_iff.mpr hds,
        opt_rmatch_iff.mpr (.inr ((char_rmatch_iff _ _).mpr rfl))⟩
    · exact .inr ⟨ds, '.' :: es, rfl, star_digit_rmatch_iff.mpr hds, (mul_rmatch_iff _ _ _).mpr
        ⟨['.'], es, rfl, (char_rmatch_iff _ _).mpr rfl, many_digit_rmatch_iff.mpr hes⟩⟩

theorem opt_exponent_rmatch_iff (E : List Char → ℕ) :
    (opt exponent).rmatch cs ↔ ∃ e, IsExponent E cs e := by
  rw [opt_rmatch_iff, exponent, mul_rmatch_iff]
  constructor
  · rintro (rfl | ⟨letter, rest, rfl, hletter, hrest⟩)
    · exact ⟨_, .none⟩
    · obtain ⟨c, hc, rfl⟩ := oneOf_rmatch_iff.mp hletter
      obtain ⟨n, hs, hds⟩ := integer_rmatch_iff.mp hrest
      rw [List.singleton_append]
      exact ⟨_, .some hc hs hds⟩
  · rintro ⟨e, _ | ⟨hletter, hs, hds⟩⟩
    · exact .inl rfl
    · exact .inr ⟨[_], _, rfl, oneOf_rmatch_iff.mpr ⟨_, hletter, rfl⟩,
        integer_rmatch_iff.mpr ⟨_, .mk hs hds⟩⟩

theorem decimal_rmatch_iff (E : List Char → ℕ) :
    decimal.rmatch cs ↔ ∃ x, Decimal.IsWritten E cs x := by
  rw [decimal, mul_rmatch_iff]
  constructor
  · rintro ⟨s, rest, rfl, hs, hrest⟩
    obtain ⟨m, t, rfl, hm, ht⟩ := (mul_rmatch_iff _ _ _).mp hrest
    obtain ⟨negative, hs⟩ := sign_rmatch_iff.mp hs
    obtain ⟨ds, es, hm⟩ := mantissa_rmatch_iff.mp hm
    obtain ⟨e, ht⟩ := (opt_exponent_rmatch_iff E).mp ht
    exact ⟨_, .mk hs hm ht⟩
  · rintro ⟨x, hs, hm, ht⟩
    exact ⟨_, _, rfl, sign_rmatch_iff.mpr ⟨_, hs⟩, (mul_rmatch_iff _ _ _).mpr ⟨_, _, rfl,
      mantissa_rmatch_iff.mpr ⟨_, _, hm⟩, (opt_exponent_rmatch_iff E).mpr ⟨_, ht⟩⟩⟩

end NumberForm

namespace Scan

/-- **The scan of a whole number holds for the words that match.** -/
theorem isInteger_eq_rmatch (word : List Char) :
    isInteger word = pure (NumberForm.integer.rmatch word) := by
  rw [isInteger_eq]
  refine congrArg pure (Bool.eq_iff_iff.mpr ?_)
  rw [Option.isSome_iff_exists, NumberForm.integer_rmatch_iff]
  exact exists_congr fun n => readInteger_eq_some_iff

/-- **The scan of a decimal holds for the words that match.** -/
theorem isDecimal_eq_rmatch (word : List Char) :
    isDecimal word = pure (NumberForm.decimal.rmatch word) := by
  rw [isDecimal_eq]
  refine congrArg pure (Bool.eq_iff_iff.mpr ?_)
  rw [Option.isSome_iff_exists, NumberForm.decimal_rmatch_iff Decimal.exponentValue]
  exact exists_congr fun x => Decimal.read_eq_some_iff

end Scan

/-! ### How exponents are counted -/

theorem digitsValue_lt {ds : List Char} (h : ∀ c ∈ ds, isDigit c = true) :
    digitsValue ds < 10 ^ ds.length := by
  induction ds using List.reverseRecOn with
  | nil => exact Nat.one_pos
  | append_singleton ds c ih =>
    obtain ⟨hds, hc⟩ := List.forall_mem_append.mp h
    have hdigit : digitsValue [c] ≤ 9 := by
      have hle := NumberForm.toNat_le_of_isDigit (hc c (List.mem_singleton_self c))
      change 10 * 0 + (c.toNat - 48) ≤ 9
      omega
    rw [digitsValue_append, List.length_append, List.length_singleton, pow_succ]
    have hlt := ih hds
    omega

namespace Decimal

/-- Two ways to count digits that agree below a hundred thousand, and where they do not agree both
give a large number. -/
structure CountsAlike (E E' : List Char → ℕ) : Prop where
  eq_of_lt : ∀ ds, digitsValue ds < 100000 → E ds = E' ds
  eq_or_le : ∀ ds, E ds = E' ds ∨ 10000 ≤ E ds ∧ 10000 ≤ E' ds

theorem CountsAlike.symm {E E' : List Char → ℕ} (h : CountsAlike E E') : CountsAlike E' E :=
  ⟨fun ds hds => (h.eq_of_lt ds hds).symm, fun ds => (h.eq_or_le ds).imp Eq.symm And.symm⟩

/-- Digits are counted to their end, or at least to ten thousand. -/
theorem exponentValue_eq_or (ds : List Char) : exponentValue ds = digitsValue ds ∨
    10000 ≤ exponentValue ds ∧ 100000 ≤ digitsValue ds := by
  induction ds using List.reverseRecOn with
  | nil => exact .inl rfl
  | append_singleton ds c ih =>
    have hcount : exponentValue (ds ++ [c]) =
        if exponentValue ds < 10000 then 10 * exponentValue ds + digitValue c
        else exponentValue ds := by
      rw [exponentValue, List.foldl_append]
      rfl
    have hvalue : digitsValue (ds ++ [c]) = 10 * digitsValue ds + digitValue c := by
      rw [digitsValue, List.foldl_append]
      rfl
    rw [hcount, hvalue]
    split_ifs <;> omega

theorem countsAlike_exponentValue : CountsAlike exponentValue digitsValue := by
  refine ⟨fun ds hds => ?_, fun ds => ?_⟩
  · rcases exponentValue_eq_or ds with heq | ⟨-, hlarge⟩
    · exact heq
    · omega
  · exact (exponentValue_eq_or ds).imp_right fun ⟨hcount, hlarge⟩ => ⟨hcount, by omega⟩

/-- **It does not matter how the exponents of a word are counted**: the word is not too long, or
its exponents are not too large. -/
def CountsExactly (word : List Char) : Prop :=
  word.length ≤ 7000 ∨ ∀ (letter : Char) (negative : Bool) (s ds : List Char),
    letter ∈ ['e', 'E'] → IsSign negative s → IsDigits ds → letter :: (s ++ ds) <:+: word →
      digitsValue ds < 100000

theorem CountsExactly.of_prefix {word : List Char} (h : CountsExactly word) (hcs : cs <+: word) :
    CountsExactly cs :=
  h.imp hcs.length_le.trans fun hsmall letter negative s ds hletter hs hds hpart =>
    hsmall letter negative s ds hletter hs hds (hpart.trans hcs.isInfix)

variable {f : BinaryFormat} {negative : Bool} {units : ℕ} {e : ℤ}

/-- Above every unit of the format a number other than zero is infinite. -/
theorem toBinary_of_far_above (h : f.maxExp + f.precision ≤ e) :
    (⟨negative, units, e⟩ : Decimal).toBinary f =
      if units = 0 then .zero negative else .infinite negative := by
  rw [toBinary]
  split_ifs <;> rfl

/-- Below every unit of the format all numbers vanish. -/
theorem toBinary_of_far_below (hf : f.Spans) (hneg : e < 0)
    (h : (units.log2 : ℤ) + 1 + 3 * e < f.minExp - 1) :
    (⟨negative, units, e⟩ : Decimal).toBinary f = .zero negative := by
  have habove : ¬ f.maxExp + f.precision ≤ e := fun hle => by
    have hspan := hf.2
    omega
  rw [toBinary, if_neg habove, if_pos h, ite_self]

/-- The digits of a short mantissa have few bits. -/
theorem log2_lt {ds : List Char} (hds : ∀ c ∈ ds, isDigit c = true) (hlength : ds.length ≤ 7000) :
    (digitsValue ds).log2 ≤ 28000 := by
  rcases eq_or_ne (digitsValue ds) 0 with hzero | hne
  · rw [hzero]
    exact Nat.zero_le _
  · have hlt : digitsValue ds < 2 ^ (4 * ds.length) := by
      calc digitsValue ds < 10 ^ ds.length := digitsValue_lt hds
        _ ≤ 16 ^ ds.length := Nat.pow_le_pow_left (by norm_num) _
        _ = 2 ^ (4 * ds.length) := by rw [pow_mul]; norm_num
    have hlog := (Nat.log2_lt hne).mpr hlt
    omega

/-- A mantissa is no shorter than its digits. -/
theorem digits_of_isMantissa {ds es m : List Char} (hm : IsMantissa ds es m) :
    (∀ c ∈ ds ++ es, isDigit c = true) ∧ (ds ++ es).length ≤ m.length := by
  rcases hm with ⟨hds⟩ | ⟨hds⟩ | ⟨hds, hes⟩
  · rw [List.append_nil]
    exact ⟨hds.2, le_rfl⟩
  · rw [List.append_nil, List.length_append]
    exact ⟨hds.2, Nat.le_add_right ..⟩
  · refine ⟨List.forall_mem_append.mpr ⟨hds, hes.2⟩, ?_⟩
    rw [List.length_append, List.length_append, List.length_cons]
    omega

/-- **A numeral is read as what it says** whichever way its exponent is counted. -/
theorem IsWritten.exists_alike {E E' : List Char → ℕ} (hE : CountsAlike E E') {cs : List Char}
    (hcs : CountsExactly cs) {x : Decimal} (h : IsWritten E cs x) :
    ∃ y, IsWritten E' cs y ∧ ∀ f : BinaryFormat, f.Spans → f.maxExp + f.precision ≤ 3000 →
      -1900 ≤ f.minExp → y.toBinary f = x.toBinary f := by
  rcases h with @⟨negative, s, ds, es, m, t, e, hs, hm, ht⟩
  rcases ht with _ | @⟨letter, negative', s', ds', hletter, hs', hds'⟩
  · exact ⟨_, .mk hs hm .none, fun _ _ _ _ => rfl⟩
  · refine ⟨_, .mk hs hm (.some hletter hs' hds'), fun f hf habove hbelow => ?_⟩
    by_cases heq : E ds' = E' ds'
    · rw [heq]
    · have hlength : (s ++ (m ++ letter :: (s' ++ ds'))).length ≤ 7000 := by
        refine hcs.resolve_right fun hsmall => heq (hE.eq_of_lt ds' ?_)
        refine hsmall letter negative' s' ds' hletter hs' hds' (List.IsSuffix.isInfix ?_)
        rw [← List.append_assoc]
        exact List.suffix_append ..
      obtain ⟨hdigits, hshort⟩ := digits_of_isMantissa hm
      simp only [List.length_append] at hlength hshort
      obtain ⟨hlarge, hlarge'⟩ := (hE.eq_or_le ds').resolve_left heq
      cases negative' with
      | false =>
        have hfar : ∀ n : ℕ, 10000 ≤ n →
            f.maxExp + f.precision ≤ Binary.signed false n - es.length := by
          intro n hn
          change f.maxExp + f.precision ≤ (n : ℤ) - es.length
          omega
        rw [toBinary_of_far_above (hfar _ hlarge'), toBinary_of_far_above (hfar _ hlarge)]
      | true =>
        have hlog : (digitsValue (ds ++ es)).log2 ≤ 28000 :=
          log2_lt hdigits (by rw [List.length_append]; omega)
        have hfar : ∀ n : ℕ, 10000 ≤ n → Binary.signed true n - es.length < 0 ∧
            ((digitsValue (ds ++ es)).log2 : ℤ) + 1 + 3 * (Binary.signed true n - es.length) <
              f.minExp - 1 := by
          intro n hn
          change -(n : ℤ) - es.length < 0 ∧
            ((digitsValue (ds ++ es)).log2 : ℤ) + 1 + 3 * (-(n : ℤ) - es.length) < f.minExp - 1
          omega
        rw [toBinary_of_far_below hf (hfar _ hlarge').1 (hfar _ hlarge').2,
          toBinary_of_far_below hf (hfar _ hlarge).1 (hfar _ hlarge).2]

end Decimal

end Statuary
