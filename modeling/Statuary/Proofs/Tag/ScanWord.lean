import Statuary.Proofs.Number.Numeral
import Statuary.Proofs.Tag.Scan

/-!
# Words are scanned without a crash

What tag a word stands for is found out by looks at its characters and by cuts, at its sign, its
point, its exponent and its last letter. None of them is out of range, and what is found is
`Statuary.Tag.scalar` (`Statuary.Scan.scalar_eq`), also for words that are no number and for no word
at all.

The two part ways at decimals. A scan cuts at the first letter of an exponent and then at the first
point, and looks at the parts afterwards; `Statuary.Decimal.read` takes digits as long as there are
some. So a text is taken apart as the second one does (`Statuary.Decimal.exists_places`), and each
cut of the first one is found in what is left.
-/

namespace Statuary

namespace Decimal

/-- **How a text begins**: with digits, behind them perhaps a point and more digits, and then with
what is neither a digit nor, if there was no point, a point. -/
structure Places (cs whole part rest : List Char) : Prop where
  eq : cs = whole ++ (part ++ rest)
  whole : ∀ c ∈ whole, isDigit c = true
  part : (part = [] ∧ ∀ c ∈ rest.head?, c ≠ '.') ∨
    ∃ fraction, part = '.' :: fraction ∧ ∀ c ∈ fraction, isDigit c = true
  rest : ∀ c ∈ rest.head?, isDigit c = false

theorem exists_places (cs : List Char) : ∃ whole part rest, Places cs whole part rest := by
  have hdigits (ds : List Char) : ∀ c ∈ ds.takeWhile isDigit, isDigit c = true :=
    fun c hc => List.all_eq_true.mp List.all_takeWhile c hc
  have hend (ds : List Char) : ∀ c ∈ (ds.dropWhile isDigit).head?, isDigit c = false := by
    intro c hc
    have hhead := List.head?_dropWhile_not isDigit ds
    rw [Option.mem_def.mp hc] at hhead
    simpa using hhead
  have hsplit (ds : List Char) : ds = ds.takeWhile isDigit ++ ds.dropWhile isDigit :=
    List.takeWhile_append_dropWhile.symm
  by_cases hpoint : ∃ after, cs.dropWhile isDigit = '.' :: after
  · obtain ⟨after, hafter⟩ := hpoint
    refine ⟨_, '.' :: after.takeWhile isDigit, after.dropWhile isDigit, ?_, hdigits cs,
      .inr ⟨_, rfl, hdigits after⟩, hend after⟩
    rw [List.cons_append, ← hsplit after, ← hafter, ← hsplit cs]
  · refine ⟨_, [], _, hsplit cs, hdigits cs, .inl ⟨rfl, ?_⟩, hend cs⟩
    rintro c hc rfl
    exact hpoint (List.head?_eq_some_iff.mp (Option.mem_def.mp hc))

/-- A numeral has a digit on at least one side of the point, and an exponent or nothing behind. -/
theorem read_of_places {cs whole part rest : List Char}
    (h : Places (takeSign cs).2 whole part rest) : read cs =
      if whole.isEmpty && part.tail.isEmpty then none
      else (readExponent rest).map fun e =>
        ⟨(takeSign cs).1, digitsValue (whole ++ part.tail), e - part.tail.length⟩ := by
  rcases h.part with ⟨rfl, hpoint⟩ | ⟨fraction, rfl, hfraction⟩
  · have hspan : spanDigits (takeSign cs).2 = (whole, rest) := by
      rw [h.eq, List.nil_append]
      exact spanDigits_append h.whole h.rest
    rw [read]
    dsimp only
    rw [hspan]
    dsimp only
    split
    · next after => exact absurd rfl (hpoint '.' rfl)
    · cases readExponent rest <;> rfl
  · have hspan : spanDigits (takeSign cs).2 = (whole, '.' :: (fraction ++ rest)) := by
      rw [h.eq]
      exact spanDigits_append h.whole (by rintro c ⟨⟩; rfl)
    rw [read]
    dsimp only
    rw [hspan]
    simp only [spanDigits_append hfraction h.rest, List.tail_cons]
    cases readExponent rest <;> rfl

theorem isSome_read {cs whole part rest : List Char} (h : Places (takeSign cs).2 whole part rest) :
    (read cs).isSome =
      (!(whole.isEmpty && part.tail.isEmpty) && (readExponent rest).isSome) := by
  rw [read_of_places h]
  cases whole.isEmpty && part.tail.isEmpty with
  | true => rfl
  | false => exact Option.isSome_map

end Decimal

namespace Scan

variable {α : Type}

/-! ### Looks and cuts in range -/

theorem get_of_getElem? {xs : List α} {i : ℕ} {x : α} (h : xs[i]? = some x) :
    get xs i = pure x := by
  rw [← Int.ofNat_eq_natCast, get, h]

theorem get_of_lt {xs : List α} {i : ℕ} (h : i < xs.length) : get xs i = pure xs[i] :=
  get_of_getElem? (List.getElem?_eq_getElem h)

theorem slice_of_le {xs : List α} {i j : ℕ} (hij : i ≤ j) (hj : j ≤ xs.length) :
    slice xs i j = pure ((xs.take j).drop i) := by
  rw [slice, if_pos ⟨by omega, by omega, by omega⟩, Int.toNat_natCast, Int.toNat_natCast]

theorem slice_to_length {xs : List α} {i : ℕ} (hi : i ≤ xs.length) :
    slice xs i xs.length = pure (xs.drop i) := by
  rw [slice_of_le hi le_rfl, List.take_length]

theorem digitsFrom_eq (tok : List Char) (i : ℕ) :
    digitsFrom tok i = pure ((tok.drop i).all isDigit) := by
  induction hn : tok.length - i generalizing i with
  | zero =>
    rw [digitsFrom, if_neg (by omega), List.drop_eq_nil_of_le (by omega)]
    rfl
  | succ n ih =>
    have hi : i < tok.length := by omega
    rw [digitsFrom, if_pos hi, get_of_lt hi, pure_bind, List.drop_eq_getElem_cons hi,
      List.all_cons]
    split_ifs with hdigit
    · rw [ih (i + 1) (by omega), hdigit, Bool.true_and]
    · rw [Bool.eq_false_iff.mpr hdigit, Bool.false_and]

theorem isDigits_eq (tok : List Char) : isDigits tok = pure (!tok.isEmpty && tok.all isDigit) := by
  rw [isDigits, digitsFrom_eq]
  cases tok <;> rfl

theorem isPart_eq (tok : List Char) : isPart tok = pure (tok.all isDigit) := by
  rw [isPart, isDigits_eq]
  cases tok <;> rfl

theorem unsigned_eq (tok : List Char) : unsigned tok = pure (takeSign tok).2 := by
  rw [unsigned]
  cases tok with
  | nil => rfl
  | cons c cs =>
    have hget : get (c :: cs) 0 = pure c := rfl
    have hslice : slice (c :: cs) 1 (c :: cs).length = pure cs :=
      slice_to_length (i := 1) (Nat.succ_pos _)
    rw [if_neg (List.cons_ne_nil _ _), hget, pure_bind, hslice]
    split_ifs with hc
    · rcases hc with rfl | rfl <;> rfl
    · obtain ⟨hminus, hplus⟩ := not_or.mp hc
      rw [takeSign]
      · exact fun _ he => hminus (List.cons.inj he).1
      · exact fun _ he => hplus (List.cons.inj he).1

theorem isInteger_eq (tok : List Char) : isInteger tok = pure (readInteger tok).isSome := by
  rw [isInteger, unsigned_eq, pure_bind, isDigits_eq, readInteger]
  dsimp only
  cases (takeSign tok).2.isEmpty <;> cases (takeSign tok).2.all isDigit <;> rfl

/-- A cut is made where a property first holds. -/
theorem exists_cut (p : Char → Bool) (tok : List Char) :
    (∀ c ∈ tok, p c = false) ∨
      ∃ before c after, tok = before ++ c :: after ∧ (∀ c ∈ before, p c = false) ∧ p c = true := by
  induction tok with
  | nil => exact .inl fun _ hc => absurd hc List.not_mem_nil
  | cons c cs ih =>
    cases hc : p c with
    | true => exact .inr ⟨[], c, cs, rfl, fun _ hc => absurd hc List.not_mem_nil, hc⟩
    | false =>
      refine ih.imp (fun hall => List.forall_mem_cons.mpr ⟨hc, hall⟩) ?_
      rintro ⟨before, d, after, rfl, hbefore, hd⟩
      exact ⟨c :: before, d, after, rfl, List.forall_mem_cons.mpr ⟨hc, hbefore⟩, hd⟩

theorem cut_of_forall {p : Char → Bool} {tok : List Char} (h : ∀ c ∈ tok, p c = false) :
    cut p tok = pure none := by
  rw [cut, List.findIdx?_eq_none_iff.mpr h]

theorem cut_append {p : Char → Bool} {before : List Char} (hbefore : ∀ c ∈ before, p c = false)
    {c : Char} (hc : p c = true) (after : List Char) :
    cut p (before ++ c :: after) = pure (some (before, after)) := by
  have hfind : (before ++ c :: after).findIdx? p = some before.length := by
    rw [List.findIdx?_append, List.findIdx?_eq_none_iff.mpr hbefore, List.findIdx?_cons, if_pos hc,
      Option.none_or, Option.map_some, Nat.zero_add]
  have hi : before.length + 1 ≤ (before ++ c :: after).length := by simp
  have hfirst : slice (before ++ c :: after) 0 before.length = pure before := by
    refine (slice_of_le (i := 0) (Nat.zero_le _) (Nat.le_of_succ_le hi)).trans ?_
    rw [List.take_left, List.drop_zero]
  have hsecond : slice (before ++ c :: after) (before.length + 1) (before ++ c :: after).length =
      pure after := by
    refine (slice_to_length (i := before.length + 1) hi).trans ?_
    rw [List.drop_append, List.drop_eq_nil_of_le (Nat.le_succ _)]
    simp
  rw [cut, hfind]
  dsimp only
  rw [hfirst, pure_bind, hsecond, pure_bind]

/-- The parts of a mantissa at its point. -/
theorem isMantissa_eq (tok : List Char) {whole fraction : List Char}
    (h : cut (· == '.') tok = pure none ∧ whole = tok ∧ fraction = [] ∨
      cut (· == '.') tok = pure (some (whole, fraction))) :
    isMantissa tok = pure (!(whole.isEmpty && fraction.isEmpty) &&
      (whole.all isDigit && fraction.all isDigit)) := by
  have hparts : isMantissa tok =
      (if whole = [] ∧ fraction = [] then pure false
        else do if ← isPart whole then isPart fraction else return false) := by
    rw [isMantissa]
    rcases h with ⟨hcut, rfl, rfl⟩ | hcut <;> rw [hcut] <;> rfl
  rw [hparts, isPart_eq, isPart_eq, pure_bind]
  by_cases hempty : whole = [] ∧ fraction = []
  · rw [if_pos hempty, hempty.1, hempty.2]
    rfl
  · have hsome : (whole.isEmpty && fraction.isEmpty) = false := by simpa using hempty
    rw [if_neg hempty, hsome]
    cases whole.all isDigit <;> rfl

open Decimal

variable {cs whole part rest : List Char}

theorem ne_point_of_isDigit {ds : List Char} (h : ∀ c ∈ ds, isDigit c = true) :
    ∀ c ∈ ds, (c == '.') = false := by
  intro c hc
  rw [beq_eq_false_iff_ne]
  rintro rfl
  exact absurd (h _ hc) (by decide)

theorem isMantissa_of_rest_nil (h : Places cs whole part []) :
    isMantissa cs = pure (!(whole.isEmpty && part.tail.isEmpty)) := by
  have hwhole := List.all_eq_true.mpr h.whole
  rcases h.part with ⟨rfl, -⟩ | ⟨fraction, rfl, hfraction⟩
  · obtain rfl : cs = whole := by rw [h.eq]; simp
    rw [isMantissa_eq cs (.inl ⟨cut_of_forall (ne_point_of_isDigit h.whole), rfl, rfl⟩), hwhole]
    simp
  · obtain rfl : cs = whole ++ '.' :: fraction := by rw [h.eq]; simp
    rw [isMantissa_eq _ (.inr (cut_append (ne_point_of_isDigit h.whole) rfl fraction)), hwhole,
      List.all_eq_true.mpr hfraction]
    simp

theorem isMantissa_of_rest_cons {c : Char} {more : List Char}
    (h : Places cs whole part (c :: more)) : isMantissa cs = pure false := by
  have hc : isDigit c = false := h.rest c rfl
  have hwhole := ne_point_of_isDigit h.whole
  rcases h.part with ⟨rfl, hpoint⟩ | ⟨fraction, rfl, hfraction⟩
  · obtain rfl : cs = whole ++ c :: more := by rw [h.eq]; simp
    have hne : (c == '.') = false := beq_eq_false_iff_ne.mpr (hpoint c rfl)
    rcases exists_cut (· == '.') more with hmore | ⟨before, d, after, rfl, hbefore, hd⟩
    · have hall : ∀ d ∈ whole ++ c :: more, (d == '.') = false :=
        List.forall_mem_append.mpr ⟨hwhole, List.forall_mem_cons.mpr ⟨hne, hmore⟩⟩
      rw [isMantissa_eq _ (.inl ⟨cut_of_forall hall, rfl, rfl⟩)]
      simp [hc]
    · have hall : ∀ d ∈ whole ++ c :: before, (d == '.') = false :=
        List.forall_mem_append.mpr ⟨hwhole, List.forall_mem_cons.mpr ⟨hne, hbefore⟩⟩
      have hcut := cut_append hall hd after
      rw [List.append_assoc, List.cons_append] at hcut
      rw [isMantissa_eq _ (.inr hcut)]
      simp [hc]
  · obtain rfl : cs = whole ++ '.' :: (fraction ++ c :: more) := by rw [h.eq]; simp
    rw [isMantissa_eq _ (.inr (cut_append hwhole rfl _))]
    simp [hc]

theorem isMark_of_isDigit {ds : List Char} (h : ∀ c ∈ ds, isDigit c = true) :
    ∀ c ∈ ds, isMark c = false := by
  intro c hc
  rw [isMark, Bool.or_eq_false_iff, beq_eq_false_iff_ne, beq_eq_false_iff_ne]
  constructor <;> rintro rfl <;> exact absurd (h _ hc) (by decide)

/-- No exponent begins among the digits. -/
theorem isMark_places (h : Places cs whole part rest) : ∀ c ∈ whole ++ part, isMark c = false := by
  refine List.forall_mem_append.mpr ⟨isMark_of_isDigit h.whole, ?_⟩
  rcases h.part with ⟨rfl, -⟩ | ⟨fraction, rfl, hfraction⟩
  · exact fun _ hc => absurd hc List.not_mem_nil
  · exact List.forall_mem_cons.mpr ⟨rfl, isMark_of_isDigit hfraction⟩

/-- An exponent has a letter and digits, perhaps with a sign. -/
theorem isSome_readExponent_cons (c : Char) (cs : List Char) : (readExponent (c :: cs)).isSome =
    (isMark c && (!(takeSign cs).2.isEmpty && (takeSign cs).2.all isDigit)) := by
  rw [readExponent, isMark]
  dsimp only
  cases c == 'e' || c == 'E' <;> cases (takeSign cs).2.isEmpty <;>
    cases (takeSign cs).2.all isDigit <;> rfl

theorem isDecimal_eq (tok : List Char) : isDecimal tok = pure (read tok).isSome := by
  obtain ⟨whole, part, rest, h⟩ := exists_places (takeSign tok).2
  have hmark := isMark_places h
  rw [isDecimal, unsigned_eq, pure_bind, isSome_read h]
  cases rest with
  | nil =>
    rw [← List.append_nil (whole ++ part), List.append_assoc, ← h.eq] at hmark
    rw [cut_of_forall hmark, pure_bind]
    dsimp only
    rw [isMantissa_of_rest_nil h, readExponent, Option.isSome_some, Bool.and_true]
  | cons c more =>
    have heq : (takeSign tok).2 = whole ++ part ++ c :: more := by
      rw [h.eq, List.append_assoc]
    rw [isSome_readExponent_cons]
    cases hc : isMark c with
    | true =>
      have hmantissa : Places (whole ++ part) whole part [] :=
        ⟨by simp, h.whole, h.part.imp_left fun hpart => ⟨hpart.1, by simp⟩, by simp⟩
      rw [heq, cut_append hmark hc, pure_bind]
      dsimp only
      rw [unsigned_eq, pure_bind, isDigits_eq, pure_bind, isMantissa_of_rest_nil hmantissa,
        Bool.true_and]
      cases !(takeSign more).2.isEmpty && (takeSign more).2.all isDigit <;> simp
    | false =>
      -- an exponent that begins further on leaves what is no digit before it
      rw [Bool.false_and, Bool.and_false]
      rcases exists_cut isMark more with hmore | ⟨before, d, after, rfl, hbefore, hd⟩
      · have hall : ∀ d ∈ (takeSign tok).2, isMark d = false := by
          rw [heq]
          exact List.forall_mem_append.mpr ⟨hmark, List.forall_mem_cons.mpr ⟨hc, hmore⟩⟩
        rw [cut_of_forall hall, pure_bind]
        exact isMantissa_of_rest_cons h
      · have hall : ∀ d ∈ whole ++ part ++ c :: before, isMark d = false :=
          List.forall_mem_append.mpr ⟨hmark, List.forall_mem_cons.mpr ⟨hc, hbefore⟩⟩
        have hcut := cut_append hall hd after
        have hmantissa : Places (whole ++ part ++ c :: before) whole part (c :: before) :=
          ⟨List.append_assoc .., h.whole, h.part, h.rest⟩
        rw [List.append_assoc, List.cons_append, ← heq] at hcut
        rw [hcut, pure_bind]
        dsimp only
        rw [unsigned_eq, pure_bind, isDigits_eq, pure_bind, isMantissa_of_rest_cons hmantissa]
        split_ifs <;> rfl

/-! ### The tag of a word -/

theorem whole_eq (bits : ℕ) (mk : ℤ → Tag) (tok : List Char) :
    Scan.whole bits mk tok = pure ((readSigned bits tok).map mk) := by
  rw [Scan.whole, isInteger_eq, pure_bind, readSigned]
  cases readInteger tok <;> rfl

theorem binary_eq (f : BinaryFormat) (mk : Binary f → Tag) (tok : List Char) :
    binary f mk tok = pure ((readBinary f tok).map mk) := by
  rw [binary, isDecimal_eq, pure_bind, readBinary]
  cases Decimal.read tok <;> rfl

theorem suffixed_eq (body : List Char) (letter : Char) :
    suffixed body letter = pure (Tag.suffixed? body letter) := by
  fun_cases Tag.suffixed? body letter with
  | case1 h | case2 h | case3 h =>
    rw [suffixed, h]
    exact whole_eq ..
  | case4 h | case5 h =>
    rw [suffixed, h]
    exact binary_eq ..
  | case6 =>
    rw [suffixed.eq_def]
    split <;> first | rfl | contradiction

/-- **A word is scanned as what it stands for.** -/
theorem scalar_eq (tok : List Char) : scalar tok = pure (Tag.scalar tok) := by
  rw [scalar, Tag.scalar]
  cases Tag.truth? tok with
  | some t => rfl
  | none =>
    dsimp only
    by_cases htok : tok = []
    · subst htok
      rfl
    · obtain ⟨body, letter, rfl⟩ : ∃ body letter, tok = body ++ [letter] :=
        ⟨_, _, (List.dropLast_append_getLast htok).symm⟩
      have hlast : ((body ++ [letter]).length : ℤ) - 1 = body.length := by simp
      have hget : get (body ++ [letter]) ((body ++ [letter]).length - 1 : ℤ) = pure letter := by
        rw [hlast, get_of_lt (by simp)]
        simp
      have hslice : slice (body ++ [letter]) 0 ((body ++ [letter]).length - 1 : ℤ) = pure body := by
        rw [hlast]
        refine (slice_of_le (i := 0) (Nat.zero_le _) (by simp)).trans ?_
        rw [List.take_left, List.drop_zero]
      rw [if_neg htok, hget, pure_bind, hslice, pure_bind, suffixed_eq, pure_bind,
        List.getLast?_concat, List.dropLast_concat]
      dsimp only
      cases Tag.suffixed? body letter with
      | some t => rfl
      | none =>
        dsimp only
        rw [isInteger_eq, pure_bind, binary_eq, pure_bind, Tag.unsuffixed?]
        cases (readInteger (body ++ [letter])).isSome <;> rfl

end Scan

end Statuary
