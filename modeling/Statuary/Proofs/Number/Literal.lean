import Statuary.Number.Literal
import Statuary.Proofs.Number.Numeral

/-!
# Literals that were written

Distances are written into commands by their positional digits, and whoever reads such a command
reads a literal of a wider grammar. **Every** number is read back, those without a value included:
the names of the infinities and of no number are literals as well
(`Statuary.readFloatLiteral_plain`).
-/

namespace Statuary

/-- Where there is no underscore, none is misplaced. -/
theorem underscoresOk_of_notMem {cs : List Char} (h : '_' ∉ cs) (digit : Bool) :
    underscoresOk false digit false cs = true := by
  induction cs generalizing digit with
  | nil => rfl
  | cons c cs ih =>
    obtain ⟨hne, hcs⟩ := List.ne_and_not_mem_of_not_mem_cons h
    rw [underscoresOk]
    split_ifs with hdigit hunder
    · exact ih hcs true
    · exact absurd (beq_iff_eq.mp hunder).symm hne
    · exact ih hcs false

namespace Decimal

/-- Digits, perhaps with a point and more digits behind them, are read place by place. -/
theorem read_positional (negative : Bool) {whole fraction : List Char} (hne : whole ≠ [])
    (hw : ∀ c ∈ whole, isDigit c = true) (hfr : ∀ c ∈ fraction, isDigit c = true) :
    read (signText negative ++ (whole ++ if fraction.isEmpty then [] else '.' :: fraction)) =
      some (ofPlaces negative whole fraction) := by
  split_ifs with hempty
  · obtain rfl := List.isEmpty_iff.mp hempty
    have hspan : spanDigits (whole ++ []) = (whole, []) := spanDigits_append hw (by simp)
    rw [read, takeSign_signText negative (head_isDigit hne hw)]
    simp only [hspan]
    simp [readExponent, ofPlaces, hne]
  · exact read_places negative hne hw hfr

end Decimal

/-- A text that begins with a digit is no name. -/
theorem map_toLower_ne {c : Char} (hc : isDigit c = true) (cs : List Char) {name : String}
    (hname : ∀ d ∈ name.toList.head?, isDigit d = false) :
    (String.ofList ((c :: cs).map Char.toLower) == name) = false := by
  rw [beq_eq_false_iff_ne]
  rintro rfl
  rw [String.toList_ofList, List.map_cons, toLower_of_isDigit hc] at hname
  rw [hname c rfl] at hc
  cases hc

/-- **A number is read back from its positional digits.** -/
theorem readFloatLiteral_plain (x : Double) : readFloatLiteral x.plain = some x := by
  by_cases hx : x.isFinite = true
  · obtain ⟨negative, whole, fraction, hne, hw, hfr, hvalue, htext⟩ :=
      Binary.exists_plain BinaryFormat.double_spans hx
    have hplain : x.plain.toList = Decimal.signText negative ++
        (whole ++ if fraction.isEmpty then [] else '.' :: fraction) := by
      rw [Binary.plain, String.toList_ofList, htext]
    have hunder : '_' ∉ x.plain.toList := by
      have hdigits : ∀ ds : List Char, (∀ c ∈ ds, isDigit c = true) → '_' ∉ ds :=
        fun ds hds hmem => absurd (hds _ hmem) (by decide)
      rw [hplain]
      simp only [List.mem_append, not_or]
      refine ⟨by cases negative <;> simp [Decimal.signText], hdigits _ hw, ?_⟩
      split_ifs
      · exact List.not_mem_nil
      · exact List.not_mem_cons_of_ne_of_not_mem (by decide) (hdigits _ hfr)
    have hdecimal : readFloatLiteral.decimal x.plain.toList = some x := by
      have hkeep : x.plain.toList.filter (· != '_') = x.plain.toList :=
        List.filter_eq_self.mpr fun c hc => by
          rw [bne_iff_ne]
          rintro rfl
          exact hunder hc
      rw [readFloatLiteral.decimal, underscoresOk_of_notMem hunder, if_pos rfl, hkeep, hplain,
        Decimal.read_positional negative hne hw hfr, Option.map_some, hvalue]
    -- the digits begin with one that is followed by no mark of a base
    obtain ⟨c, ds, rfl⟩ := List.exists_cons_of_ne_nil hne
    have hc := hw c (List.mem_cons_self ..)
    have hbody : takeSign x.plain.toList =
        (negative, c :: (ds ++ if fraction.isEmpty then [] else '.' :: fraction)) := by
      rw [hplain, Decimal.takeSign_signText negative (Decimal.head_isDigit hne hw)]
      rfl
    have hsecond : ∀ y ∈ (ds ++ if fraction.isEmpty then [] else '.' :: fraction),
        (y == 'x' || y == 'X') = false := by
      intro y hy
      have hmark : isDigit y = true ∨ y = '.' := by
        rcases List.mem_append.mp hy with hy | hy
        · exact .inl (hw y (List.mem_cons_of_mem _ hy))
        · split_ifs at hy
          · exact absurd hy List.not_mem_nil
          · exact (List.mem_cons.mp hy).symm.imp (hfr y) id
      rw [Bool.or_eq_false_iff, beq_eq_false_iff_ne, beq_eq_false_iff_ne]
      constructor <;> rintro rfl <;> exact absurd hmark (by decide)
    have hnames : ∀ name ∈ ["inf", "infinity", "nan"], ∀ d ∈ name.toList.head?,
        isDigit d = false := by
      simp only [List.forall_mem_cons, Option.mem_def]
      refine ⟨?_, ?_, ?_, by simp⟩ <;> rintro d ⟨rfl⟩ <;> rfl
    simp only [List.forall_mem_cons] at hnames
    rw [readFloatLiteral]
    simp only [hbody, map_toLower_ne hc _ hnames.1, map_toLower_ne hc _ hnames.2.1,
      map_toLower_ne hc _ hnames.2.2.1, Bool.false_and, Bool.or_false, Bool.false_eq_true, if_false]
    split
    · rename_i y rest heq
      rw [hsecond y (by rw [(List.cons.inj heq).2]; exact List.mem_cons_self ..), Bool.false_and,
        if_neg Bool.false_ne_true, hdecimal]
    · exact hdecimal
  · cases x with
    | nan => rfl
    | infinite s => cases s <;> rfl
    | finite s m q h => exact absurd rfl hx

end Statuary
