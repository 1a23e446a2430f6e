import Statuary.Proofs.Number.Numeral
import Statuary.Tag.Printer

/-!
# Numbers as words

Every number of a tree is written as one word: digits, and the letter of its width
(`Statuary.Tag.scalar_byte` and its companions). A binary number that has no value is written too,
but **as a word that is no number**: `NaN` and the infinities are read as texts
(`Statuary.Tag.scalar_float`, `Statuary.Tag.scalar_double`), and this is the only way in which the
writing of a scalar can go wrong.
-/

namespace Statuary

theorem isBareChar_of_isDigit {c : Char} (h : isDigit c = true) : isBareChar c = true := by
  rw [isDigit] at h
  rw [isBareChar, h]
  simp

/-- A text that can be written without quotes. -/
def IsWord (w : List Char) : Prop :=
  w ≠ [] ∧ ∀ c ∈ w, isBareChar c = true

theorem IsWord.head {w : List Char} (hw : IsWord w) :
    ∃ c cs, w = c :: cs ∧ isBareChar c = true := by
  obtain ⟨c, cs, rfl⟩ := List.exists_cons_of_ne_nil hw.1
  exact ⟨c, cs, rfl, hw.2 c (List.mem_cons_self ..)⟩

/-- The digits of a whole number are a word, whatever letters follow. -/
theorem isWord_intDigits (n : ℤ) {letters : List Char}
    (h : ∀ c ∈ letters, isBareChar c = true) : IsWord (intDigits n ++ letters) := by
  refine ⟨by simp [intDigits_ne_nil], fun c hc => ?_⟩
  rcases List.mem_append.mp hc with hc | hc
  · rcases mem_intDigits hc with rfl | hc
    · rfl
    · exact isBareChar_of_isDigit hc
  · exact h c hc

theorem isWord_number (n : ℤ) : IsWord (intDigits n) := by
  rw [← List.append_nil (intDigits n)]
  exact isWord_intDigits n fun _ hc => absurd hc List.not_mem_nil

namespace Tag

/-! ### The text of a binary number -/

variable {f : BinaryFormat}

/-- A number with a value is written with a point between digits, and the digits spell it. -/
theorem exists_numberText (hf : f.Spans) {x : Binary f} (hx : x.isFinite = true) :
    ∃ (negative : Bool) (whole fraction : List Char), whole ≠ [] ∧
      (∀ c ∈ whole, isDigit c = true) ∧ (∀ c ∈ fraction, isDigit c = true) ∧
      (Decimal.ofPlaces negative whole fraction).toBinary f = x ∧
      numberText x = Decimal.signText negative ++ (whole ++ '.' :: fraction) := by
  obtain ⟨negative, whole, fraction, hne, hw, hfr, hread, htext⟩ := Binary.exists_plain hf hx
  rw [numberText, htext]
  by_cases hempty : fraction = []
  · -- a point and a zero are added, which changes the digits and not the value
    subst hempty
    have hplain : (Decimal.signText negative ++ (whole ++ [])).any
        (fun c => decide (c = '.' ∨ c = 'I' ∨ c = 'N')) = false := by
      rw [List.any_eq_false]
      intro c hc
      rcases List.mem_append.mp hc with hc | hc
      · cases negative with
        | true => rw [List.mem_singleton.mp hc]; decide
        | false => cases hc
      · have hd := hw c (by simpa using hc)
        rw [decide_eq_true_eq]
        rintro (rfl | rfl | rfl) <;> exact absurd hd (by decide)
    have hvalue := Decimal.ofPlaces_value negative whole [] 1
    refine ⟨negative, whole, ['0'], hne, hw, by simp [isDigit], ?_, ?_⟩
    · rw [← hread]
      exact Decimal.toBinary_congr hf rfl hvalue
    · simp only [List.isEmpty_nil, if_true, hplain]
      simp
  · refine ⟨negative, whole, fraction, hne, hw, hfr, hread, ?_⟩
    simp [List.isEmpty_eq_false_iff.mpr hempty]

theorem readBinary_numberText (hf : f.Spans) {x : Binary f} (hx : x.isFinite = true) :
    readBinary f (numberText x) = some x := by
  obtain ⟨negative, whole, fraction, hne, hw, hfr, hread, htext⟩ := exists_numberText hf hx
  rw [readBinary, htext, Decimal.read_places negative hne hw hfr, Option.map_some, hread,
    Option.filter_some, if_pos hx]

/-- Every character of a written number can stand in a word, also where the number has no value. -/
theorem isWord_numberText (hf : f.Spans) (x : Binary f) {letters : List Char}
    (hl : ∀ c ∈ letters, isBareChar c = true) : IsWord (numberText x ++ letters) := by
  have hall : numberText x ≠ [] ∧ ∀ c ∈ numberText x, isBareChar c = true := by
    cases x with
    | nan =>
      have htext : numberText (Binary.nan : Binary f) = ['N', 'a', 'N'] := rfl
      rw [htext]
      exact ⟨List.cons_ne_nil _ _, List.all_eq_true.mp rfl⟩
    | infinite s =>
      -- the sign is written for both infinite numbers
      have htext : numberText (Binary.infinite s : Binary f) =
          (if s then '-' else '+') :: ['I', 'n', 'f'] := by cases s <;> rfl
      rw [htext]
      refine ⟨List.cons_ne_nil _ _, ?_⟩
      cases s <;> exact List.all_eq_true.mp rfl
    | finite s m q h =>
      obtain ⟨negative, whole, fraction, hne, hw, hfr, -, htext⟩ :=
        exists_numberText hf (x := .finite s m q h) rfl
      rw [htext]
      refine ⟨by simp, fun c hc => ?_⟩
      rcases List.mem_append.mp hc with hc | hc
      · cases negative with
        | true => rw [List.mem_singleton.mp hc]; rfl
        | false => cases hc
      · rcases List.mem_append.mp hc with hc | hc
        · exact isBareChar_of_isDigit (hw c hc)
        · rcases List.mem_cons.mp hc with rfl | hc
          · rfl
          · exact isBareChar_of_isDigit (hfr c hc)
  refine ⟨by simp [hall.1], fun c hc => ?_⟩
  rcases List.mem_append.mp hc with hc | hc
  · exact hall.2 c hc
  · exact hl c hc

/-- So can every character of its positional digits. -/
theorem isBareChar_of_mem_plain {x : Double} {c : Char} (h : c ∈ x.plain.toList) :
    isBareChar c = true := by
  have hword := isWord_numberText BinaryFormat.double_spans x
    (show ∀ c ∈ [], isBareChar c = true from fun c hc => absurd hc List.not_mem_nil)
  refine hword.2 c ?_
  rw [Binary.plain, String.toList_ofList] at h
  rw [List.append_nil, numberText]
  split_ifs
  · exact h
  · exact List.mem_append_left _ h

/-! ### The tag of a word -/

/-- A word that ends in another letter than `e` is no truth value. -/
theorem truth?_eq_none {word : List Char} {c : Char} (hlast : c ∈ word.getLast?)
    (hc : c.toLower ≠ 'e') : truth? word = none := by
  have hmap : (word.map Char.toLower).getLast? = some c.toLower := by
    rw [List.getLast?_map, Option.mem_def.mp hlast]
    rfl
  rw [truth?]
  split
  · next heq =>
    rw [heq] at hmap
    exact absurd (Option.some.inj hmap).symm hc
  · next heq =>
    rw [heq] at hmap
    exact absurd (Option.some.inj hmap).symm hc
  · rfl

/-- A word whose last letter names a width is a number if the rest is one. -/
theorem scalar_append_letter {body : List Char} {letter : Char} {t : Tag}
    (hletter : letter.toLower ≠ 'e') (h : suffixed? body letter = some t) :
    scalar (body ++ [letter]) = t := by
  have htruth : truth? (body ++ [letter]) = none := truth?_eq_none (by simp) hletter
  simp [scalar, htruth, h]

theorem scalar_byte (v : Int8) : scalar (intDigits v.toInt ++ ['b']) = .byte v := by
  have hs : isSigned 8 v.toInt = true := isSigned_iff.mpr ⟨v.le_toInt, v.toInt_lt⟩
  apply scalar_append_letter (by decide)
  change (readSigned 8 (intDigits v.toInt)).map _ = _
  rw [readSigned_intDigits hs, Option.map_some, Int8.ofInt_toInt]

theorem scalar_short (v : Int16) : scalar (intDigits v.toInt ++ ['s']) = .short v := by
  have hs : isSigned 16 v.toInt = true := isSigned_iff.mpr ⟨v.le_toInt, v.toInt_lt⟩
  apply scalar_append_letter (by decide)
  change (readSigned 16 (intDigits v.toInt)).map _ = _
  rw [readSigned_intDigits hs, Option.map_some, Int16.ofInt_toInt]

theorem scalar_long (v : Int64) : scalar (intDigits v.toInt ++ ['L']) = .long v := by
  have hs : isSigned 64 v.toInt = true := isSigned_iff.mpr ⟨v.le_toInt, v.toInt_lt⟩
  apply scalar_append_letter (by decide)
  change (readSigned 64 (intDigits v.toInt)).map _ = _
  rw [readSigned_intDigits hs, Option.map_some, Int64.ofInt_toInt]

/-- A digit is the letter of no width. -/
theorem suffixed?_digit {body : List Char} {c : Char} (hc : isDigit c = true) :
    suffixed? body c = none := by
  rw [suffixed?, toLower_of_isDigit hc]
  split <;> first | rfl | (exact absurd hc (by decide))

/-- Digits alone: a whole number of 32 bits, and a text where it has more. -/
theorem scalar_intDigits (n : ℤ) :
    scalar (intDigits n) =
      if isSigned 32 n then .int (Int32.ofInt n) else .string (String.ofList (intDigits n)) := by
  obtain ⟨c, hc⟩ : ∃ c, (intDigits n).getLast? = some c :=
    ⟨_, List.getLast?_eq_some_getLast (intDigits_ne_nil n)⟩
  have hdigit : isDigit c = true := isDigit_of_getLast?_intDigits hc
  have htruth : truth? (intDigits n) = none := truth?_eq_none hc (by
    rw [toLower_of_isDigit hdigit]
    rintro rfl
    exact absurd hdigit (by decide))
  have hun : unsuffixed? (intDigits n) =
      (if isSigned 32 n then some n else none).map (.int <| Int32.ofInt ·) := by
    rw [unsuffixed?, readInteger_intDigits, Option.isSome_some, if_pos rfl, readSigned,
      readInteger_intDigits, Option.filter_some]
  simp only [scalar, htruth, hc, suffixed?_digit hdigit, hun]
  split_ifs <;> rfl

theorem scalar_int (v : Int32) : scalar (intDigits v.toInt) = .int v := by
  have hs : isSigned 32 v.toInt = true := isSigned_iff.mpr ⟨v.le_toInt, v.toInt_lt⟩
  rw [scalar_intDigits, if_pos hs, Int32.ofInt_toInt]

/-- **A binary number of 32 bits** is read back if it has a value, and as a text if it has none. -/
theorem scalar_float (x : Single) :
    scalar (numberText x ++ ['f']) =
      if x.isFinite then .float x else .string (String.ofList (numberText x ++ ['f'])) := by
  split_ifs with hx
  · apply scalar_append_letter (by decide)
    change (readBinary .single (numberText x)).map _ = _
    rw [readBinary_numberText BinaryFormat.single_spans hx, Option.map_some]
  · cases x with
    | nan => rfl
    | infinite s => cases s <;> rfl
    | finite s m q h => exact absurd rfl hx

/-- **A binary number of 64 bits** is read back if it has a value, and as a text if it has none. -/
theorem scalar_double (x : Double) :
    scalar (numberText x ++ ['d']) =
      if x.isFinite then .double x else .string (String.ofList (numberText x ++ ['d'])) := by
  split_ifs with hx
  · apply scalar_append_letter (by decide)
    change (readBinary .double (numberText x)).map _ = _
    rw [readBinary_numberText BinaryFormat.double_spans hx, Option.map_some]
  · cases x with
    | nan => rfl
    | infinite s => cases s <;> rfl
    | finite s m q h => exact absurd rfl hx

end Tag

end Statuary
