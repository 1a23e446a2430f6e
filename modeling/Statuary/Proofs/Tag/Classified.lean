import Statuary.Proofs.Number.Nearest
import Statuary.Proofs.Tag.NumberForm
import Statuary.Proofs.Tag.Word

/-!
# What an unquoted word stands for

The forms of a number are listed once (`Statuary.Tag.IsNumber`): the names of the truth values, a
whole number or a decimal with the letter of a width behind it, and either of them alone. A number
has the exact value of its digits or, as a binary number, the nearest one, and **it has to fit**;
there is no form for a number that does not.

The tag of a word is the number that it is a form of, and the word itself if there is none
(`Statuary.Tag.scalar_isClassified`). No word has two forms: a truth value ends in `e`, a number
with a letter in the letter, and a number without one in a digit or a point.
-/

namespace Statuary

/-! ### Numbers that fit -/

/-- A whole number is read in a width if it is the value of a number of that width. -/
theorem readSigned_map_eq_some_iff {β γ : Type} {bits : ℕ} {ofInt : ℤ → β} {toInt : β → ℤ}
    (hfits : ∀ v, -2 ^ (bits - 1) ≤ toInt v ∧ toInt v < 2 ^ (bits - 1))
    (hof : ∀ v, ofInt (toInt v) = v)
    (hto : ∀ n, -2 ^ (bits - 1) ≤ n → n < 2 ^ (bits - 1) → toInt (ofInt n) = n) (mk : β → γ)
    {cs : List Char} {t : γ} : (readSigned bits cs).map (fun n => mk (ofInt n)) = some t ↔
      ∃ v, IsWhole cs (toInt v) ∧ mk v = t := by
  rw [Option.map_eq_some_iff]
  constructor
  · rintro ⟨n, hn, rfl⟩
    rw [readSigned, Option.filter_eq_some_iff, readInteger_eq_some_iff, isSigned_iff] at hn
    refine ⟨ofInt n, ?_, rfl⟩
    rw [hto n hn.2.1 hn.2.2]
    exact hn.1
  · rintro ⟨v, hv, rfl⟩
    refine ⟨toInt v, ?_, by rw [hof]⟩
    rw [readSigned, Option.filter_eq_some_iff]
    exact ⟨readInteger_eq_some_iff.mpr hv, isSigned_iff.mpr (hfits v)⟩

/-- **A numeral of a format**: the number that is nearest to its value, if it is below the limit. -/
def Binary.IsNumeral {f : BinaryFormat} (E : List Char → ℕ) (cs : List Char) (v : Binary f) :
    Prop :=
  ∃ x, Decimal.IsWritten E cs x ∧ x.value < f.limit ∧ v.IsNearest x.negative x.value

theorem readBinary_eq_some_iff {f : BinaryFormat} (hf : f.Spans) (hp : 2 ≤ f.precision)
    {cs : List Char} {v : Binary f} :
    readBinary f cs = some v ↔ v.IsNumeral Decimal.exponentValue cs := by
  rw [readBinary, Option.filter_eq_some_iff, Option.map_eq_some_iff]
  constructor
  · rintro ⟨⟨x, hx, hv⟩, hfinite⟩
    exact ⟨x, Decimal.read_eq_some_iff.mp hx, (Decimal.toBinary_eq_iff hf hp).mp ⟨hv, hfinite⟩⟩
  · rintro ⟨x, hx, hnearest⟩
    obtain ⟨hv, hfinite⟩ := (Decimal.toBinary_eq_iff hf hp).mpr hnearest
    exact ⟨⟨x, Decimal.read_eq_some_iff.mpr hx, hv⟩, hfinite⟩

/-- A numeral does not depend on how its exponent is counted. -/
theorem Binary.IsNumeral.alike {f : BinaryFormat} (hf : f.Spans) (hp : 2 ≤ f.precision)
    (habove : f.maxExp + f.precision ≤ 3000) (hbelow : -1900 ≤ f.minExp) {E E' : List Char → ℕ}
    (hE : Decimal.CountsAlike E E') {cs : List Char} (hcs : Decimal.CountsExactly cs)
    {v : Binary f} (h : v.IsNumeral E cs) : v.IsNumeral E' cs := by
  obtain ⟨x, hx, hnearest⟩ := h
  obtain ⟨y, hy, hsame⟩ := hx.exists_alike hE hcs
  refine ⟨y, hy, (Decimal.toBinary_eq_iff hf hp).mp ?_⟩
  rw [hsame f hf habove hbelow]
  exact (Decimal.toBinary_eq_iff hf hp).mpr hnearest

/-! ### The forms of a number -/

namespace Tag

/-- **A number with the letter of its width**, in either case. -/
inductive IsSuffixed (E : List Char → ℕ) (body : List Char) (letter : Char) : Tag → Prop
  | byte {v : Int8} (hletter : letter ∈ ['b', 'B']) (h : IsWhole body v.toInt) :
    IsSuffixed E body letter (.byte v)
  | short {v : Int16} (hletter : letter ∈ ['s', 'S']) (h : IsWhole body v.toInt) :
    IsSuffixed E body letter (.short v)
  | long {v : Int64} (hletter : letter ∈ ['l', 'L']) (h : IsWhole body v.toInt) :
    IsSuffixed E body letter (.long v)
  | float {v : Single} (hletter : letter ∈ ['f', 'F']) (h : v.IsNumeral E body) :
    IsSuffixed E body letter (.float v)
  | double {v : Double} (hletter : letter ∈ ['d', 'D']) (h : v.IsNumeral E body) :
    IsSuffixed E body letter (.double v)

/-- **A number without a letter**; a whole number is never a binary one. -/
inductive IsUnsuffixed (E : List Char → ℕ) (word : List Char) : Tag → Prop
  | int {v : Int32} (h : IsWhole word v.toInt) : IsUnsuffixed E word (.int v)
  | double {v : Double} (hwhole : ∀ n, ¬ IsWhole word n) (h : v.IsNumeral E word) :
    IsUnsuffixed E word (.double v)

/-- **The number that a word is a form of.** -/
inductive IsNumber (E : List Char → ℕ) : List Char → Tag → Prop
  | true {word : List Char} (h : word.map Char.toLower = ['t', 'r', 'u', 'e']) :
    IsNumber E word (.byte 1)
  | false {word : List Char} (h : word.map Char.toLower = ['f', 'a', 'l', 's', 'e']) :
    IsNumber E word (.byte 0)
  | suffixed {body : List Char} {letter : Char} {t : Tag} (h : IsSuffixed E body letter t) :
    IsNumber E (body ++ [letter]) t
  | unsuffixed {word : List Char} {t : Tag} (h : IsUnsuffixed E word t) : IsNumber E word t

/-- **What a word stands for**: the number that it is a form of, or itself if there is none. -/
def IsClassified (E : List Char → ℕ) (word : List Char) (t : Tag) : Prop :=
  IsNumber E word t ∨ t = .string (String.ofList word) ∧ ∀ u, ¬ IsNumber E word u

/-! ### Forms are read -/

theorem mem_pair_of_toLower {c l : Char} (h : c.toLower = l) : c ∈ [l, l.toUpper] := by
  subst h
  rcases Nat.lt_or_ge c.toNat 91 with hlt | hge
  · have hall : ∀ c : Char, c.toNat < 91 → c ∈ [c.toLower, c.toLower.toUpper] :=
      Utf8.forall_char_lt (by decide)
    exact hall c hlt
  · have hupper : ¬ (c.val ≥ 'A'.val ∧ c.val ≤ 'Z'.val) := by
      rintro ⟨-, hle⟩
      have hnat : c.toNat ≤ 90 := hle
      omega
    have hsame : c.toLower = c := dif_neg hupper
    rw [hsame]
    exact List.mem_cons_self

theorem truth?_eq_some_iff {word : List Char} {t : Tag} : truth? word = some t ↔
    word.map Char.toLower = ['t', 'r', 'u', 'e'] ∧ t = .byte 1 ∨
      word.map Char.toLower = ['f', 'a', 'l', 's', 'e'] ∧ t = .byte 0 := by
  rw [truth?]
  split
  · next heq => simp [heq, eq_comm]
  · next heq => simp [heq, eq_comm]
  · next hyes hno =>
    refine iff_of_false (Option.some_ne_none t).symm ?_
    rintro (⟨h, -⟩ | ⟨h, -⟩)
    · exact hyes h
    · exact hno h

section Widths

variable {cs : List Char} {t : Tag}

theorem byte_eq_some_iff : (readSigned 8 cs).map (fun n => byte (Int8.ofInt n)) = some t ↔
    ∃ v : Int8, IsWhole cs v.toInt ∧ byte v = t :=
  readSigned_map_eq_some_iff (fun v => ⟨v.le_toInt, v.toInt_lt⟩) Int8.ofInt_toInt
    (fun _ => Int8.toInt_ofInt_of_le) byte

theorem short_eq_some_iff : (readSigned 16 cs).map (fun n => short (Int16.ofInt n)) = some t ↔
    ∃ v : Int16, IsWhole cs v.toInt ∧ short v = t :=
  readSigned_map_eq_some_iff (fun v => ⟨v.le_toInt, v.toInt_lt⟩) Int16.ofInt_toInt
    (fun _ => Int16.toInt_ofInt_of_le) short

theorem int_eq_some_iff : (readSigned 32 cs).map (fun n => int (Int32.ofInt n)) = some t ↔
    ∃ v : Int32, IsWhole cs v.toInt ∧ int v = t :=
  readSigned_map_eq_some_iff (fun v => ⟨v.le_toInt, v.toInt_lt⟩) Int32.ofInt_toInt
    (fun _ => Int32.toInt_ofInt_of_le) int

theorem long_eq_some_iff : (readSigned 64 cs).map (fun n => long (Int64.ofInt n)) = some t ↔
    ∃ v : Int64, IsWhole cs v.toInt ∧ long v = t :=
  readSigned_map_eq_some_iff (fun v => ⟨v.le_toInt, v.toInt_lt⟩) Int64.ofInt_toInt
    (fun _ => Int64.toInt_ofInt_of_le) long

theorem float_eq_some_iff : (readBinary .single cs).map float = some t ↔
    ∃ v : Single, v.IsNumeral Decimal.exponentValue cs ∧ float v = t := by
  rw [Option.map_eq_some_iff]
  exact exists_congr fun v =>
    and_congr_left' (readBinary_eq_some_iff BinaryFormat.single_spans (by decide))

theorem double_eq_some_iff : (readBinary .double cs).map double = some t ↔
    ∃ v : Double, v.IsNumeral Decimal.exponentValue cs ∧ double v = t := by
  rw [Option.map_eq_some_iff]
  exact exists_congr fun v =>
    and_congr_left' (readBinary_eq_some_iff BinaryFormat.double_spans (by decide))

end Widths

theorem suffixed?_eq_some_iff {body : List Char} {letter : Char} {t : Tag} :
    suffixed? body letter = some t ↔ IsSuffixed Decimal.exponentValue body letter t := by
  constructor
  · intro h
    rw [suffixed?] at h
    split at h
    · next hletter =>
      obtain ⟨v, hv, rfl⟩ := byte_eq_some_iff.mp h
      exact .byte (mem_pair_of_toLower hletter) hv
    · next hletter =>
      obtain ⟨v, hv, rfl⟩ := short_eq_some_iff.mp h
      exact .short (mem_pair_of_toLower hletter) hv
    · next hletter =>
      obtain ⟨v, hv, rfl⟩ := long_eq_some_iff.mp h
      exact .long (mem_pair_of_toLower hletter) hv
    · next hletter =>
      obtain ⟨v, hv, rfl⟩ := float_eq_some_iff.mp h
      exact .float (mem_pair_of_toLower hletter) hv
    · next hletter =>
      obtain ⟨v, hv, rfl⟩ := double_eq_some_iff.mp h
      exact .double (mem_pair_of_toLower hletter) hv
    · cases h
  · rintro (⟨hletter, hv⟩ | ⟨hletter, hv⟩ | ⟨hletter, hv⟩ | ⟨hletter, hv⟩ | ⟨hletter, hv⟩)
    · rcases List.mem_pair.mp hletter with rfl | rfl <;> exact byte_eq_some_iff.mpr ⟨_, hv, rfl⟩
    · rcases List.mem_pair.mp hletter with rfl | rfl <;> exact short_eq_some_iff.mpr ⟨_, hv, rfl⟩
    · rcases List.mem_pair.mp hletter with rfl | rfl <;> exact long_eq_some_iff.mpr ⟨_, hv, rfl⟩
    · rcases List.mem_pair.mp hletter with rfl | rfl <;> exact float_eq_some_iff.mpr ⟨_, hv, rfl⟩
    · rcases List.mem_pair.mp hletter with rfl | rfl <;> exact double_eq_some_iff.mpr ⟨_, hv, rfl⟩

theorem unsuffixed?_eq_some_iff {word : List Char} {t : Tag} :
    unsuffixed? word = some t ↔ IsUnsuffixed Decimal.exponentValue word t := by
  have hwhole : (readInteger word).isSome = true ↔ ∃ n, IsWhole word n := by
    rw [Option.isSome_iff_exists]
    exact exists_congr fun n => readInteger_eq_some_iff
  rw [unsuffixed?]
  split_ifs with hsome
  · rw [int_eq_some_iff]
    constructor
    · rintro ⟨v, hv, rfl⟩
      exact .int hv
    · rintro (hv | ⟨hnone, -⟩)
      · exact ⟨_, hv, rfl⟩
      · obtain ⟨n, hn⟩ := hwhole.mp hsome
        exact absurd hn (hnone n)
  · rw [double_eq_some_iff]
    constructor
    · rintro ⟨v, hv, rfl⟩
      exact .double (fun n hn => hsome (hwhole.mpr ⟨n, hn⟩)) hv
    · rintro (hv | ⟨-, hv⟩)
      · exact absurd (hwhole.mpr ⟨_, hv⟩) hsome
      · exact ⟨_, hv, rfl⟩

/-! ### No word has two forms -/

/-- The letter of a width is not the last letter of a truth value. -/
theorem IsSuffixed.truth?_eq_none {E : List Char → ℕ} {body : List Char} {letter : Char} {t : Tag}
    (h : IsSuffixed E body letter t) : truth? (body ++ [letter]) = none := by
  refine Tag.truth?_eq_none (c := letter) (by simp) ?_
  rcases h with ⟨hletter, -⟩ | ⟨hletter, -⟩ | ⟨hletter, -⟩ | ⟨hletter, -⟩ | ⟨hletter, -⟩ <;>
    rcases List.mem_pair.mp hletter with rfl | rfl <;> decide

/-- The end of a number without a letter. -/
def EndsPlain (cs : List Char) : Prop :=
  ∃ front c, cs = front ++ [c] ∧ (isDigit c = true ∨ c = '.')

theorem EndsPlain.append {cs : List Char} (h : EndsPlain cs) (front : List Char) :
    EndsPlain (front ++ cs) := by
  obtain ⟨more, c, rfl, hc⟩ := h
  exact ⟨front ++ more, c, (List.append_assoc ..).symm, hc⟩

theorem endsPlain_of_isDigits {ds : List Char} (h : IsDigits ds) : EndsPlain ds := by
  obtain ⟨front, c, rfl⟩ := (List.eq_nil_or_concat ds).resolve_left h.1
  rw [List.concat_eq_append] at h ⊢
  exact ⟨front, c, rfl, .inl (h.2 c (by simp))⟩

theorem endsPlain_of_isMantissa {ds es m : List Char} (h : IsMantissa ds es m) : EndsPlain m := by
  rcases h with ⟨hds⟩ | ⟨-⟩ | ⟨-, hes⟩
  · exact endsPlain_of_isDigits hds
  · exact ⟨ds, '.', rfl, .inr rfl⟩
  · rw [← List.singleton_append, ← List.append_assoc]
    exact (endsPlain_of_isDigits hes).append _

theorem endsPlain_of_isWhole {cs : List Char} {n : ℤ} (h : IsWhole cs n) : EndsPlain cs := by
  rcases h with ⟨-, hds⟩
  exact (endsPlain_of_isDigits hds).append _

theorem endsPlain_of_isWritten {E : List Char → ℕ} {cs : List Char} {x : Decimal}
    (h : Decimal.IsWritten E cs x) : EndsPlain cs := by
  rcases h with ⟨-, hm, ht⟩
  refine EndsPlain.append ?_ _
  rcases ht with _ | ⟨-, -, hds⟩
  · rw [List.append_nil]
    exact endsPlain_of_isMantissa hm
  · rw [← List.cons_append]
    exact ((endsPlain_of_isDigits hds).append _).append _

theorem IsUnsuffixed.endsPlain {E : List Char → ℕ} {word : List Char} {t : Tag}
    (h : IsUnsuffixed E word t) : EndsPlain word := by
  rcases h with h | ⟨-, x, hx, -⟩
  · exact endsPlain_of_isWhole h
  · exact endsPlain_of_isWritten hx

/-- A number without a letter is nothing else. -/
theorem EndsPlain.eq_none {body : List Char} {letter : Char} (h : EndsPlain (body ++ [letter])) :
    truth? (body ++ [letter]) = none ∧ suffixed? body letter = none := by
  obtain ⟨front, c, heq, hc⟩ := h
  obtain ⟨rfl, hletter⟩ := List.append_inj' heq rfl
  obtain rfl := (List.cons.inj hletter).1
  rcases hc with hc | rfl
  · refine ⟨truth?_eq_none (c := letter) (by simp) ?_, suffixed?_digit hc⟩
    rw [toLower_of_isDigit hc]
    rintro rfl
    exact absurd hc (by decide)
  · exact ⟨truth?_eq_none (c := '.') (by simp) (by decide), rfl⟩

/-! ### The tag of a word -/

/-- The number that is read from a word. -/
def number? (word : List Char) : Option Tag :=
  truth? word <|> match word.getLast? with
    | none => none
    | some letter => suffixed? word.dropLast letter <|> unsuffixed? word

theorem scalar_eq (word : List Char) :
    scalar word = (number? word).getD (.string (String.ofList word)) := rfl

theorem IsNumber.ne_nil {E : List Char → ℕ} {word : List Char} {t : Tag}
    (h : IsNumber E word t) : word ≠ [] := by
  rintro rfl
  generalize hword : ([] : List Char) = word at h
  rcases h with h | h | - | h
  · rw [← hword] at h
    cases h
  · rw [← hword] at h
    cases h
  · exact absurd hword.symm (by simp)
  · obtain ⟨front, c, hconcat, -⟩ := h.endsPlain
    exact absurd (hword.trans hconcat).symm (by simp)

/-- The forms that a word with a last letter can have. -/
theorem isNumber_concat_iff {E : List Char → ℕ} {body : List Char} {letter : Char} {t : Tag} :
    IsNumber E (body ++ [letter]) t ↔ truth? (body ++ [letter]) = some t ∨
      IsSuffixed E body letter t ∨ IsUnsuffixed E (body ++ [letter]) t := by
  rw [truth?_eq_some_iff]
  constructor
  · intro h
    generalize hword : body ++ [letter] = word at h ⊢
    rcases h with h | h | @⟨front, c, _, h⟩ | h
    · exact .inl (.inl ⟨h, rfl⟩)
    · exact .inl (.inr ⟨h, rfl⟩)
    · obtain ⟨rfl, hletter⟩ := List.append_inj' hword rfl
      obtain rfl := (List.cons.inj hletter).1
      exact .inr (.inl h)
    · exact .inr (.inr h)
  · rintro ((⟨h, rfl⟩ | ⟨h, rfl⟩) | h | h)
    · exact .true h
    · exact .false h
    · exact .suffixed h
    · exact .unsuffixed h

/-- **A word is read as the number that it is a form of.** -/
theorem number?_eq_some_iff {word : List Char} {t : Tag} :
    number? word = some t ↔ IsNumber Decimal.exponentValue word t := by
  rcases List.eq_nil_or_concat word with rfl | ⟨body, letter, rfl⟩
  · exact iff_of_false nofun fun h => h.ne_nil rfl
  · rw [List.concat_eq_append]
    have hnumber : number? (body ++ [letter]) = (truth? (body ++ [letter])).or
        ((suffixed? body letter).or (unsuffixed? (body ++ [letter]))) := by
      simp [number?]
    rw [hnumber, Option.or_eq_some_iff, Option.or_eq_some_iff, suffixed?_eq_some_iff,
      unsuffixed?_eq_some_iff, isNumber_concat_iff]
    constructor
    · rintro (h | ⟨-, h | ⟨-, h⟩⟩)
      · exact .inl h
      · exact .inr (.inl h)
      · exact .inr (.inr h)
    · rintro (h | h | h)
      · exact .inl h
      · exact .inr ⟨h.truth?_eq_none, .inl h⟩
      · obtain ⟨htruth, hsuffixed⟩ := h.endsPlain.eq_none
        exact .inr ⟨htruth, .inr ⟨hsuffixed, h⟩⟩

/-- **A word stands for one tag**, the one that it is read as. -/
theorem scalar_eq_iff {word : List Char} {t : Tag} :
    scalar word = t ↔ IsClassified Decimal.exponentValue word t := by
  have hiff (u : Tag) : IsNumber Decimal.exponentValue word u ↔ number? word = some u :=
    number?_eq_some_iff.symm
  simp only [scalar_eq, IsClassified, hiff]
  cases number? word with
  | none =>
    rw [Option.getD_none, or_iff_right nofun, eq_comm]
    exact (and_iff_left nofun).symm
  | some u =>
    rw [Option.getD_some, Option.some.injEq, or_iff_left]
    exact fun h => h.2 u rfl

/-! ### Numbers and how their exponents are counted -/

section Alike

variable {E E' : List Char → ℕ} (hE : Decimal.CountsAlike E E') {word : List Char} {t : Tag}
include hE

theorem single_alike {v : Single} (hword : Decimal.CountsExactly word) (h : v.IsNumeral E word) :
    v.IsNumeral E' word :=
  h.alike BinaryFormat.single_spans (by decide) (by decide) (by decide) hE hword

theorem double_alike {v : Double} (hword : Decimal.CountsExactly word) (h : v.IsNumeral E word) :
    v.IsNumeral E' word :=
  h.alike BinaryFormat.double_spans (by decide) (by decide) (by decide) hE hword

theorem IsNumber.alike (hword : Decimal.CountsExactly word) (h : IsNumber E word t) :
    IsNumber E' word t := by
  rcases h with h | h | h | h
  · exact .true h
  · exact .false h
  · refine .suffixed ?_
    have hbody := hword.of_prefix (List.prefix_append ..)
    rcases h with ⟨hl, h⟩ | ⟨hl, h⟩ | ⟨hl, h⟩ | ⟨hl, h⟩ | ⟨hl, h⟩
    · exact .byte hl h
    · exact .short hl h
    · exact .long hl h
    · exact .float hl (single_alike hE hbody h)
    · exact .double hl (double_alike hE hbody h)
  · rcases h with h | ⟨hwhole, h⟩
    · exact .unsuffixed (.int h)
    · exact .unsuffixed (.double hwhole (double_alike hE hword h))

end Alike

/-- Words that are not too long, or whose exponents are not too large, stand for the same however
their exponents are counted. -/
theorem isClassified_alike {E E' : List Char → ℕ} (hE : Decimal.CountsAlike E E')
    {word : List Char} (hword : Decimal.CountsExactly word) {t : Tag} :
    IsClassified E word t ↔ IsClassified E' word t := by
  have hiff (u : Tag) : IsNumber E word u ↔ IsNumber E' word u :=
    ⟨.alike hE hword, .alike hE.symm hword⟩
  simp only [IsClassified, hiff]

/-- **Every word is what the grammar of numbers says.** The scans for numbers hold for the words
that match, and the tag is the number of which the word is a form, or the word. -/
theorem scalar_isClassified (word : List Char) :
    (Scan.isInteger word = pure (NumberForm.integer.rmatch word) ∧
      (NumberForm.integer.rmatch word ↔ ∃ n, IsWhole word n)) ∧
    (Scan.isDecimal word = pure (NumberForm.decimal.rmatch word) ∧
      (NumberForm.decimal.rmatch word ↔ ∃ x, Decimal.IsWritten digitsValue word x)) ∧
    Scan.scalar word = pure (scalar word) ∧
    (∀ t, scalar word = t ↔ IsClassified Decimal.exponentValue word t) ∧
    (Decimal.CountsExactly word → ∀ t, scalar word = t ↔ IsClassified digitsValue word t) :=
  ⟨⟨Scan.isInteger_eq_rmatch word, NumberForm.integer_rmatch_iff⟩,
    ⟨Scan.isDecimal_eq_rmatch word, NumberForm.decimal_rmatch_iff digitsValue⟩,
    Scan.scalar_eq word, fun _ => scalar_eq_iff, fun hword _ =>
      scalar_eq_iff.trans (isClassified_alike Decimal.countsAlike_exponentValue hword)⟩

/-- A number with an exponent and the letter of its width, and one that is too large for it. -/
theorem scalar_isClassified_exponents :
    IsClassified digitsValue ['1', 'e', '5', 'f'] (.float (Binary.ofInt 100000)) ∧
    IsClassified digitsValue ['1', 'e', '4', '0', 'f'] (.string "1e40f") := by
  have hshort : ∀ word : List Char, word.length ≤ 5 → Decimal.CountsExactly word :=
    fun word hword => .inl (hword.trans (by decide))
  obtain ⟨-, -, -, -, hfits⟩ := scalar_isClassified ['1', 'e', '5', 'f']
  obtain ⟨-, -, -, -, hlarge⟩ := scalar_isClassified ['1', 'e', '4', '0', 'f']
  exact ⟨(hfits (hshort _ (by decide)) _).mp rfl, (hlarge (hshort _ le_rfl) _).mp rfl⟩

end Tag

end Statuary
