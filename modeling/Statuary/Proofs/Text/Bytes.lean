import Mathlib.Data.List.Basic
import Mathlib.Tactic.ByContra
import Statuary.Text.Search

/-!
# Texts that bytes stand for

Every list of bytes is the bytes of a text (`Statuary.Utf8.encode_decode`). Not every `String` is
such a text, for the carriers of the bytes of a character spell the character as well as it does
itself; of the two only the character is what bytes are decoded into. The texts that bytes stand for
are those that come back when their bytes are decoded (`Statuary.Utf8.IsText`), and **they are told
apart by their bytes** (`Statuary.Utf8.IsText.eq_of_encode`). So the order of bytes is an order of
texts.
-/

namespace Statuary.Utf8

/-- What is decided for the code points below a bound holds of the characters below it. -/
theorem forall_char_lt {P : Char → Prop} {b : ℕ} (h : ∀ n < b, P (Char.ofNat n)) (c : Char)
    (hc : c.toNat < b) : P c := by
  rw [← Char.ofNat_toNat c]
  exact h _ hc

/-! ### Bytes of characters -/

theorem toNat_ofNat {n : ℕ} (h : n.isValidChar) : (Char.ofNat n).val.toNat = n :=
  congrArg Char.toNat (dif_pos h)

/-- A byte is one that continues a character. -/
theorem isTrail_iff {b : UInt8} : isTrail b = true ↔ b.toNat / 64 = 2 := by
  rw [isTrail, beq_iff_eq]

/-- A character of several bytes that is found is a valid one, spelt by bytes that continue it. -/
theorem more_eq_some {k least n : ℕ} {bs : List UInt8} {c : Char} {w : ℕ}
    (h : head?.more k least n bs = some (c, w)) :
    w = k + 1 ∧ (bs.take k).length = k ∧ (∀ b ∈ bs.take k, b.toNat / 64 = 2) ∧
      c.val.toNat = (bs.take k).foldl (fun n b => 64 * n + b.toNat % 64) n ∧
        least ≤ c.val.toNat := by
  rw [head?.more] at h
  split_ifs at h with htrail
  obtain ⟨c', hc, hpair⟩ := Option.map_eq_some_iff.mp h
  obtain ⟨rfl, rfl⟩ := Prod.mk.inj hpair
  rw [charOf?] at hc
  split_ifs at hc with hvalid
  rw [← Option.some.inj hc, toNat_ofNat hvalid.2]
  exact ⟨rfl, htrail.1, fun b hb => isTrail_iff.mp (List.all_eq_true.mp htrail.2 b hb), rfl,
    hvalid.1⟩

theorem toUInt8_eq {n : ℕ} {b : UInt8} (h : n = b.toNat) : UInt8.ofNat n = b := by
  rw [h, UInt8.ofNat_toNat]

/-- The character at the head of some bytes is spelt by them. -/
theorem utf8EncodeChar_of_head? {bs : List UInt8} {c : Char} {w : ℕ} (h : head? bs = some (c, w)) :
    0 < w ∧ String.utf8EncodeChar c = bs.take w := by
  cases bs with
  | nil => cases h
  | cons b bs =>
    have hb := b.toNat_lt
    rw [head?] at h
    split_ifs at h with hone htwo hthree hfour
    · obtain ⟨rfl, rfl⟩ := Prod.mk.inj (Option.some.inj h)
      have hvalid : b.toNat.isValidChar := .inl (by omega)
      refine ⟨Nat.one_pos, ?_⟩
      rw [String.utf8EncodeChar, toNat_ofNat hvalid, if_pos (by omega), UInt8.ofNat_toNat]
      rfl
    · obtain ⟨rfl, hlength, htrail, hn, hleast⟩ := more_eq_some h
      obtain ⟨x, hxs⟩ := List.length_eq_one_iff.mp hlength
      rw [hxs] at htrail hn
      have hx := htrail x (by simp)
      simp only [List.foldl_cons, List.foldl_nil] at hn
      refine ⟨Nat.succ_pos _, ?_⟩
      rw [String.utf8EncodeChar, if_neg (by omega), if_pos (by omega), List.take_succ_cons, hxs,
        toUInt8_eq (b := b) (by omega), toUInt8_eq (b := x) (by omega)]
    · obtain ⟨rfl, hlength, htrail, hn, hleast⟩ := more_eq_some h
      obtain ⟨x, y, hxs⟩ := List.length_eq_two.mp hlength
      rw [hxs] at htrail hn
      have hx := htrail x (by simp)
      have hy := htrail y (by simp)
      simp only [List.foldl_cons, List.foldl_nil] at hn
      refine ⟨Nat.succ_pos _, ?_⟩
      rw [String.utf8EncodeChar, if_neg (by omega), if_neg (by omega), if_pos (by omega),
        List.take_succ_cons, hxs, toUInt8_eq (b := b) (by omega), toUInt8_eq (b := x) (by omega),
        toUInt8_eq (b := y) (by omega)]
    · obtain ⟨rfl, hlength, htrail, hn, hleast⟩ := more_eq_some h
      obtain ⟨x, y, z, hxs⟩ := List.length_eq_three.mp hlength
      rw [hxs] at htrail hn
      have hx := htrail x (by simp)
      have hy := htrail y (by simp)
      have hz := htrail z (by simp)
      simp only [List.foldl_cons, List.foldl_nil] at hn
      refine ⟨Nat.succ_pos _, ?_⟩
      rw [String.utf8EncodeChar, if_neg (by omega), if_neg (by omega), if_neg (by omega),
        List.take_succ_cons, hxs, toUInt8_eq (b := b) (by omega), toUInt8_eq (b := x) (by omega),
        toUInt8_eq (b := y) (by omega), toUInt8_eq (b := z) (by omega)]

/-! ### Bytes of texts -/

theorem encodeChar_carrier {b : UInt8} (h : 0x80 ≤ b.toNat) : encodeChar (carrier b) = [b] := by
  rw [encodeChar, carried?_carrier b h]

/-- A byte at which no character of its own stands is none below 128. -/
theorem le_of_head? {b : UInt8} (bs : List UInt8)
    (h : ∀ c w, head? (b :: bs) = some (c, w) → isCarrier c = true) : 0x80 ≤ b.toNat := by
  by_contra hb
  have hhead : head? (b :: bs) = some (Char.ofNat b.toNat, 1) := by
    rw [head?]
    exact if_pos (by omega)
  have hplain : ∀ n < 0x80, isCarrier (Char.ofNat n) = false := by decide
  exact Bool.false_ne_true ((hplain _ (by omega)).symm.trans (h _ _ hhead))

theorem decodeFrom_eq_drop (skip : ℕ) (bs : List UInt8) :
    decodeFrom skip bs = decodeFrom 0 (bs.drop skip) := by
  induction skip generalizing bs with
  | zero => rfl
  | succ skip ih =>
    cases bs with
    | nil => rfl
    | cons b bs => exact ih bs

theorem flatMap_decodeFrom (bs : List UInt8) : (decodeFrom 0 bs).flatMap encodeChar = bs := by
  induction hlength : bs.length using Nat.strongRecOn generalizing bs with
  | ind n ih =>
    cases bs with
    | nil => rfl
    | cons b rest =>
      rw [List.length_cons] at hlength
      -- a byte that is part of no character of its own is carried
      have hcarried (hb : 0x80 ≤ b.toNat) :
          (carrier b :: decodeFrom 0 rest).flatMap encodeChar = b :: rest := by
        rw [List.flatMap_cons, encodeChar_carrier hb, ih _ (by omega) rest rfl,
          List.singleton_append]
      rw [decodeFrom]
      cases hhead : head? (b :: rest) with
      | none => exact hcarried (le_of_head? rest fun c w h => by rw [hhead] at h; cases h)
      | some found =>
        obtain ⟨c, w⟩ := found
        obtain ⟨hw, hspelt⟩ := utf8EncodeChar_of_head? hhead
        dsimp only
        by_cases hcarrier : isCarrier c = true
        · rw [if_pos hcarrier]
          refine hcarried (le_of_head? rest fun d v h => ?_)
          rw [hhead] at h
          obtain ⟨rfl, -⟩ := Prod.mk.inj (Option.some.inj h)
          exact hcarrier
        · have hencode : encodeChar c = (b :: rest).take w := by
            rw [encodeChar, Option.not_isSome_iff_eq_none.mp hcarrier, hspelt]
          obtain ⟨w, rfl⟩ := Nat.exists_eq_add_of_lt hw
          rw [if_neg hcarrier, decodeFrom_eq_drop, List.flatMap_cons, hencode,
            ih (rest.drop w).length (by rw [List.length_drop]; omega) _ (by simp), Nat.zero_add,
            List.take_succ_cons, Nat.add_sub_cancel, List.cons_append, List.take_append_drop]

/-- **Bytes are the bytes of their text.** -/
theorem encode_decode (bytes : List UInt8) : encode (decode bytes) = bytes := by
  rw [encode, decode, String.toList_ofList, flatMap_decodeFrom]

/-- A text that bytes stand for: the one that its bytes are decoded into. -/
def IsText (s : String) : Prop :=
  decode (encode s) = s

theorem isText_decode (bytes : List UInt8) : IsText (decode bytes) := by
  rw [IsText, encode_decode]

/-- **Texts are told apart by their bytes.** -/
theorem IsText.eq_of_encode {s t : String} (hs : IsText s) (ht : IsText t)
    (h : encode s = encode t) : s = t := by
  rw [← hs, h, ht]

/-! ### The order of texts -/

theorem textLt_eq_false_trans {a b c : String} (hab : textLt a b = false)
    (hbc : textLt b c = false) : textLt a c = false := by
  simp only [textLt, decide_eq_false_iff_not, List.not_lt] at *
  exact List.le_trans hbc hab

theorem textLt_eq_false_total (a b : String) : textLt a b = false ∨ textLt b a = false := by
  simp only [textLt, decide_eq_false_iff_not, List.not_lt]
  exact (List.le_total _ _).symm

/-- Of two texts one comes first. -/
theorem IsText.textLt_or {s t : String} (hs : IsText s) (ht : IsText t) (h : s ≠ t) :
    textLt s t = true ∨ textLt t s = true := by
  simp only [textLt, decide_eq_true_eq]
  by_contra! hnone
  exact h (hs.eq_of_encode ht (List.le_antisymm hnone.2 hnone.1))

end Statuary.Utf8
