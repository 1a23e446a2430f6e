import Statuary.Proofs.Text.Bytes
import Statuary.Text.Quoted

/-!
# Pieces of texts

Whoever goes through bytes one by one and cuts out some of them has to know which text the piece is.
It is the characters between the cuts only if no byte becomes a character, or part of one, by what
is beside it now. Characters that bytes are decoded into (`Statuary.Utf8.IsDecoded`) stay that when
something is cut off at either end, and when something is cut out before a character below 128, for
such a character is never part of another one (`Statuary.Utf8.IsDecoded.append_cons`).

Both come from what makes a character stand where it does (`Statuary.Utf8.StandsBefore`): it is
found at the head of its bytes, or it carries a byte at which no character is found. Less behind it
cannot make a character be found there, and neither can a byte below 128.

A single byte is looked at as the character with its number (`Statuary.Utf8.ofByte`). For a property
of characters below 128 it makes no difference whether it is asked of a character or of its first
byte (`Statuary.Utf8.apply_firstByte`).
-/

namespace Statuary.Utf8

/-! ### Bytes as characters -/

/-- The character whose number is a byte. -/
def ofByte (b : UInt8) : Char :=
  Char.ofNat b.toNat

theorem toNat_ofByte (b : UInt8) : (ofByte b).toNat = b.toNat :=
  toNat_ofNat (.inl (by have := b.toNat_lt; omega))

theorem toNat_lt_of_valid (c : Char) : c.toNat < 0x110000 := by
  have h : c.toNat.isValidChar := c.valid
  rw [Nat.isValidChar] at h
  omega

/-- Only bytes from 128 on are carried. -/
theorem le_of_carried? {c : Char} {b : UInt8} (h : carried? c = some b) :
    0x80 ≤ b.toNat ∧ 0x80 ≤ c.toNat := by
  rw [carried?] at h
  split_ifs at h with hrange
  rw [← Option.some.inj h, UInt8.toNat_ofNat', carrierBase]
  rw [carrierBase] at hrange
  omega

theorem carried?_of_lt {c : Char} (h : c.toNat < 0x80) : carried? c = none := by
  cases hc : carried? c with
  | none => rfl
  | some b => exact absurd (le_of_carried? hc).2 (Nat.not_le.mpr h)

/-- A character below 128 is its only byte. -/
theorem encodeChar_of_lt {c : Char} (h : c.toNat < 0x80) :
    encodeChar c = [UInt8.ofNat c.toNat] := by
  rw [encodeChar, carried?_of_lt h]
  exact if_pos (Nat.le_of_lt_succ h)

/-- The bytes of any other character are none below 128. -/
theorem le_of_mem_encodeChar {c : Char} (h : 0x80 ≤ c.toNat) {b : UInt8} (hb : b ∈ encodeChar c) :
    0x80 ≤ b.toNat := by
  have hlt := toNat_lt_of_valid c
  rw [Char.toNat] at h hlt
  rw [encodeChar] at hb
  cases hc : carried? c with
  | some d =>
    rw [hc] at hb
    rw [List.mem_singleton.mp hb]
    exact (le_of_carried? hc).1
  | none =>
    rw [hc] at hb
    simp only [String.utf8EncodeChar] at hb
    split_ifs at hb <;> simp only [List.mem_cons, List.not_mem_nil, or_false] at hb
    · omega
    · rcases hb with rfl | rfl <;> rw [UInt8.toNat_ofNat'] <;> omega
    · rcases hb with rfl | rfl | rfl <;> rw [UInt8.toNat_ofNat'] <;> omega
    · rcases hb with rfl | rfl | rfl | rfl <;> rw [UInt8.toNat_ofNat'] <;> omega

/-- The first of the bytes of a character. -/
theorem exists_encodeChar (c : Char) :
    ∃ b bs, encodeChar c = b :: bs ∧ ofByte b = firstByte c := by
  have hlt := toNat_lt_of_valid c
  have hbyte {n : ℕ} (h : n < 256) : ofByte (UInt8.ofNat n) = Char.ofNat n := by
    rw [ofByte, UInt8.toNat_ofNat', Nat.mod_eq_of_lt h]
  rw [encodeChar, firstByte]
  cases hc : carried? c with
  | some b => exact ⟨b, [], rfl, rfl⟩
  | none =>
    simp only [String.utf8EncodeChar]
    rw [Char.toNat] at hlt ⊢
    split_ifs <;> first | omega | refine ⟨_, _, rfl, ?_⟩
    · rw [hbyte (by omega)]
      exact Char.ofNat_toNat c
    · rw [hbyte (by omega)]
      congr 1
      omega
    · rw [hbyte (by omega)]
      congr 1
      omega
    · rw [hbyte (by omega)]
      congr 1
      omega

theorem firstByte_of_lt {c : Char} (h : c.toNat < 0x80) : firstByte c = c := by
  obtain ⟨b, bs, hencode, hb⟩ := exists_encodeChar c
  rw [encodeChar_of_lt h] at hencode
  rw [← hb, ← (List.cons.inj hencode).1, ofByte, UInt8.toNat_ofNat',
    Nat.mod_eq_of_lt (by omega)]
  exact Char.ofNat_toNat c

theorem le_firstByte {c : Char} (h : 0x80 ≤ c.toNat) : 0x80 ≤ (firstByte c).toNat := by
  obtain ⟨b, bs, hencode, hb⟩ := exists_encodeChar c
  rw [← hb, toNat_ofByte]
  exact le_of_mem_encodeChar h (hencode ▸ List.mem_cons_self)

/-- A property of characters below 128 can be asked of the first byte. -/
theorem apply_firstByte {p : Char → Bool} (hp : ∀ c, p c = true → c.toNat < 0x80) (c : Char) :
    p (firstByte c) = p c := by
  rcases Nat.lt_or_ge c.toNat 0x80 with h | h
  · rw [firstByte_of_lt h]
  · have hfalse {d : Char} (hd : 0x80 ≤ d.toNat) : p d = false :=
      Bool.eq_false_iff.mpr fun htrue => absurd (hp d htrue) (Nat.not_lt.mpr hd)
    rw [hfalse h, hfalse (le_firstByte h)]

theorem firstByte_eq_iff {a : Char} (ha : a.toNat < 0x80) {c : Char} : firstByte c = a ↔ c = a := by
  have h := apply_firstByte (p := (· == a)) (fun d hd => (beq_iff_eq.mp hd) ▸ ha) c
  rw [← beq_iff_eq, h, beq_iff_eq]

/-! ### Characters at the head of bytes -/

theorem more_append {k least n : ℕ} {bs : List UInt8} (hk : k ≤ bs.length) (r : List UInt8) :
    head?.more k least n (bs ++ r) = head?.more k least n bs := by
  rw [head?.more, head?.more, List.take_append_of_le_length hk]

/-- A character is found, whatever follows its bytes. -/
theorem head?_append {l : List UInt8} {c : Char} {w : ℕ} (h : head? l = some (c, w))
    (r : List UInt8) : head? (l ++ r) = some (c, w) := by
  cases l with
  | nil => cases h
  | cons b bs =>
    have hmore {k least n : ℕ} (h : head?.more k least n bs = some (c, w)) :
        head?.more k least n (bs ++ r) = some (c, w) := by
      rw [more_append ?_ r, h]
      rw [← (more_eq_some h).2.1]
      exact List.length_take_le' ..
    rw [head?] at h
    rw [List.cons_append, head?]
    split_ifs at h ⊢
    · exact h
    · exact hmore h
    · exact hmore h
    · exact hmore h

/-- What follows the bytes of a character is not needed to find it. -/
theorem head?_of_append {l r : List UInt8} {c : Char} {w : ℕ} (h : head? (l ++ r) = some (c, w))
    (hw : w ≤ l.length) : head? l = some (c, w) := by
  cases l with
  | nil => exact absurd (utf8EncodeChar_of_head? h).1 (Nat.not_lt.mpr hw)
  | cons b bs =>
    have hmore {k least n : ℕ} (h : head?.more k least n (bs ++ r) = some (c, w)) :
        head?.more k least n bs = some (c, w) := by
      rw [← more_append ?_ r, h]
      rw [(more_eq_some h).1, List.length_cons] at hw
      omega
    rw [List.cons_append, head?] at h
    rw [head?]
    split_ifs at h ⊢
    · exact h
    · exact hmore h
    · exact hmore h
    · exact hmore h

/-- No character reaches up to a byte below 128 that is not its first. -/
theorem head?_append_cons {l : List UInt8} (hl : l ≠ []) {a : UInt8} (ha : a.toNat < 0x80)
    (r : List UInt8) : head? (l ++ a :: r) = head? l := by
  cases l with
  | nil => exact absurd rfl hl
  | cons b bs =>
    have hmore (k least n : ℕ) :
        head?.more k least n (bs ++ a :: r) = head?.more k least n bs := by
      rcases Nat.lt_or_ge bs.length k with hk | hk
      · -- there are too few bytes without it, and with it one that continues nothing
        have hmem : a ∈ (bs ++ a :: r).take k := by
          rw [List.take_append, List.mem_append]
          refine .inr ?_
          obtain ⟨i, hi⟩ := Nat.exists_eq_add_of_lt hk
          rw [hi, show bs.length + i + 1 - bs.length = i + 1 by omega, List.take_succ_cons]
          exact List.mem_cons_self
        rw [head?.more, if_neg, head?.more, if_neg]
        · rintro ⟨hlength, -⟩
          rw [List.length_take] at hlength
          omega
        · rintro ⟨-, hall⟩
          have htrail := isTrail_iff.mp (List.all_eq_true.mp hall a hmem)
          omega
      · exact more_append hk _
    rw [List.cons_append, head?, head?]
    simp only [hmore]

/-! ### Texts of bytes -/

/-- Characters that bytes are decoded into. -/
def IsDecoded (cs : List Char) : Prop :=
  decodeFrom 0 (cs.flatMap encodeChar) = cs

theorem isDecoded_decodeFrom (bs : List UInt8) : IsDecoded (decodeFrom 0 bs) := by
  rw [IsDecoded, flatMap_decodeFrom]

theorem IsDecoded.decode_eq {cs : List Char} (h : IsDecoded cs) :
    decode (cs.flatMap encodeChar) = String.ofList cs := by
  rw [decode, h]

/-- **A character stands before bytes**: it is found at the head of its own, or it carries a byte at
which no character is found. -/
def StandsBefore (c : Char) (bs : List UInt8) : Prop :=
  (isCarrier c = false ∧ head? (encodeChar c ++ bs) = some (c, (encodeChar c).length)) ∨
    ∃ b, c = carrier b ∧ 0x80 ≤ b.toNat ∧
      ∀ d w, head? (b :: bs) = some (d, w) → isCarrier d = true

theorem encodeChar_ne_nil (c : Char) : encodeChar c ≠ [] := by
  obtain ⟨b, bs, h, -⟩ := exists_encodeChar c
  rw [h]
  exact List.cons_ne_nil _ _

theorem StandsBefore.of_append {c : Char} {bs : List UInt8} (r : List UInt8)
    (h : StandsBefore c (bs ++ r)) : StandsBefore c bs := by
  rcases h with ⟨hc, hhead⟩ | ⟨b, hc, hb, hnone⟩
  · refine .inl ⟨hc, head?_of_append (r := r) ?_ ?_⟩
    · rw [List.append_assoc, hhead]
    · simp
  · exact .inr ⟨b, hc, hb, fun d w hd => hnone d w (head?_append hd r)⟩

theorem StandsBefore.append_cons {c : Char} {bs : List UInt8} (h : StandsBefore c bs) {a : UInt8}
    (ha : a.toNat < 0x80) (r : List UInt8) : StandsBefore c (bs ++ a :: r) := by
  rcases h with ⟨hc, hhead⟩ | ⟨b, hc, hb, hnone⟩
  · refine .inl ⟨hc, ?_⟩
    rw [← List.append_assoc, head?_append_cons (by simp [encodeChar_ne_nil]) ha, hhead]
  · refine .inr ⟨b, hc, hb, fun d w hd => hnone d w ?_⟩
    rw [← hd, ← List.cons_append, head?_append_cons (List.cons_ne_nil _ _) ha]

theorem length_le_of_head? {bs : List UInt8} {c : Char} {w : ℕ} (h : head? bs = some (c, w)) :
    w ≤ bs.length := by
  cases bs with
  | nil => cases h
  | cons b bs =>
    have hmore {k least n : ℕ} (h : head?.more k least n bs = some (c, w)) :
        w ≤ (b :: bs).length := by
      obtain ⟨rfl, hlength, -⟩ := more_eq_some h
      rw [List.length_cons, ← hlength]
      exact Nat.succ_le_succ (List.length_take_le' ..)
    rw [head?] at h
    split_ifs at h
    · obtain ⟨-, rfl⟩ := Prod.mk.inj (Option.some.inj h)
      exact Nat.succ_pos _
    · exact hmore h
    · exact hmore h
    · exact hmore h

/-- A character that is found, and carries nothing, has the bytes it is found in. -/
theorem encodeChar_of_head? {bs : List UInt8} {c : Char} {w : ℕ} (h : head? bs = some (c, w))
    (hc : isCarrier c = false) : encodeChar c = bs.take w ∧ (encodeChar c).length = w := by
  have hnone : carried? c = none := by
    rw [← Option.not_isSome_iff_eq_none, ← isCarrier, hc]
    exact Bool.false_ne_true
  have hencode : encodeChar c = bs.take w := by
    rw [encodeChar, hnone]
    exact (utf8EncodeChar_of_head? h).2
  exact ⟨hencode, by rw [hencode, List.length_take_of_le (length_le_of_head? h)]⟩

/-- What stands at the head of bytes is the first of the characters they are decoded into. -/
theorem StandsBefore.decodeFrom_eq {c : Char} {bs : List UInt8} (h : StandsBefore c bs) :
    decodeFrom 0 (encodeChar c ++ bs) = c :: decodeFrom 0 bs := by
  rcases h with ⟨hc, hhead⟩ | ⟨b, rfl, hb, hnone⟩
  · obtain ⟨b, ds, hencode, -⟩ := exists_encodeChar c
    rw [hencode] at hhead ⊢
    rw [List.cons_append] at hhead ⊢
    rw [decodeFrom, hhead]
    dsimp only
    rw [if_neg (by rw [hc]; exact Bool.false_ne_true), List.length_cons, Nat.add_sub_cancel,
      decodeFrom_eq_drop, List.drop_left]
  · rw [encodeChar_carrier hb, List.singleton_append, decodeFrom]
    cases hhead : head? (b :: bs) with
    | none => rfl
    | some found => exact if_pos (hnone _ _ hhead)

/-- The first of the characters that bytes are decoded into stands at their head. -/
theorem standsBefore_of_decodeFrom {c : Char} {bs : List UInt8} {cs : List Char}
    (h : decodeFrom 0 (encodeChar c ++ bs) = c :: cs) : StandsBefore c bs := by
  obtain ⟨b, ds, hencode, -⟩ := exists_encodeChar c
  rw [hencode, List.cons_append, decodeFrom] at h
  -- a byte that is part of no character of its own is all that its carrier has
  have hcarried (hnone : ∀ d w, head? (b :: (ds ++ bs)) = some (d, w) → isCarrier d = true)
      (hc : carrier b = c) : StandsBefore c bs := by
    have hb := le_of_head? _ hnone
    have hds : ds = [] := by
      rw [← hc, encodeChar_carrier hb] at hencode
      exact (List.cons.inj hencode).2.symm
    subst hds
    exact .inr ⟨b, hc.symm, hb, hnone⟩
  cases hhead : head? (b :: (ds ++ bs)) with
  | none =>
    rw [hhead] at h
    exact hcarried (fun d w hd => by rw [hhead] at hd; cases hd) (List.cons.inj h).1
  | some found =>
    obtain ⟨d, w⟩ := found
    rw [hhead] at h
    dsimp only at h
    split_ifs at h with hd
    · refine hcarried (fun e v he => ?_) (List.cons.inj h).1
      rw [hhead] at he
      rw [← (Prod.mk.inj (Option.some.inj he)).1]
      exact hd
    · obtain ⟨rfl, -⟩ := List.cons.inj h
      have hd := Bool.eq_false_iff.mpr hd
      refine .inl ⟨hd, ?_⟩
      rw [hencode, List.cons_append, hhead, ← hencode, (encodeChar_of_head? hhead hd).2]

/-- **Decoding goes from character to character.** -/
theorem isDecoded_cons {c : Char} {cs : List Char} :
    IsDecoded (c :: cs) ↔ StandsBefore c (cs.flatMap encodeChar) ∧ IsDecoded cs := by
  rw [IsDecoded, List.flatMap_cons]
  constructor
  · intro h
    have hc := standsBefore_of_decodeFrom h
    rw [hc.decodeFrom_eq] at h
    exact ⟨hc, (List.cons.inj h).2⟩
  · rintro ⟨hc, hcs⟩
    rw [hc.decodeFrom_eq, hcs]

theorem IsDecoded.of_append_right {cs ds : List Char} (h : IsDecoded (cs ++ ds)) :
    IsDecoded ds := by
  induction cs with
  | nil => exact h
  | cons c cs ih => exact ih (isDecoded_cons.mp h).2

theorem IsDecoded.of_append_left {cs ds : List Char} (h : IsDecoded (cs ++ ds)) :
    IsDecoded cs := by
  induction cs with
  | nil => rfl
  | cons c cs ih =>
    rw [List.cons_append, isDecoded_cons, List.flatMap_append] at h
    obtain ⟨hc, hcs⟩ := h
    exact isDecoded_cons.mpr ⟨hc.of_append _, ih hcs⟩

/-- Texts are joined before a character below 128. -/
theorem IsDecoded.append_cons {cs ds : List Char} {a : Char} (h : IsDecoded cs)
    (ha : a.toNat < 0x80) (hds : IsDecoded (a :: ds)) : IsDecoded (cs ++ a :: ds) := by
  induction cs with
  | nil => exact hds
  | cons c cs ih =>
    obtain ⟨hc, hcs⟩ := isDecoded_cons.mp h
    rw [List.cons_append]
    refine isDecoded_cons.mpr ⟨?_, ih hcs⟩
    rw [List.flatMap_append, List.flatMap_cons, encodeChar_of_lt ha]
    refine hc.append_cons ?_ _
    rw [UInt8.toNat_ofNat']
    omega

end Statuary.Utf8
