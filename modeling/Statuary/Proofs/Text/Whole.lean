import Statuary.Proofs.Text.Pieces

/-!
# Whole texts

The bytes of a text may end in the middle of a character, and with the bytes that come next become
another text. A text is **whole** if they never do: whatever bytes follow, it is decoded for itself
(`Statuary.Utf8.IsWhole`). A whole text begins another text exactly if its bytes begin the bytes of
that one (`Statuary.Utf8.IsWhole.isPrefix_of_bytes`), so searching for it in characters and in bytes
is the same.

The texts that come from outside are whole (`Statuary.Utf8.isWhole_ofString`): a character is found
at the head of its bytes (`Statuary.Utf8.head?_utf8EncodeChar`), and the carriers of one that is set
aside carry all of its bytes.
-/

namespace Statuary.Utf8

/-- The bytes of some characters. -/
def bytes (cs : List Char) : List UInt8 :=
  cs.flatMap encodeChar

/-- **The characters are decoded for themselves**, whatever bytes follow theirs. -/
def IsWhole (cs : List Char) : Prop :=
  ∀ more, decodeFrom 0 (bytes cs ++ more) = cs ++ decodeFrom 0 more

variable {cs ds : List Char}

theorem isWhole_nil : IsWhole [] := fun _ => rfl

theorem IsWhole.isDecoded (hc : IsWhole cs) : IsDecoded cs := by
  have hcs := hc []
  rwa [List.append_nil, decodeFrom, List.append_nil] at hcs

theorem IsWhole.append (hc : IsWhole cs) (hd : IsWhole ds) : IsWhole (cs ++ ds) := by
  intro more
  rw [bytes, List.flatMap_append, List.append_assoc, List.append_assoc]
  exact (hc _).trans (congrArg (cs ++ ·) (hd more))

theorem isWhole_flatMap {α : Type} {f : α → List Char} (h : ∀ a, IsWhole (f a)) (as : List α) :
    IsWhole (as.flatMap f) := by
  induction as with
  | nil => exact isWhole_nil
  | cons a as ih => exact (h a).append ih

/-- **Whole characters begin a text** whose bytes begin with theirs. -/
theorem IsWhole.isPrefix_of_bytes (hc : IsWhole cs) (hd : IsDecoded ds)
    (h : bytes cs <+: bytes ds) : cs <+: ds := by
  obtain ⟨more, hmore⟩ := h
  refine ⟨decodeFrom 0 more, ?_⟩
  rw [← hc, hmore]
  exact hd

theorem IsWhole.eq_of_bytes (hc : IsWhole cs) (hd : IsWhole ds) (h : bytes cs = bytes ds) :
    cs = ds := by
  rw [← show decodeFrom 0 (bytes cs) = cs from hc.isDecoded, h]
  exact hd.isDecoded

/-! ### Texts from outside -/

theorem more_of_trail {k least n : ℕ} {ts : List UInt8} (hlength : ts.length = k)
    (htrail : ∀ b ∈ ts, b.toNat / 64 = 2) (bs : List UInt8) :
    head?.more k least n (ts ++ bs) =
      (charOf? least (ts.foldl (fun n b => 64 * n + b.toNat % 64) n)).map (·, k + 1) := by
  have hall : ts.all isTrail = true :=
    List.all_eq_true.mpr fun b hb => isTrail_iff.mpr (htrail b hb)
  rw [head?.more, List.take_left' hlength, if_pos ⟨hlength, hall⟩]

/-- Six bits of a number go into a byte that continues a character. -/
theorem forall_trail_cons {n : ℕ} {ts : List UInt8} (h : ∀ t ∈ ts, t.toNat / 64 = 2) :
    ∀ t ∈ UInt8.ofNat (n % 64 + 128) :: ts, t.toNat / 64 = 2 := by
  refine List.forall_mem_cons.mpr ⟨?_, h⟩
  rw [UInt8.toNat_ofNat']
  omega

theorem forall_trail_nil : ∀ t ∈ ([] : List UInt8), t.toNat / 64 = 2 :=
  List.forall_mem_nil _

/-- **A character is found at the head of its bytes.** -/
theorem head?_utf8EncodeChar (c : Char) (bs : List UInt8) :
    head? (String.utf8EncodeChar c ++ bs) = some (c, (String.utf8EncodeChar c).length) := by
  have hvalid : c.val.toNat.isValidChar := c.valid
  have hlt := toNat_lt_of_valid c
  rw [Char.toNat] at hlt
  have hchar {least n : ℕ} (hn : n = c.val.toNat) (hleast : least ≤ c.val.toNat) :
      charOf? least n = some c := by
    subst hn
    rw [charOf?, if_pos ⟨hleast, hvalid⟩]
    exact congrArg some (Char.ofNat_toNat c)
  rw [String.utf8EncodeChar]
  -- one case for each number of bytes
  split_ifs with hone htwo hthree
  · rw [List.singleton_append, head?, UInt8.toNat_ofNat', if_pos (by omega),
      Nat.mod_eq_of_lt (by omega)]
    exact congrArg (fun d => some (d, 1)) (Char.ofNat_toNat c)
  · rw [List.cons_append, head?, UInt8.toNat_ofNat', if_neg (by omega), if_pos (by omega),
      more_of_trail, hchar]
    · rfl
    · simp only [List.foldl_cons, List.foldl_nil, UInt8.toNat_ofNat']
      omega
    · omega
    · rfl
    · exact forall_trail_cons forall_trail_nil
  · rw [List.cons_append, head?, UInt8.toNat_ofNat', if_neg (by omega), if_neg (by omega),
      if_pos (by omega), more_of_trail, hchar]
    · rfl
    · simp only [List.foldl_cons, List.foldl_nil, UInt8.toNat_ofNat']
      omega
    · omega
    · rfl
    · exact forall_trail_cons (forall_trail_cons forall_trail_nil)
  · rw [List.cons_append, head?, UInt8.toNat_ofNat', if_neg (by omega), if_neg (by omega),
      if_neg (by omega), if_pos (by omega), more_of_trail, hchar]
    · rfl
    · simp only [List.foldl_cons, List.foldl_nil, UInt8.toNat_ofNat']
      omega
    · omega
    · rfl
    · exact forall_trail_cons (forall_trail_cons (forall_trail_cons forall_trail_nil))

/-- The first byte of a character, and those that continue it. -/
theorem exists_utf8EncodeChar (c : Char) :
    ∃ b ts, String.utf8EncodeChar c = b :: ts ∧ ∀ t ∈ ts, t.toNat / 64 = 2 := by
  rw [String.utf8EncodeChar]
  split_ifs
  · exact ⟨_, _, rfl, forall_trail_nil⟩
  · exact ⟨_, _, rfl, forall_trail_cons forall_trail_nil⟩
  · exact ⟨_, _, rfl, forall_trail_cons (forall_trail_cons forall_trail_nil)⟩
  · exact ⟨_, _, rfl, forall_trail_cons (forall_trail_cons (forall_trail_cons forall_trail_nil))⟩

/-- A character that stands before whatever follows is whole. -/
theorem isWhole_singleton {c : Char} (h : ∀ more, StandsBefore c more) : IsWhole [c] := by
  intro more
  rw [bytes, List.flatMap_singleton]
  exact (h more).decodeFrom_eq

theorem isWhole_of_not_isCarrier {c : Char} (hc : ¬ isCarrier c = true) : IsWhole [c] := by
  have hencode : encodeChar c = String.utf8EncodeChar c := by
    rw [encodeChar, Option.not_isSome_iff_eq_none.mp hc]
  refine isWhole_singleton fun more => .inl ⟨Bool.eq_false_iff.mpr hc, ?_⟩
  rw [hencode, head?_utf8EncodeChar]

/-- No character is found at a byte that continues one. -/
theorem head?_of_trail {b : UInt8} (hb : b.toNat / 64 = 2) (bs : List UInt8) :
    head? (b :: bs) = none := by
  rw [head?, if_neg (by omega), if_neg (by omega), if_neg (by omega), if_neg (by omega)]

theorem isWhole_carriers {ts : List UInt8} (h : ∀ t ∈ ts, t.toNat / 64 = 2) :
    IsWhole (ts.map carrier) := by
  induction ts with
  | nil => exact isWhole_nil
  | cons t ts ih =>
    obtain ⟨ht, hts⟩ := List.forall_mem_cons.mp h
    refine (isWhole_singleton fun more => .inr ⟨t, rfl, by omega, fun d w hd => ?_⟩).append (ih hts)
    rw [head?_of_trail ht] at hd
    cases hd

theorem bytes_map_carrier {ts : List UInt8} (h : ∀ t ∈ ts, t.toNat / 64 = 2) :
    bytes (ts.map carrier) = ts := by
  induction ts with
  | nil => rfl
  | cons t ts ih =>
    obtain ⟨ht, hts⟩ := List.forall_mem_cons.mp h
    rw [List.map_cons, bytes, List.flatMap_cons, encodeChar_carrier (by omega)]
    exact congrArg (t :: ·) (ih hts)

/-- What stands for a character is whole, also where carriers do. -/
theorem isWhole_ofChar (c : Char) : IsWhole (ofChar c) := by
  rw [ofChar]
  split_ifs with hc
  · obtain ⟨b, ts, hencode, htrail⟩ := exists_utf8EncodeChar c
    intro more
    -- the character that is found there is the one that is set aside
    have hfound : ∀ d w, head? (b :: (ts ++ more)) = some (d, w) → isCarrier d = true := by
      intro d w h
      rw [← List.cons_append, ← hencode, head?_utf8EncodeChar] at h
      rwa [← (Prod.mk.inj (Option.some.inj h)).1]
    have hb := le_of_head? _ hfound
    have hstands : StandsBefore (carrier b) (ts ++ more) := .inr ⟨b, rfl, hb, hfound⟩
    have hwhole := isWhole_carriers htrail more
    rw [bytes_map_carrier htrail] at hwhole
    rw [hencode, List.map_cons, bytes, List.flatMap_cons, ← bytes, bytes_map_carrier htrail,
      List.append_assoc, hstands.decodeFrom_eq, hwhole, List.cons_append]
  · exact isWhole_of_not_isCarrier hc

/-- A string without characters of the range that is set aside is the text itself. -/
theorem ofString_of_any {s : String} (h : s.toList.any isCarrier = false) : ofString s = s := by
  rw [ofString, any_isCarrier, if_neg (Bool.eq_false_iff.mp h)]

/-- The characters of a string from outside. -/
theorem toList_ofString (s : String) : (ofString s).toList = s.toList.flatMap ofChar := by
  cases h : s.toList.any isCarrier with
  | true => rw [ofString, any_isCarrier, if_pos h, String.toList_ofList]
  | false =>
    have hself : ∀ cs : List Char, cs.any isCarrier = false → cs.flatMap ofChar = cs := by
      intro cs hcs
      induction cs with
      | nil => rfl
      | cons c cs ih =>
        rw [List.any_cons, Bool.or_eq_false_iff] at hcs
        rw [List.flatMap_cons, ofChar, if_neg (Bool.eq_false_iff.mp hcs.1), ih hcs.2,
          List.singleton_append]
    rw [ofString_of_any h, hself _ h]

/-- **Every string from outside is a whole text.** -/
theorem isWhole_ofString (s : String) : IsWhole (ofString s).toList := by
  rw [toList_ofString]
  exact isWhole_flatMap isWhole_ofChar _

theorem isText_ofString (s : String) : IsText (ofString s) := by
  rw [IsText, encode, (isWhole_ofString s).isDecoded.decode_eq, String.ofList_toList]

end Statuary.Utf8
