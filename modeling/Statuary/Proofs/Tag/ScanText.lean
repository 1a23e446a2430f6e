import Mathlib.Data.List.DropRight
import Statuary.Proofs.Tag.Reading
import Statuary.Proofs.Tag.ScanWord

/-!
# Positions and what is left

A reader keeps what is left of the characters, and a scan keeps a position in the bytes. Each is
known from the other: what is left of a text of `n` bytes is at the position `n` less its own number
of bytes (`Statuary.Scan.place`), and what stands there in the bytes are the bytes of what is left
(`Statuary.Scan.drop_place`). So no index is out of range as long as something is left, and **a scan
is told by a reader**: it goes on with what the reader has read at the position of what the reader
has left, or is refused where the reader stopped (`Statuary.Scan.settle`).

A loop takes one step for each byte and a reader one for each character. That makes a difference
only inside of quotes. Blanks and words are of characters below 128, whose bytes they are; between
quotes the bytes of one character are passed over together, for none of them looks like a backslash
or a quote (`Statuary.Scan.quotedFrom_append`). What is collected there is the text that the reader
makes, since a backslash that is left out stood before a character below 128
(`Statuary.Scan.isDecoded_readQuoted`).
-/

namespace Statuary.Scan

open Utf8

variable {s : List UInt8} {cs : List Char} {c : Char}

/-! ### Positions -/

/-- The characters of bytes. -/
abbrev chars (s : List UInt8) : List Char :=
  decodeFrom 0 s

/-- The position at which something is left of the characters. -/
def place (s : List UInt8) (cs : List Char) : ℕ :=
  s.length - byteCount cs

theorem byteCount_eq (cs : List Char) : byteCount cs = (cs.flatMap encodeChar).length := by
  induction cs with
  | nil => rfl
  | cons c cs ih =>
    rw [List.flatMap_cons, List.length_append, ← ih, length_encodeChar]
    rfl

theorem isDecoded_of_isSuffix (h : cs <:+ chars s) : IsDecoded cs := by
  obtain ⟨before, hbefore⟩ := h
  exact (hbefore ▸ isDecoded_decodeFrom s : IsDecoded (before ++ cs)).of_append_right

/-- What stands at a position is what is left. -/
theorem drop_place (h : cs <:+ chars s) : s.drop (place s cs) = cs.flatMap encodeChar := by
  obtain ⟨before, hbefore⟩ := h
  have hs : s = before.flatMap encodeChar ++ cs.flatMap encodeChar := by
    rw [← List.flatMap_append, hbefore, flatMap_decodeFrom]
  have hplace : place s cs = (before.flatMap encodeChar).length := by
    rw [place, byteCount_eq, hs, List.length_append, Nat.add_sub_cancel]
  rw [hplace, hs, List.drop_left]

theorem place_add_byteCount (h : cs <:+ chars s) : place s cs + byteCount cs = s.length := by
  have hlength := congrArg List.length (drop_place h)
  rw [List.length_drop, ← byteCount_eq] at hlength
  rw [place] at *
  omega

theorem place_nil : place s [] = s.length := rfl

theorem place_chars : place s (chars s) = 0 := by
  rw [place, byteCount_eq, flatMap_decodeFrom, Nat.sub_self]

theorem place_append {ds : List Char} (h : ds ++ cs <:+ chars s) :
    place s cs = place s (ds ++ cs) + (ds.flatMap encodeChar).length := by
  have happend := place_add_byteCount h
  have hright := place_add_byteCount ((List.suffix_append ds cs).trans h)
  rw [byteCount_eq, List.flatMap_append, List.length_append, ← byteCount_eq cs] at happend
  omega

theorem place_cons_of_lt (h : c :: cs <:+ chars s) (hc : c.toNat < 0x80) :
    place s cs = place s (c :: cs) + 1 := by
  have h' : [c] ++ cs <:+ chars s := h
  rw [place_append h', List.flatMap_singleton, encodeChar_of_lt hc]
  rfl

/-- The bytes at a position and behind it. -/
theorem get_place (h : cs <:+ chars s) {i : ℕ} {b : UInt8}
    (hb : (cs.flatMap encodeChar)[i]? = some b) : get s (place s cs + i : ℕ) = pure b := by
  refine get_of_getElem? ?_
  rwa [← drop_place h, List.getElem?_drop] at hb

/-- The byte at the position of a character is its first. -/
theorem exists_get (h : c :: cs <:+ chars s) : ∃ b bs, encodeChar c = b :: bs ∧
    ofByte b = firstByte c ∧ get s (place s (c :: cs)) = pure b := by
  obtain ⟨b, bs, hencode, hfirst⟩ := exists_encodeChar c
  refine ⟨b, bs, hencode, hfirst, get_place h (i := 0) ?_⟩
  rw [List.flatMap_cons, hencode]
  rfl

theorem place_lt (h : c :: cs <:+ chars s) : place s (c :: cs) < s.length := by
  have hplace := place_add_byteCount h
  have hpos : 0 < (encodeChar c).length := List.length_pos_iff.mpr (encodeChar_ne_nil c)
  rw [byteCount_eq, List.flatMap_cons, List.length_append] at hplace
  omega

/-- The byte at the next position is the first of the next character. -/
theorem exists_get_succ {a : Char} (ha : a.toNat < 0x80) (h : a :: c :: cs <:+ chars s) :
    ∃ b bs, encodeChar c = b :: bs ∧ ofByte b = firstByte c ∧
      get s (place s (a :: c :: cs) + 1 : ℤ) = pure b ∧
      place s (a :: c :: cs) + 1 < s.length := by
  have htail := (List.suffix_cons a (c :: cs)).trans h
  have hplace := place_cons_of_lt h ha
  obtain ⟨b, bs, hencode, hb, hget⟩ := exists_get htail
  have hlt := place_lt htail
  rw [hplace] at hget hlt
  exact ⟨b, bs, hencode, hb, hget, hlt⟩

theorem slice_append {ds : List Char} (h : ds ++ cs <:+ chars s) :
    slice s (place s (ds ++ cs)) (place s cs) = pure (ds.flatMap encodeChar) := by
  have hplace := place_append h
  have hle : place s cs ≤ s.length := Nat.sub_le ..
  rw [slice_of_le (by omega) hle, List.drop_take, drop_place h, List.flatMap_append,
    hplace, Nat.add_sub_cancel_left, List.take_left]

/-! ### Loops over blanks and words -/

theorem lt_of_isGap {c : Char} (h : Tag.isGap c = true) : c.toNat < 0x80 := by
  simp only [Tag.isGap, Bool.or_eq_true, beq_iff_eq] at h
  rcases h with ((rfl | rfl) | rfl) | rfl <;> decide

theorem lt_of_isBareChar {c : Char} (h : isBareChar c = true) : c.toNat < 0x80 := by
  have hle {d : Char} (hd : d.toNat < 0x80) (h : c ≤ d) : c.toNat < 0x80 :=
    (UInt32.le_iff_toNat_le.mp h).trans_lt hd
  simp only [isBareChar, Bool.or_eq_true, Bool.and_eq_true, decide_eq_true_eq, beq_iff_eq] at h
  rcases h with ((((((h | h) | h) | rfl) | rfl) | rfl) | rfl)
  · exact hle (by decide) h.2
  · exact hle (by decide) h.2
  · exact hle (by decide) h.2
  all_goals decide

theorem lt_of_isQuote {c : Char} (h : Tag.isQuote c = true) : c.toNat < 0x80 := by
  simp only [Tag.isQuote, Bool.or_eq_true, beq_iff_eq] at h
  rcases h with rfl | rfl <;> decide

theorem lt_of_isEscapable {c : Char} (h : Tag.isEscapable c = true) : c.toNat < 0x80 := by
  simp only [Tag.isEscapable, Bool.or_eq_true, beq_iff_eq] at h
  rcases h with (rfl | rfl) | rfl <;> decide

/-- A loop over characters below 128 goes from character to character. -/
theorem skipWhile_eq {p : Char → Bool} (hp : ∀ c, p c = true → c.toNat < 0x80)
    (h : cs <:+ chars s) : skipWhile s p (place s cs) = pure (place s (cs.dropWhile p)) := by
  induction cs with
  | nil => rw [skipWhile, place_nil, if_neg (lt_irrefl _), List.dropWhile_nil, place_nil]
  | cons c cs ih =>
    obtain ⟨b, bs, -, hb, hget⟩ := exists_get h
    rw [skipWhile, if_pos (place_lt h), hget, pure_bind, hb, apply_firstByte hp,
      List.dropWhile_cons]
    split_ifs with hc
    · rw [← place_cons_of_lt h (hp c hc), ih ((List.suffix_cons c cs).trans h)]
    · rfl

theorem skipGap_isSuffix (h : cs <:+ chars s) : Tag.skipGap cs <:+ chars s :=
  (List.dropWhile_suffix Tag.isGap).trans h

theorem length_skipGap_le (cs : List Char) : (Tag.skipGap cs).length ≤ cs.length :=
  (List.dropWhile_suffix _).length_le

theorem skipGap_skipGap (cs : List Char) : Tag.skipGap (Tag.skipGap cs) = Tag.skipGap cs :=
  List.dropWhile_idempotent ..

theorem skipSpace_eq (h : cs <:+ chars s) :
    skipSpace s (place s cs) = pure (place s (Tag.skipGap cs)) :=
  skipWhile_eq (fun _ => lt_of_isGap) h

/-- Characters below 128 are their bytes. -/
theorem map_ofByte {w : List Char} (hw : ∀ c ∈ w, c.toNat < 0x80) :
    (w.flatMap encodeChar).map ofByte = w := by
  induction w with
  | nil => rfl
  | cons c w ih =>
    obtain ⟨hc, hw⟩ := List.forall_mem_cons.mp hw
    obtain ⟨b, bs, hencode, hb⟩ := exists_encodeChar c
    rw [firstByte_of_lt hc] at hb
    rw [encodeChar_of_lt hc] at hencode
    obtain ⟨rfl, rfl⟩ := List.cons.inj hencode
    rw [List.flatMap_cons, encodeChar_of_lt hc, List.map_append, ih hw, List.map_singleton, hb]
    rfl

theorem bare_eq (h : cs <:+ chars s) : bare s (place s cs) =
    pure (cs.takeWhile isBareChar, place s (cs.dropWhile isBareChar)) := by
  have hw : ∀ c ∈ cs.takeWhile isBareChar, c.toNat < 0x80 := fun c hc =>
    lt_of_isBareChar (List.all_eq_true.mp List.all_takeWhile c hc)
  have hslice : slice s (place s cs) (place s (cs.dropWhile isBareChar)) =
      pure ((cs.takeWhile isBareChar).flatMap encodeChar) := by
    have hsplit : cs = cs.takeWhile isBareChar ++ cs.dropWhile isBareChar :=
      List.takeWhile_append_dropWhile.symm
    rw [hsplit] at h
    have hslice := slice_append h
    rwa [← hsplit] at hslice
  rw [bare, skipWhile_eq (fun _ => lt_of_isBareChar) h, pure_bind, hslice, pure_bind,
    map_ofByte hw]

/-! ### The byte that comes next -/

/-- The byte that comes next, as it is peeked at. -/
def headByte : List Char → Char
  | [] => '\x00'
  | c :: _ => firstByte c

theorem peek_eq (h : cs <:+ chars s) : peek s (place s cs) = pure (headByte cs) := by
  cases cs with
  | nil => rw [peek, place_nil, if_pos le_rfl, headByte]
  | cons c cs =>
    obtain ⟨b, bs, -, hb, hget⟩ := exists_get h
    rw [peek, if_neg (place_lt h).not_ge, hget, pure_bind, hb, headByte]

/-- A byte below 128 that is peeked at is a character, and the zero byte is none or the end. -/
theorem headByte_eq_iff {a : Char} (ha : 0 < a.toNat ∧ a.toNat < 0x80) :
    headByte cs = a ↔ ∃ rest, cs = a :: rest := by
  cases cs with
  | nil =>
    refine ⟨fun he => absurd ha.1 ?_, nofun⟩
    rw [← he]
    exact Nat.lt_irrefl 0
  | cons c cs =>
    rw [headByte, firstByte_eq_iff ha.2]
    constructor
    · rintro rfl
      exact ⟨cs, rfl⟩
    · rintro ⟨rest, he⟩
      exact (List.cons.inj he).1

/-- A character that is peeked at comes next, and what is left behind it is at the next position. -/
theorem headByte_cases {a : Char} (ha : 0 < a.toNat ∧ a.toNat < 0x80) (h : cs <:+ chars s) :
    (headByte cs = a ∧ ∃ rest, cs = a :: rest ∧ rest <:+ chars s ∧
      place s cs + 1 = place s rest) ∨ headByte cs ≠ a ∧ ∀ rest, cs ≠ a :: rest := by
  by_cases hhead : headByte cs = a
  · obtain ⟨rest, rfl⟩ := (headByte_eq_iff ha).mp hhead
    exact .inl ⟨hhead, rest, rfl, (List.suffix_cons _ _).trans h, (place_cons_of_lt h ha.2).symm⟩
  · exact .inr ⟨hhead, fun rest he => hhead ((headByte_eq_iff ha).mpr ⟨rest, he⟩)⟩

/-! ### Halting where reading stops -/

section

variable {α β : Type}

/-- **Going on as a reader does**: with what it has read, or halting where it stopped. -/
def settle (s : List UInt8) (f : α → β) : Except Stop α → Scan β
  | .ok a => pure (f a)
  | .error e => fail (place s e.rest) e.fault

/-- What was read, and the position of what is left. -/
def placed (s : List UInt8) (r : α × List Char) : α × ℕ :=
  (r.1, place s r.2)

theorem settle_map {γ : Type} (f : β → γ) (g : α → β) (r : Except Stop α) :
    settle s f (r.map g) = settle s (f ∘ g) r := by
  cases r <;> rfl

theorem settle_bind_pure {γ : Type} (f : α → β) (g : β → γ) (r : Except Stop α) :
    (settle s f r >>= fun b => pure (g b)) = settle s (g ∘ f) r := by
  cases r <;> rfl

end

theorem expect_eq {a : Char} (ha : 0 < a.toNat ∧ a.toNat < 0x80) (h : cs <:+ chars s) :
    expect s a (place s cs) = settle s (place s) (Tag.expect a cs) := by
  have hgap := skipGap_isSuffix h
  rw [expect, skipSpace_eq h, pure_bind, peek_eq hgap, pure_bind, Tag.expect]
  rcases headByte_cases ha hgap with ⟨hhead, rest, hrest, -, hplace⟩ | ⟨hhead, hne⟩
  · rw [if_pos hhead, hplace, hrest]
    dsimp only
    rw [if_pos rfl]
    rfl
  · rw [if_neg hhead]
    cases hrest : Tag.skipGap cs with
    | nil => rfl
    | cons d rest =>
      have hd : d ≠ a := fun he => hne rest (he ▸ hrest)
      dsimp only
      rw [if_neg hd]
      rfl

/-! ### Quotes -/

/-- Bytes that are neither a backslash nor the quote are kept. -/
theorem quotedFrom_append {q : Char} {bs : List UInt8}
    (hbs : ∀ b ∈ bs, ofByte b ≠ '\\' ∧ ofByte b ≠ q) {pos : ℕ} {rest : List UInt8}
    (h : s.drop pos = bs ++ rest) (bytes : List UInt8) :
    quotedFrom s q bytes pos = quotedFrom s q (bytes ++ bs) (pos + bs.length) := by
  induction bs generalizing pos bytes with
  | nil => rw [List.append_nil]; rfl
  | cons b bs ih =>
    obtain ⟨⟨hslash, hquote⟩, hbs⟩ := List.forall_mem_cons.mp hbs
    have hget : s[pos]? = some b := by
      have hhead := congrArg List.head? h
      rwa [List.head?_drop] at hhead
    have hlt : pos < s.length := (List.getElem?_eq_some_iff.mp hget).1
    have htail : s.drop (pos + 1) = bs ++ rest := by
      rw [← List.tail_drop, h]
      rfl
    rw [quotedFrom, if_pos hlt, get_of_getElem? hget, pure_bind, if_neg hslash, if_neg hquote,
      ih hbs htail, List.append_assoc, List.singleton_append, List.length_cons]
    congr 1
    omega

/-- No byte of a character is a character below 128 other than itself. -/
theorem ofByte_ne {a : Char} (ha : a.toNat < 0x80) (hc : c ≠ a) :
    ∀ b ∈ encodeChar c, ofByte b ≠ a := by
  intro b hb he
  rcases Nat.lt_or_ge c.toNat 0x80 with hlt | hge
  · have hmap := map_ofByte (w := [c]) (by simpa using hlt)
    rw [List.flatMap_singleton] at hmap
    have hmem := List.mem_map_of_mem (f := ofByte) hb
    rw [hmap, he, List.mem_singleton] at hmem
    exact hc hmem.symm
  · have hle := le_of_mem_encodeChar hge hb
    rw [← toNat_ofByte, he] at hle
    omega

section

variable {q : Char} (bytes : List UInt8)

/-- The quote ends the text. -/
theorem quotedFrom_quote (hq : Tag.isQuote q = true) (h : q :: cs <:+ chars s) :
    quotedFrom s q bytes (place s (q :: cs)) = pure (bytes, place s cs) := by
  have hlt := lt_of_isQuote hq
  obtain ⟨b, bs, -, hb, hget⟩ := exists_get h
  rw [quotedFrom, if_pos (place_lt h), hget, pure_bind, hb, firstByte_of_lt hlt,
    if_neg (Tag.ne_of_isQuote hq).2.2.2.2, if_pos rfl, ← place_cons_of_lt h hlt]

/-- After a backslash it is the next byte that counts. -/
theorem quotedFrom_slash (h : '\\' :: c :: cs <:+ chars s) :
    quotedFrom s q bytes (place s ('\\' :: c :: cs)) =
      if Tag.isEscapable c then quotedFrom s q (bytes ++ encodeChar c) (place s cs)
      else fail (place s ('\\' :: c :: cs)) (.invalidEscape (firstByte c)) := by
  have htail := (List.suffix_cons _ _).trans h
  obtain ⟨b, bs, -, hb, hget⟩ := exists_get h
  obtain ⟨d, ds, hencode, hd, hnext, hmore⟩ := exists_get_succ (by decide) h
  rw [quotedFrom, if_pos (place_lt h), hget, pure_bind, hb, if_pos (firstByte_of_lt (by decide)),
    if_neg hmore.not_ge, hnext, pure_bind, hd, apply_firstByte fun _ => lt_of_isEscapable]
  by_cases hc : Tag.isEscapable c = true
  · have hlt := lt_of_isEscapable hc
    have hchar : encodeChar c = [d] := by
      rw [encodeChar_of_lt hlt] at hencode ⊢
      rw [(List.cons.inj hencode).1]
    rw [if_pos hc, if_pos hc, hchar, place_cons_of_lt htail hlt, place_cons_of_lt h (by decide)]
  · rw [if_neg hc, if_neg hc]

/-- Any other character is kept. -/
theorem quotedFrom_plain (hq : Tag.isQuote q = true) (hslash : c ≠ '\\') (hquote : c ≠ q)
    (h : c :: cs <:+ chars s) : quotedFrom s q bytes (place s (c :: cs)) =
      quotedFrom s q (bytes ++ encodeChar c) (place s cs) := by
  have h' : [c] ++ cs <:+ chars s := h
  have hbs : ∀ b ∈ encodeChar c, ofByte b ≠ '\\' ∧ ofByte b ≠ q := fun b hb =>
    ⟨ofByte_ne (by decide) hslash b hb, ofByte_ne (lt_of_isQuote hq) hquote b hb⟩
  have hplace := place_append h'
  rw [List.flatMap_singleton] at hplace
  rw [quotedFrom_append hbs (drop_place h)]
  exact congrArg _ hplace.symm

theorem quotedFrom_eq (hq : Tag.isQuote q = true) (h : cs <:+ chars s) :
    quotedFrom s q bytes (place s cs) =
      settle s (fun r => (bytes ++ r.1.flatMap encodeChar, place s r.2)) (Tag.readQuoted q cs) := by
  -- one case for each form that what is left can have, and none for a single byte
  fun_induction Tag.readQuoted q cs generalizing bytes with
  | case1 =>
    rw [quotedFrom, place_nil, if_neg (lt_irrefl _)]
    rfl
  | case2 =>
    obtain ⟨b, bs, -, hb, hget⟩ := exists_get h
    have hend : s.length ≤ place s ['\\'] + 1 := (place_cons_of_lt h (by decide)).le
    rw [quotedFrom, if_pos (place_lt h), hget, pure_bind, hb, if_pos (firstByte_of_lt (by decide)),
      if_pos hend]
    rfl
  | case3 c cs hc ih =>
    have hcs := (List.suffix_cons _ _).trans ((List.suffix_cons _ _).trans h)
    rw [quotedFrom_slash bytes h, if_pos hc, ih _ hcs, settle_map]
    simp only [List.append_assoc, Function.comp_def, List.flatMap_cons]
  | case4 c cs hc =>
    rw [quotedFrom_slash bytes h, if_neg hc]
    rfl
  | case5 cs hslash =>
    rw [quotedFrom_quote bytes hq h]
    change _ = pure (bytes ++ [], _)
    rw [List.append_nil]
  | case6 c cs hslash hquote ih =>
    rw [quotedFrom_plain bytes hq hslash hquote h, ih _ ((List.suffix_cons c cs).trans h),
      settle_map]
    simp only [List.append_assoc, Function.comp_def, List.flatMap_cons]

end

/-- What a text between quotes stands for is characters that bytes are decoded into, also behind
others: a backslash stands only before characters below 128. -/
theorem isDecoded_readQuoted {q : Char} {txt rest : List Char}
    (h : Tag.readQuoted q cs = .ok (txt, rest)) {before : List Char}
    (hdecoded : IsDecoded (before ++ cs)) : IsDecoded (before ++ txt) := by
  fun_induction Tag.readQuoted q cs generalizing txt before with
  | case1 => cases h
  | case2 => cases h
  | case3 c cs hc ih =>
    obtain ⟨⟨txt', r⟩, hread, he⟩ := map_eq_ok.mp h
    cases he
    -- the backslash goes, and what stood before it now stands before a character below 128
    have hcs : IsDecoded (c :: cs) := by
      have hslash := hdecoded.of_append_right
      exact (isDecoded_cons.mp hslash).2
    have hjoin := hdecoded.of_append_left.append_cons (lt_of_isEscapable hc) hcs
    rw [List.append_cons] at hjoin ⊢
    exact ih hread hjoin
  | case4 => cases h
  | case5 =>
    cases h
    rw [List.append_nil]
    exact hdecoded.of_append_left
  | case6 c cs hslash hquote ih =>
    obtain ⟨⟨txt', r⟩, hread, he⟩ := map_eq_ok.mp h
    cases he
    rw [List.append_cons] at hdecoded ⊢
    exact ih hread hdecoded

/-- **Quotes are scanned as they are read.** -/
theorem quoted_eq (hc : Tag.isQuote c = true) (h : c :: cs <:+ chars s) :
    quoted s (place s (c :: cs)) =
      settle s (fun r => (String.ofList r.1, place s r.2)) (Tag.readQuoted c cs) := by
  have htail := (List.suffix_cons c cs).trans h
  have hlt := lt_of_isQuote hc
  obtain ⟨b, bs, -, hb, hget⟩ := exists_get h
  rw [quoted, hget, pure_bind, hb, firstByte_of_lt hlt, ← place_cons_of_lt h hlt,
    quotedFrom_eq _ hc htail]
  cases hread : Tag.readQuoted c cs with
  | error e => rfl
  | ok r =>
    have hcs : IsDecoded ([] ++ cs) := isDecoded_of_isSuffix htail
    have htext : IsDecoded r.1 := isDecoded_readQuoted hread hcs
    rw [settle, pure_bind]
    dsimp only
    rw [List.nil_append, htext.decode_eq]
    rfl

/-- No word leaves everything. -/
theorem dropWhile_of_takeWhile {p : Char → Bool} (h : cs.takeWhile p = []) :
    cs.dropWhile p = cs := by
  have hsplit := List.takeWhile_append_dropWhile (p := p) (l := cs)
  rwa [h, List.nil_append] at hsplit

/-- **Names are scanned as they are read.** -/
theorem key_eq (h : cs <:+ chars s) :
    key s (place s cs) = settle s (placed s) (Tag.readKey cs) := by
  rw [key, peek_eq h, pure_bind, Tag.readKey.eq_def]
  cases cs with
  | nil =>
    rw [headByte, if_neg (by decide), bare_eq h]
    rfl
  | cons c cs =>
    rw [headByte, apply_firstByte fun _ => lt_of_isQuote]
    dsimp only
    split_ifs with hc
    · rw [quoted_eq hc h, settle_map]
      rfl
    · rw [bare_eq h, pure_bind, List.span_eq_takeWhile_dropWhile]
      dsimp only
      cases hword : (c :: cs).takeWhile isBareChar with
      | nil =>
        rw [dropWhile_of_takeWhile hword]
        rfl
      | cons d word => rfl

end Statuary.Scan
