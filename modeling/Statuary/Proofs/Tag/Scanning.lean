import Statuary.Proofs.Ends
import Statuary.Proofs.Tag.Derivation
import Statuary.Proofs.Tag.ScanText

/-!
# Scanning is reading

A scan of bytes ends, never goes wrong, and has the result that the readers have for the text of the
bytes (`Statuary.Scan.parse_eq`). So what is known of the readers is known of scans: what is refused
is refused at a place in the bytes, and what is read is a well-formed tree
(`Statuary.Scan.parse_safe`).

A scan and a reader each have a number of steps of their own, and do the same wherever both are
enough (`Statuary.Scan.Follows`). Enough are three for each character that is left and a few more,
one for each of the calls that may follow without a character in between. So a scan comes to an end
because a reader leaves less than it was given.

A scan changes a list or a compound from item to item where a reader puts what it has read before
what comes next. That no edit is refused is part of what the induction carries: the index of the
compound is in step (`Statuary.Table.InStep`), and the items are of the kind that the list has
(`Statuary.Scan.Items`).
-/

namespace Statuary.Scan

open Utf8

variable {s : List UInt8} {cs : List Char} {c : Char}

/-! ### What readers leave -/

section

variable {rest : List Char}

theorem readValue_isSuffix {n : ℕ} {t : Tag} (h : Tag.readValue n cs = .ok (t, rest)) :
    rest <:+ cs := by
  obtain ⟨ds, rfl, -⟩ := (Tag.Grammar.sound n).value h
  exact List.suffix_append ds rest

theorem readKey_isSuffix {name : String} (h : Tag.readKey cs = .ok (name, rest)) :
    rest <:+ cs := by
  obtain ⟨k, rfl, -⟩ := Tag.Grammar.exists_name h
  exact List.suffix_append k rest

theorem expect_isSuffix (h : Tag.expect c cs = .ok rest) :
    rest <:+ cs ∧ rest.length < cs.length := by
  obtain ⟨g, -, rfl⟩ := Tag.Grammar.exists_expect h
  refine ⟨(List.suffix_cons _ _).trans (List.suffix_append g _), ?_⟩
  rw [List.length_append, List.length_cons]
  omega

end

/-! ### Arrays -/

section Array

variable {α : Type} {pick : Tag → Option α} {letter : Char} {gathered : List α → Gathered}

/-- Gathering the elements that `pick` picks from tags. -/
def Gathers (pick : Tag → Option α) (letter : Char) (gathered : List α → Gathered) : Prop :=
  gathered [] = .empty ∧ ∀ as t,
    (gathered as).add letter t = pure ((pick t).map fun a => gathered (as ++ [a]))

theorem gathers_bytes : Gathers Tag.byte? 'B' (⟨·, [], []⟩) := by
  refine ⟨rfl, fun as t => ?_⟩
  cases t <;> rfl

theorem gathers_ints : Gathers Tag.int? 'I' (⟨[], ·, []⟩) := by
  refine ⟨rfl, fun as t => ?_⟩
  cases t <;> rfl

theorem gathers_longs : Gathers Tag.long? 'L' (⟨[], [], ·⟩) := by
  refine ⟨rfl, fun as t => ?_⟩
  cases t <;> rfl

theorem elements_eq (hgathers : Gathers pick letter gathered) {n m : ℕ} (h : cs <:+ chars s)
    (hn : cs.length < n) (hm : cs.length < m) (as : List α) :
    (do let (g, pos) ← elements s letter (gathered as) (place s cs) m
        return (g, ← expect s ']' pos)) =
      settle s (fun r => (gathered (as ++ r.1), place s r.2))
        (Tag.readElements pick letter n cs) := by
  induction n generalizing cs as m with
  | zero => omega
  | succ n ih =>
    obtain ⟨m, rfl⟩ : ∃ k, m = k + 1 := ⟨m - 1, by omega⟩
    have hskip := skipGap_isSuffix h
    rw [elements, skipSpace_eq h, pure_bind, bare_eq hskip, pure_bind, Tag.readElements,
      List.span_eq_takeWhile_dropWhile]
    dsimp only
    -- an element is gathered exactly if the reader picks it
    rw [scalar_eq, pure_bind, hgathers.2, pure_bind]
    cases hpick : pick (Tag.scalar ((Tag.skipGap cs).takeWhile isBareChar)) with
    | none => rfl
    | some a =>
      dsimp only [Option.map_some]
      have hrest := (List.dropWhile_suffix isBareChar).trans hskip
      have hgap := skipGap_isSuffix hrest
      have hle : (Tag.skipGap ((Tag.skipGap cs).dropWhile isBareChar)).length ≤ cs.length :=
        (length_skipGap_le _).trans
          ((List.dropWhile_suffix _).length_le.trans (length_skipGap_le cs))
      rw [skipSpace_eq hrest, pure_bind, peek_eq hgap, pure_bind]
      generalize Tag.skipGap ((Tag.skipGap cs).dropWhile isBareChar) = gs at hgap hle ⊢
      rcases headByte_cases (a := ',') (by decide) hgap with
        ⟨hcomma, more, rfl, hmore, hplace⟩ | ⟨hcomma, hne⟩
      · rw [List.length_cons] at hle
        rw [if_pos hcomma, hplace, ih hmore (by omega) (by omega)]
        change _ = settle s _ (Except.map _ (Tag.readElements pick letter n more))
        rw [settle_map]
        congr 1
        funext r
        simp
      · rw [if_neg hcomma, pure_bind]
        dsimp only
        rw [expect_eq (by decide) hgap]
        split
        · next more => exact absurd rfl (hne more)
        · rw [settle_map]
          cases Tag.expect ']' gs <;> rfl

theorem gather_eq (hgathers : Gathers pick letter gathered) {n m : ℕ} (h : cs <:+ chars s)
    (hn : cs.length < n) (hm : cs.length < m) :
    (do let (g, pos) ← gather s letter (place s cs) m
        return (g, ← expect s ']' pos)) =
      settle s (fun r => (gathered r.1, place s r.2)) (Tag.readArray pick letter n cs) := by
  have hgap := skipGap_isSuffix h
  -- the scan has passed over the blanks before the first element, and the reader has not
  have helements : Tag.readElements pick letter n (Tag.skipGap cs) =
      Tag.readElements pick letter n cs := by
    cases n with
    | zero => omega
    | succ n => rw [Tag.readElements, Tag.readElements, skipGap_skipGap]
  have hle := length_skipGap_le cs
  rw [gather, skipSpace_eq h, pure_bind, peek_eq hgap, pure_bind, Tag.readArray]
  rcases headByte_cases (a := ']') (by decide) hgap with ⟨hclose, more, hmore, -⟩ | ⟨hclose, hne⟩
  · rw [if_pos hclose, pure_bind]
    dsimp only
    rw [expect_eq (by decide) hgap, Tag.expect, skipGap_skipGap, hmore]
    dsimp only
    rw [if_pos rfl, ← hgathers.1]
    rfl
  · have hscan := elements_eq hgathers hgap (hle.trans_lt hn) (hle.trans_lt hm) []
    rw [if_neg hclose, ← hgathers.1, hscan, helements]
    split
    · next more hmore => exact absurd hmore (hne more)
    · rfl

/-- **Arrays are scanned as they are read.** -/
theorem array_eq (hgathers : Gathers pick letter gathered) {wrap : List α → Tag}
    (hwrap : ∀ as, (gathered as).tag letter = wrap as) (hletter : letter.toNat < 0x80) {n m : ℕ}
    (h : letter :: ';' :: cs <:+ chars s) (hn : cs.length < n) (hm : cs.length < m) :
    array s letter (place s (letter :: ';' :: cs)) m =
      settle s (placed s) ((Tag.readArray pick letter n cs).map fun r => (wrap r.1, r.2)) := by
  have hsemi := (List.suffix_cons _ _).trans h
  have hcs := (List.suffix_cons _ _).trans hsemi
  have hplace : place s cs = place s (letter :: ';' :: cs) + 2 := by
    rw [place_cons_of_lt hsemi (by decide), place_cons_of_lt h hletter]
  have hgather := gather_eq hgathers hcs hn hm
  have harray : array s letter (place s (letter :: ';' :: cs)) m =
      (do let (g, pos) ← gather s letter (place s cs) m
          return (g, ← expect s ']' pos)) >>= fun r => pure (r.1.tag letter, r.2) := by
    rw [array, hplace]
    simp
  rw [harray, hgather, settle_bind_pure, settle_map]
  congr 1
  funext r
  rw [Function.comp_apply, hwrap]
  rfl

end Array

/-- The letter of an array, in characters. -/
def arrayLetter : List Char → Option Char
  | letter :: ';' :: _ => if letter ∈ ['B', 'I', 'L'] then some letter else none
  | _ => none

/-- An array begins with one of three letters. -/
theorem arrayLetter_cases (cs : List Char) :
    (∃ rest, cs = 'B' :: ';' :: rest) ∨ (∃ rest, cs = 'I' :: ';' :: rest) ∨
      (∃ rest, cs = 'L' :: ';' :: rest) ∨
      arrayLetter cs = none ∧ ∀ letter ∈ ['B', 'I', 'L'], ∀ rest, cs ≠ letter :: ';' :: rest := by
  by_cases h : ∃ letter ∈ ['B', 'I', 'L'], ∃ rest, cs = letter :: ';' :: rest
  · obtain ⟨letter, hmem, rest, rfl⟩ := h
    simp only [List.mem_cons, List.not_mem_nil, or_false] at hmem
    rcases hmem with rfl | rfl | rfl
    · exact .inl ⟨rest, rfl⟩
    · exact .inr (.inl ⟨rest, rfl⟩)
    · exact .inr (.inr (.inl ⟨rest, rfl⟩))
  · refine .inr (.inr (.inr ⟨?_, fun letter hmem rest he => h ⟨letter, hmem, rest, he⟩⟩))
    rw [arrayLetter.eq_def]
    split
    · next letter rest => exact if_neg fun hmem => h ⟨letter, hmem, rest, rfl⟩
    · rfl

theorem lt_of_mem_letters (h : c ∈ ['B', 'I', 'L']) : c.toNat < 0x80 := by
  simp only [List.mem_cons, List.not_mem_nil, or_false] at h
  rcases h with rfl | rfl | rfl <;> decide

theorem arrayLetter_of_notMem (h : c ∉ ['B', 'I', 'L']) : arrayLetter (c :: cs) = none := by
  cases cs with
  | nil => rfl
  | cons d cs =>
    rw [arrayLetter.eq_def]
    split
    · next he => exact if_neg ((List.cons.inj he).1 ▸ h)
    · rfl

theorem letter?_of_notMem {pos : ℕ} {b : UInt8} (hget : get s pos = pure b)
    (hb : ofByte b ∉ ['B', 'I', 'L']) : letter? s pos = pure none := by
  rw [letter?]
  split_ifs with hmore
  · rw [← Nat.cast_succ, get_of_lt hmore, pure_bind, hget, pure_bind]
    dsimp only
    rw [if_neg hb, ite_self]
  · rfl

theorem letter?_eq (h : cs <:+ chars s) : letter? s (place s cs) = pure (arrayLetter cs) := by
  cases cs with
  | nil =>
    rw [letter?, place_nil, if_neg (by omega)]
    rfl
  | cons c cs =>
    obtain ⟨b, bs, -, hb, hget⟩ := exists_get h
    by_cases hc : c ∈ ['B', 'I', 'L']
    · have hlt := lt_of_mem_letters hc
      cases cs with
      | nil =>
        rw [letter?, ← place_cons_of_lt h hlt, place_nil, if_neg (lt_irrefl _)]
        rfl
      | cons d cs =>
        obtain ⟨b', bs', -, hb', hnext, hmore⟩ := exists_get_succ hlt h
        rw [letter?, if_pos hmore, hnext, pure_bind, hb']
        by_cases hd : d = ';'
        · subst hd
          rw [if_pos (firstByte_of_lt (by decide)), hget, pure_bind, hb, firstByte_of_lt hlt]
          rfl
        · rw [if_neg fun he => hd ((firstByte_eq_iff (by decide)).mp he), arrayLetter]
          exact fun letter rest he => hd (List.cons.inj (List.cons.inj he).2).1
    · -- the next byte may be in the middle of a character here, but does not count
      have hfirst : firstByte c ∈ ['B', 'I', 'L'] ↔ c ∈ ['B', 'I', 'L'] :=
        decide_eq_decide.mp (apply_firstByte (p := fun c => decide (c ∈ ['B', 'I', 'L']))
          (fun _ hd => lt_of_mem_letters (of_decide_eq_true hd)) c)
      rw [letter?_of_notMem hget (hb ▸ mt hfirst.mp hc), arrayLetter_of_notMem hc]

/-! ### Edits -/

/-- The entry that is replaced is there. -/
theorem put_eq {t : Table Tag} (h : t.InStep) (name : String) (v : Tag) :
    put t name v = pure (t.put name v) := by
  rw [put, Table.put]
  cases hi : t.makeIndex.position? name with
  | none => rfl
  | some i =>
    obtain ⟨w, hw⟩ := h.makeIndex.exists_getElem? hi
    exact if_pos (List.getElem?_eq_some_iff.mp hw).1

/-- Items that were read, and their kind. -/
def Items (elem : Kind) (ts : List Tag) (kind? : Option Kind) : Prop :=
  (ts = [] ∧ elem = .untyped ∧ kind? = none) ∨ (ts ≠ [] ∧ kind? = some elem)

variable {elem : Kind} {ts : List Tag} {kind? : Option Kind}

/-- An item is refused exactly if the reader refuses it. -/
theorem Items.refuses_iff (h : Items elem ts kind?) (t : Tag) :
    (0 < ts.length ∧ t.kind ≠ elem) ↔ kind?.any (· ≠ t.kind) = true := by
  rcases h with ⟨rfl, rfl, rfl⟩ | ⟨hts, rfl⟩
  · rw [Option.any_none]
    exact iff_of_false (fun h => lt_irrefl _ h.1) Bool.false_ne_true
  · rw [Option.any_some, decide_eq_true_eq, ne_comm, and_iff_right (List.length_pos_iff.mpr hts)]

theorem Items.getD_eq (h : Items elem ts kind?) : kind?.getD .untyped = elem := by
  rcases h with ⟨-, rfl, rfl⟩ | ⟨-, rfl⟩ <;> rfl

/-- An item that is not refused has the kind of the items before it. -/
theorem Items.kind_eq (h : Items elem ts kind?) {t : Tag}
    (ht : ¬ (0 < ts.length ∧ t.kind ≠ elem)) : ts = [] ∧ elem = .untyped ∧ kind? = none ∨
      ts ≠ [] ∧ elem = t.kind ∧ kind? = some t.kind := by
  refine h.imp_right fun ⟨hts, hkind⟩ => ?_
  have heq : t.kind = elem := not_not.mp fun hne => ht ⟨List.length_pos_iff.mpr hts, hne⟩
  exact ⟨hts, heq.symm, heq ▸ hkind⟩

/-- **An item that is not refused is appended.** -/
theorem Items.append_eq (h : Items elem ts kind?) {t : Tag}
    (ht : ¬ (0 < ts.length ∧ t.kind ≠ elem)) : append elem ts t = pure (t.kind, ts ++ [t]) := by
  have helem : Tag.elemFor elem ts t = t.kind := by
    rcases h.kind_eq ht with ⟨rfl, rfl, -⟩ | ⟨hts, rfl, -⟩
    · rfl
    · rw [Tag.elemFor, if_neg (by simp [hts])]
  rw [append, helem]
  exact if_pos rfl

theorem Items.getD_kind (h : Items elem ts kind?) {t : Tag}
    (ht : ¬ (0 < ts.length ∧ t.kind ≠ elem)) : kind?.getD t.kind = t.kind := by
  rcases h.kind_eq ht with ⟨-, -, rfl⟩ | ⟨-, -, rfl⟩ <;> rfl

/-! ### Values -/

/-- Blanks before the first entry are passed over. -/
theorem readEntries_skipGap {n : ℕ} (hn : 0 < n) (cs : List Char) :
    Tag.readEntries n (Tag.skipGap cs) = Tag.readEntries n cs := by
  obtain ⟨n, rfl⟩ := Nat.exists_eq_succ_of_ne_zero hn.ne'
  rw [Tag.readEntries, Tag.readEntries, skipGap_skipGap]

section

variable {α β : Type} {close : Char} {fault : SyntaxFault} {g : ℕ → Scan β} {done : ℕ → β}
  {f : α → β} {r : Except Stop α}

/-- What follows a part is a comma and more of them, or what closes the whole. -/
theorem next_eq (hclose : 0 < close.toNat ∧ close.toNat < 0x80) (h : cs <:+ chars s)
    (hcomma : ∀ more, Tag.skipGap cs = ',' :: more → more <:+ chars s →
      g (place s more) = settle s f r)
    (hend : ∀ more, Tag.skipGap cs = close :: more → pure (done (place s more)) = settle s f r)
    (hother : (∀ more, Tag.skipGap cs ≠ ',' :: more) → (∀ more, Tag.skipGap cs ≠ close :: more) →
      fail (place s (Tag.skipGap cs)) fault = settle s f r) :
    (do let pos ← skipSpace s (place s cs)
        let b ← peek s pos
        if b = ',' then g (pos + 1)
        else if b = close then return done (pos + 1)
        else fail pos fault) = settle s f r := by
  have hgap := skipGap_isSuffix h
  rw [skipSpace_eq h, pure_bind, peek_eq hgap, pure_bind]
  rcases headByte_cases (a := ',') (by decide) hgap with
    ⟨hhead, more, hcs, hmore, hplace⟩ | ⟨hhead, hne⟩
  · rw [if_pos hhead, hplace]
    exact hcomma more hcs hmore
  rw [if_neg hhead]
  rcases headByte_cases hclose hgap with ⟨hhead, more, hcs, -, hplace⟩ | ⟨hhead, hne'⟩
  · rw [if_pos hhead, hplace]
    exact hend more hcs
  · rw [if_neg hhead]
    exact hother hne hne'

end

/-- What scans find with any steps that are enough, where the readers have `n` steps left and that
is enough. -/
structure Follows (s : List UInt8) (n : ℕ) : Prop where
  value : ∀ {cs m}, cs <:+ chars s → 3 * cs.length + 1 ≤ n → 3 * cs.length + 1 ≤ m →
    value s (place s cs) m = settle s (placed s) (Tag.readValue n cs)
  compound : ∀ {cs m}, '{' :: cs <:+ chars s → 3 * cs.length + 3 ≤ n → 3 * cs.length + 3 ≤ m →
    compound s (place s ('{' :: cs)) m = settle s (placed s) (Tag.readCompound n cs)
  entries : ∀ {cs m} {t : Table Tag}, cs <:+ chars s → 3 * cs.length + 2 ≤ n →
    3 * cs.length + 2 ≤ m → t.InStep → entries s t (place s cs) m =
      settle s (fun r => (.compound (r.1.foldl (fun m e => Assoc.put e.1 e.2 m) t.entries),
        place s r.2)) (Tag.readEntries n cs)
  list : ∀ {cs m}, '[' :: cs <:+ chars s → 3 * cs.length + 3 ≤ n → 3 * cs.length + 3 ≤ m →
    list s (place s ('[' :: cs)) m = settle s (placed s) (Tag.readBracket n cs)
  items : ∀ {cs m elem ts kind?}, cs <:+ chars s → 3 * cs.length + 2 ≤ n →
    3 * cs.length + 2 ≤ m → Items elem ts kind? → items s elem ts (place s cs) m =
      settle s (fun r => (.list (kind?.getD ((r.1.head?.map Tag.kind).getD .untyped)) (ts ++ r.1),
        place s r.2)) (Tag.readItems n kind? cs)

theorem follows_zero : Follows s 0 where
  value _ hn _ := by omega
  compound _ hn _ := by omega
  entries _ hn _ := by omega
  list _ hn _ := by omega
  items _ hn _ := by omega

section Succ

variable {n m : ℕ} (ih : Follows s n)

include ih

theorem Follows.value_succ (h : cs <:+ chars s) (hn : 3 * cs.length + 1 ≤ n + 1)
    (hm : 3 * cs.length + 1 ≤ m) :
    Scan.value s (place s cs) m = settle s (placed s) (Tag.readValue (n + 1) cs) := by
  obtain ⟨m, rfl⟩ : ∃ k, m = k + 1 := ⟨m - 1, by omega⟩
  have hgap := skipGap_isSuffix h
  have hle := length_skipGap_le cs
  rw [Scan.value, skipSpace_eq h, pure_bind, peek_eq hgap, pure_bind, Tag.readValue]
  generalize Tag.skipGap cs = gs at hgap hle ⊢
  cases gs with
  | nil => rfl
  | cons c gs =>
    rw [List.length_cons] at hle
    dsimp only
    simp only [headByte, firstByte_eq_iff (show ('\x00' : Char).toNat < 0x80 by decide),
      firstByte_eq_iff (show ('{' : Char).toNat < 0x80 by decide),
      firstByte_eq_iff (show ('[' : Char).toNat < 0x80 by decide),
      apply_firstByte fun _ => lt_of_isQuote]
    by_cases hbrace : c = '{'
    · subst hbrace
      rw [if_neg (by decide), if_pos rfl, if_pos rfl]
      exact ih.compound hgap (by omega) (by omega)
    by_cases hbracket : c = '['
    · subst hbracket
      rw [if_neg (by decide), if_neg hbrace, if_pos rfl, if_neg hbrace, if_pos rfl]
      exact ih.list hgap (by omega) (by omega)
    by_cases hquote : Tag.isQuote c = true
    · -- a scan asks for the zero byte first, and a reader only where no quote is
      have hzero : c ≠ '\x00' := by
        rintro rfl
        cases hquote
      rw [if_neg hzero, if_neg hbrace, if_neg hbracket, if_pos hquote, if_neg hbrace,
        if_neg hbracket, if_pos hquote, quoted_eq hquote hgap, settle_map]
      exact settle_bind_pure ..
    rw [if_neg hbrace, if_neg hbracket, if_neg hquote, if_neg hbrace, if_neg hbracket,
      if_neg hquote]
    by_cases hzero : c = '\x00'
    · rw [if_pos hzero, if_pos hzero]
      rfl
    rw [if_neg hzero, if_neg hzero, bare_eq hgap, pure_bind, List.span_eq_takeWhile_dropWhile]
    cases hword : (c :: gs).takeWhile isBareChar with
    | nil => rfl
    | cons d word =>
      dsimp only
      rw [if_neg (List.cons_ne_nil _ _), scalar_eq, pure_bind]
      rfl

theorem Follows.compound_succ (h : '{' :: cs <:+ chars s) (hn : 3 * cs.length + 3 ≤ n + 1)
    (hm : 3 * cs.length + 3 ≤ m) : Scan.compound s (place s ('{' :: cs)) m =
      settle s (placed s) (Tag.readCompound (n + 1) cs) := by
  obtain ⟨m, rfl⟩ : ∃ k, m = k + 1 := ⟨m - 1, by omega⟩
  have hcs := (List.suffix_cons _ _).trans h
  have hgap := skipGap_isSuffix hcs
  have hle := length_skipGap_le cs
  rw [Scan.compound, ← place_cons_of_lt h (by decide), skipSpace_eq hcs, pure_bind, peek_eq hgap,
    pure_bind, Tag.readCompound]
  rcases headByte_cases (a := '}') (by decide) hgap with
    ⟨hclose, more, hmore, -, hplace⟩ | ⟨hclose, hne⟩
  · rw [if_pos hclose, hplace, hmore]
    rfl
  · rw [if_neg hclose, ih.entries hgap (by omega) (by omega) (Table.inStep_empty true),
      readEntries_skipGap (by omega)]
    split
    · next more hmore => exact absurd hmore (hne more)
    · rw [settle_map]
      rfl

theorem Follows.entries_succ {t : Table Tag} (h : cs <:+ chars s)
    (hn : 3 * cs.length + 2 ≤ n + 1) (hm : 3 * cs.length + 2 ≤ m) (ht : t.InStep) :
    Scan.entries s t (place s cs) m =
      settle s (fun r => (.compound (r.1.foldl (fun m e => Assoc.put e.1 e.2 m) t.entries),
        place s r.2)) (Tag.readEntries (n + 1) cs) := by
  obtain ⟨m, rfl⟩ : ∃ k, m = k + 1 := ⟨m - 1, by omega⟩
  have hgap := skipGap_isSuffix h
  have hle := length_skipGap_le cs
  rw [Scan.entries, skipSpace_eq h, pure_bind, key_eq hgap, Tag.readEntries]
  cases hkey : Tag.readKey (Tag.skipGap cs) with
  | error e => rfl
  | ok r =>
    obtain ⟨name, cs₁⟩ := r
    have hkey := readKey_isSuffix hkey
    have h₁ := hkey.trans hgap
    have hle₁ := hkey.length_le
    rw [settle, pure_bind]
    dsimp only [placed]
    rw [expect_eq (by decide) h₁, ok_bind]
    dsimp only
    cases hcolon : Tag.expect ':' cs₁ with
    | error e => rfl
    | ok cs₂ =>
      obtain ⟨hcolon, hlt⟩ := expect_isSuffix hcolon
      have h₂ := hcolon.trans h₁
      rw [settle, pure_bind, ih.value h₂ (by omega) (by omega), ok_bind]
      cases hvalue : Tag.readValue n cs₂ with
      | error e => rfl
      | ok r =>
        obtain ⟨v, cs₃⟩ := r
        have hvalue := readValue_isSuffix hvalue
        have hle₃ := hvalue.length_le
        have hskip := length_skipGap_le cs₃
        rw [settle, pure_bind, ok_bind]
        dsimp only [placed]
        -- the entry is put before what follows is scanned, and read before it is put
        rw [put_eq ht, pure_bind]
        refine next_eq (g := fun pos => Scan.entries s (t.put name v) pos m) (by decide)
          (hvalue.trans h₂) (fun more hmore hsuffix => ?_) (fun more hmore => ?_)
          (fun hcomma hclose => ?_)
        · rw [hmore, List.length_cons] at hskip
          rw [hmore, ih.entries hsuffix (by omega) (by omega) (ht.put name v), ht.entries_put]
          change _ = settle s _ (Except.map _ (Tag.readEntries n more))
          rw [settle_map]
          rfl
        · rw [hmore, ht.entries_put]
          rfl
        · split
          · next more hmore => exact absurd hmore (hcomma more)
          · next more hmore => exact absurd hmore (hclose more)
          · rfl

theorem Follows.list_succ (h : '[' :: cs <:+ chars s) (hn : 3 * cs.length + 3 ≤ n + 1)
    (hm : 3 * cs.length + 3 ≤ m) :
    Scan.list s (place s ('[' :: cs)) m = settle s (placed s) (Tag.readBracket (n + 1) cs) := by
  obtain ⟨m, rfl⟩ : ∃ k, m = k + 1 := ⟨m - 1, by omega⟩
  have hcs := (List.suffix_cons _ _).trans h
  rw [Scan.list, ← place_cons_of_lt h (by decide), letter?_eq hcs, pure_bind]
  rcases arrayLetter_cases cs with ⟨rest, rfl⟩ | ⟨rest, rfl⟩ | ⟨rest, rfl⟩ | ⟨hnone, hother⟩
  · simp only [List.length_cons] at hn hm
    exact array_eq gathers_bytes (fun _ => rfl) (by decide) hcs (by omega) (by omega)
  · simp only [List.length_cons] at hn hm
    exact array_eq gathers_ints (fun _ => rfl) (by decide) hcs (by omega) (by omega)
  · simp only [List.length_cons] at hn hm
    exact array_eq gathers_longs (fun _ => rfl) (by decide) hcs (by omega) (by omega)
  · simp only [List.forall_mem_cons] at hother
    have hgap := skipGap_isSuffix hcs
    have hle := length_skipGap_le cs
    rw [hnone]
    dsimp only
    rw [skipSpace_eq hcs, pure_bind, peek_eq hgap, pure_bind]
    rcases headByte_cases (a := ']') (by decide) hgap with
      ⟨hclose, more, hmore, -, hplace⟩ | ⟨hclose, hne⟩
    · rw [if_pos hclose, hplace, Tag.readBracket, hmore]
      · rfl
      · exact hother.1
      · exact hother.2.1
      · exact hother.2.2.1
    · rw [if_neg hclose, ih.items hgap (by omega) (by omega) (.inl ⟨rfl, rfl, rfl⟩),
        Tag.readBracket_list hother.1 hother.2.1 hother.2.2.1 hne, settle_map]
      rfl

theorem Follows.items_succ (h : cs <:+ chars s) (hn : 3 * cs.length + 2 ≤ n + 1)
    (hm : 3 * cs.length + 2 ≤ m) (hitems : Items elem ts kind?) :
    Scan.items s elem ts (place s cs) m =
      settle s (fun r => (.list (kind?.getD ((r.1.head?.map Tag.kind).getD .untyped)) (ts ++ r.1),
        place s r.2)) (Tag.readItems (n + 1) kind? cs) := by
  obtain ⟨m, rfl⟩ : ∃ k, m = k + 1 := ⟨m - 1, by omega⟩
  rw [Scan.items, ih.value h (by omega) (by omega), Tag.readItems]
  cases hvalue : Tag.readValue n cs with
  | error e => rfl
  | ok r =>
    obtain ⟨t, rest⟩ := r
    have hvalue := readValue_isSuffix hvalue
    have hle := hvalue.length_le
    have hskip := length_skipGap_le rest
    rw [settle, pure_bind, ok_bind]
    dsimp only [placed]
    by_cases hmixed : 0 < ts.length ∧ t.kind ≠ elem
    · rw [if_pos hmixed, if_pos ((hitems.refuses_iff t).mp hmixed), hitems.getD_eq]
      rfl
    rw [if_neg hmixed, if_neg (mt (hitems.refuses_iff t).mpr hmixed), hitems.append_eq hmixed,
      pure_bind]
    dsimp only
    -- the first item has decided which kind there is, and this one is of that kind
    have hitems' : Items t.kind (ts ++ [t]) (some t.kind) := .inr ⟨by simp, rfl⟩
    have hkind (ts' : List Tag) :
        kind?.getD (((t :: ts').head?.map Tag.kind).getD .untyped) = t.kind :=
      hitems.getD_kind hmixed
    refine next_eq (g := fun pos => Scan.items s t.kind (ts ++ [t]) pos m) (by decide)
      (hvalue.trans h) (fun more hmore hsuffix => ?_) (fun more hmore => ?_)
      (fun hcomma hclose => ?_)
    · rw [hmore, List.length_cons] at hskip
      rw [hmore, ih.items hsuffix (by omega) (by omega) hitems']
      change _ = settle s _ (Except.map _ (Tag.readItems n (some t.kind) more))
      rw [settle_map]
      congr 1
      funext r
      rw [Function.comp_apply, hkind, List.append_assoc]
      rfl
    · rw [hmore, ← hkind []]
      rfl
    · split
      · next more hmore => exact absurd hmore (hcomma more)
      · next more hmore => exact absurd hmore (hclose more)
      · rfl

end Succ

theorem follows (s : List UInt8) (n : ℕ) : Follows s n := by
  induction n with
  | zero => exact follows_zero
  | succ n ih =>
    exact ⟨ih.value_succ, ih.compound_succ, ih.entries_succ, ih.list_succ, ih.items_succ⟩

/-- **Scanning is reading**, with as many steps as readers have or more. -/
theorem parse_eq {n : ℕ} (hn : Tag.steps (chars s) ≤ n) :
    parse s n = match Tag.parse (decode s) with
    | .ok t => pure t
    | .error e => throw (.refused e) := by
  have hall : chars s <:+ chars s := List.suffix_refl _
  have hsteps : 3 * (chars s).length + 1 ≤ Tag.steps (chars s) := by
    rw [Tag.steps]
    omega
  have hvalue := (follows s (Tag.steps (chars s))).value hall hsteps (hsteps.trans hn)
  rw [place_chars] at hvalue
  have hlength : byteCount (chars s) = s.length := by
    rw [byteCount_eq, flatMap_decodeFrom]
  rw [parse, hvalue, Tag.parse, decode, String.toList_ofList, Tag.readAll]
  have hfail (e : Stop) : (fail (place s e.rest) e.fault : Scan Tag) =
      throw (.refused (Tag.Stop.toError (chars s) e)) := by
    rw [Tag.Stop.toError, hlength]
    rfl
  cases hread : Tag.readValue (Tag.steps (chars s)) (chars s) with
  | error e => exact hfail e
  | ok r =>
    obtain ⟨t, rest⟩ := r
    have hrest := readValue_isSuffix hread
    have hgap := skipGap_isSuffix hrest
    rw [settle, pure_bind, ok_bind]
    dsimp only [placed]
    rw [skipSpace_eq hrest, pure_bind]
    cases hend : Tag.skipGap rest with
    | nil =>
      rw [place_nil, if_neg (lt_irrefl _)]
      rfl
    | cons c more =>
      rw [hend] at hgap
      rw [if_pos (place_lt hgap)]
      exact hfail ⟨c :: more, .trailingData⟩

/-- What is refused is refused at a place in the bytes. -/
theorem offset_le_of_parse {e : SyntaxError} (h : Tag.parse (decode s) = .error e) :
    e.offset ≤ s.length := by
  have hlength : byteCount (decode s).toList = s.length := by
    rw [decode, String.toList_ofList, byteCount_eq, flatMap_decodeFrom]
  rw [Tag.parse] at h
  cases hread : Tag.readAll (decode s).toList with
  | error stop =>
    rw [hread] at h
    cases h
    exact (Nat.sub_le _ _).trans hlength.le
  | ok t =>
    rw [hread] at h
    cases h

/-- **Scanning is safe.** Whatever the bytes are, a scan of them comes to an end and never goes
wrong. Either they are refused, at a position that is none behind their end, or a tree is read, and
then the tree is well formed, its empty lists are of no kind, and both of its texts are read as the
same tree again. The readers of texts refuse and read the same. -/
theorem parse_safe (s : List UInt8) :
    (∃ e, Ends (parse s) (.error (.refused e)) ∧ Tag.parse (decode s) = .error e ∧
      e.offset ≤ s.length) ∨
    ∃ t, Ends (parse s) (.ok t) ∧ Tag.parse (decode s) = .ok t ∧ t.WellRead ∧
      ∀ l, ∃ u, Tag.parse (t.render l) = .ok u ∧ t.same u = true := by
  cases hparse : Tag.parse (decode s) with
  | error e =>
    refine .inl ⟨e, ⟨Tag.steps (chars s), fun n hn => ?_⟩, rfl, offset_le_of_parse hparse⟩
    rw [parse_eq hn, hparse]
    rfl
  | ok t =>
    have ht := Tag.wellRead_of_parse hparse
    obtain ⟨u, hread, hsame⟩ := Tag.exists_same_of_isWellFormed t ht.isWellFormed
    refine .inr ⟨t, ⟨Tag.steps (chars s), fun n hn => ?_⟩, rfl, ht, fun l =>
      ⟨u, eq_ok_of_toOption ((Tag.parse_render l t).trans hread), hsame⟩⟩
    rw [parse_eq hn, hparse]
    rfl

end Statuary.Scan
