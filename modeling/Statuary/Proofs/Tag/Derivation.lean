import Statuary.Proofs.Tag.Grammar
import Statuary.Proofs.Tag.Parsed

/-!
# Reading is deriving

A text is read as a tree exactly if the grammar of `Statuary.Proofs.Tag.Grammar` derives it, with
that tree (`Statuary.Tag.parse_iff_derives`). One direction follows the readers with the number of
steps they have left (`Statuary.Tag.Grammar.Sound`); the other one is the reading of derivations.
Texts stand for bytes, also for such that are no characters (`Statuary.Utf8`), so no document is left
out.

**No text has two derivations.** This needs no second analysis of texts: a phrase is read as what it
stands for *and up to its end*, so of two phrases at the head of one text neither can be longer
(`Statuary.Tag.Reads.unique`). What is left is that one phrase is put together in one way, and there
its first character decides.
-/

namespace Statuary.Tag.Grammar

/-! ### What is read is derived -/

theorem exists_quoting {q : Char} {cs s rest : List Char} (h : readQuoted q cs = .ok (s, rest)) :
    ∃ ds, cs = ds ++ q :: rest ∧ Nonempty (Quoting q ds s) := by
  fun_induction readQuoted q cs generalizing s with
  | case1 => cases h
  | case2 => cases h
  | case3 c cs hc ih =>
    obtain ⟨⟨s', r⟩, hread, he⟩ := map_eq_ok.mp h
    cases he
    obtain ⟨ds, rfl, ⟨d⟩⟩ := ih hread
    exact ⟨'\\' :: c :: ds, rfl, ⟨.escaped hc d⟩⟩
  | case4 => cases h
  | case5 cs hslash =>
    cases h
    exact ⟨[], rfl, ⟨.nil⟩⟩
  | case6 c cs hslash hquote ih =>
    obtain ⟨⟨s', r⟩, hread, he⟩ := map_eq_ok.mp h
    cases he
    obtain ⟨ds, rfl, ⟨d⟩⟩ := ih hread
    exact ⟨c :: ds, rfl, ⟨.plain hquote hslash d⟩⟩

/-- A word that was taken from a text. -/
theorem exists_word {cs w rest : List Char} (h : cs.span isBareChar = (w, rest)) (hne : w ≠ []) :
    cs = w ++ rest ∧ IsWord w := by
  rw [List.span_eq_takeWhile_dropWhile, Prod.mk.injEq] at h
  obtain ⟨rfl, rfl⟩ := h
  exact ⟨List.takeWhile_append_dropWhile.symm,
    hne, fun c hc => List.all_eq_true.mp List.all_takeWhile c hc⟩

theorem exists_quoted {c : Char} {cs s rest : List Char} (hc : isQuote c = true)
    (h : readQuoted c cs = .ok (s, rest)) :
    ∃ ds, c :: cs = ds ++ rest ∧ Nonempty (Quoted ds s) := by
  obtain ⟨ds, rfl, ⟨d⟩⟩ := exists_quoting h
  exact ⟨c :: (ds ++ [c]), by simp, ⟨.mk hc d⟩⟩

theorem exists_name {cs rest : List Char} {name : String} (h : readKey cs = .ok (name, rest)) :
    ∃ ds, cs = ds ++ rest ∧ Nonempty (Name ds name) := by
  rw [readKey.eq_def] at h
  split at h
  · cases h
  · split_ifs at h with hc
    · obtain ⟨⟨s, r⟩, hread, he⟩ := map_eq_ok.mp h
      cases he
      obtain ⟨ds, hds, ⟨d⟩⟩ := exists_quoted hc hread
      exact ⟨ds, hds, ⟨.quoted d⟩⟩
    · split at h
      · cases h
      · rename_i hne hspan
        cases h
        obtain ⟨hcs, hw⟩ := exists_word hspan hne
        exact ⟨_, hcs, ⟨.word hw⟩⟩

theorem exists_expect {c : Char} {cs rest : List Char} (h : expect c cs = .ok rest) :
    ∃ g, IsGap g ∧ cs = g ++ c :: rest := by
  obtain ⟨g, hg, hcs⟩ := exists_gap cs
  rw [expect] at h
  split at h
  · cases h
  · rename_i hskip
    split_ifs at h with hd
    cases h
    exact ⟨g, hg, by rw [hcs, hskip, hd]⟩

section Array

variable {α : Type} {mk : α → Tag} {pick : Tag → Option α}

theorem exists_elements (hpick : ∀ t a, pick t = some a ↔ t = mk a) {letter : Char} {n : ℕ}
    {cs rest : List Char} {as : List α} (hnil : ∀ a, mk a ≠ scalar [])
    (h : readElements pick letter n cs = .ok (as, rest)) :
    ∃ ds, cs = ds ++ ']' :: rest ∧ Nonempty (Elements mk ds as) := by
  induction n generalizing cs as with
  | zero => cases h
  | succ n ih =>
    obtain ⟨g, hg, hcs⟩ := exists_gap cs
    rw [readElements] at h
    obtain ⟨w, ds, hspan⟩ : ∃ w ds, (skipGap cs).span isBareChar = (w, ds) := ⟨_, _, rfl⟩
    simp only [hspan] at h
    split at h
    · cases h
    · rename_i a ha
      have hscalar : scalar w = mk a := (hpick _ _).mp ha
      have hne : w ≠ [] := by
        rintro rfl
        exact hnil a hscalar.symm
      obtain ⟨hw, hword⟩ := exists_word hspan hne
      obtain ⟨g', hg', hds⟩ := exists_gap ds
      split at h
      · rename_i es hskip
        obtain ⟨⟨as', r⟩, hread, he⟩ := map_eq_ok.mp h
        cases he
        obtain ⟨fs, hfs, ⟨d⟩⟩ := ih hread
        refine ⟨g ++ (w ++ (g' ++ ',' :: fs)), ?_, ⟨.cons hg hword hscalar hg' d⟩⟩
        rw [hcs, hw, hds, hskip, hfs]
        simp
      · obtain ⟨r, hread, he⟩ := map_eq_ok.mp h
        cases he
        obtain ⟨g'', hg'', hskip⟩ := exists_expect hread
        have hgap : IsGap (g' ++ g'') := fun c hc => (List.mem_append.mp hc).elim (hg' c) (hg'' c)
        refine ⟨g ++ (w ++ (g' ++ g'')), ?_, ⟨.one hg hword hscalar hgap⟩⟩
        rw [hcs, hw, hds, hskip]
        simp

theorem exists_array (hpick : ∀ t a, pick t = some a ↔ t = mk a) {letter : Char} {n : ℕ}
    {cs rest : List Char} {as : List α} (hnil : ∀ a, mk a ≠ scalar [])
    (h : readArray pick letter n cs = .ok (as, rest)) :
    ∃ ds, cs = ds ++ ']' :: rest ∧ Nonempty (Array mk ds as) := by
  rw [readArray] at h
  split at h
  · rename_i hskip
    cases h
    obtain ⟨g, hg, hcs⟩ := exists_gap cs
    exact ⟨g, by rw [hcs, hskip], ⟨.empty hg⟩⟩
  · obtain ⟨ds, hds, ⟨d⟩⟩ := exists_elements hpick hnil h
    exact ⟨ds, hds, ⟨.elements d⟩⟩

/-- An array that was read, behind its letter. -/
theorem exists_arrayText (hpick : ∀ t a, pick t = some a ↔ t = mk a)
    (hnil : ∀ a, mk a ≠ scalar []) {letter : Char} {wrap : List α → Tag}
    (hwrap : ∀ {ds as}, Array mk ds as → Core ('[' :: letter :: ';' :: (ds ++ [']'])) (wrap as))
    {n : ℕ} {cs rest : List Char} {t : Tag}
    (h : (readArray pick letter n cs).map (fun r => (wrap r.1, r.2)) = .ok (t, rest)) :
    ∃ ds, letter :: ';' :: cs = ds ++ rest ∧ Nonempty (Core ('[' :: ds) t) := by
  obtain ⟨⟨as, r⟩, hread, he⟩ := map_eq_ok.mp h
  cases he
  obtain ⟨ds, rfl, ⟨d⟩⟩ := exists_array hpick hnil hread
  exact ⟨letter :: ';' :: (ds ++ [']']), by simp, ⟨hwrap d⟩⟩

end Array

/-- What the readers give with `n` steps is derived. -/
structure Sound (n : ℕ) : Prop where
  value : ∀ {cs t rest}, readValue n cs = .ok (t, rest) →
    ∃ ds, cs = ds ++ rest ∧ Nonempty (Value ds t)
  compound : ∀ {cs t rest}, readCompound n cs = .ok (t, rest) →
    ∃ ds, cs = ds ++ rest ∧ Nonempty (Core ('{' :: ds) t)
  entries : ∀ {cs es rest}, readEntries n cs = .ok (es, rest) →
    ∃ ds, cs = ds ++ '}' :: rest ∧ Nonempty (EntryList ds es)
  bracket : ∀ {cs t rest}, readBracket n cs = .ok (t, rest) →
    ∃ ds, cs = ds ++ rest ∧ Nonempty (Core ('[' :: ds) t)
  items : ∀ {elem cs ts rest}, readItems n elem cs = .ok (ts, rest) →
    ∃ ds, cs = ds ++ ']' :: rest ∧ Nonempty (ItemList ds ts)

theorem sound_zero : Sound 0 where
  value h := by cases h
  compound h := by cases h
  entries h := by cases h
  bracket h := by cases h
  items h := by cases h

section Succ

variable {n : ℕ} (ih : Sound n) {cs rest : List Char}

include ih

theorem Sound.readValue_succ {t : Tag} (h : readValue (n + 1) cs = .ok (t, rest)) :
    ∃ ds, cs = ds ++ rest ∧ Nonempty (Value ds t) := by
  obtain ⟨g, hg, hcs⟩ := exists_gap cs
  -- it is enough to derive what follows the blanks
  suffices hcore : ∃ ds, skipGap cs = ds ++ rest ∧ Nonempty (Core ds t) by
    obtain ⟨ds, hds, ⟨d⟩⟩ := hcore
    exact ⟨g ++ ds, by rw [hcs, hds, List.append_assoc], ⟨.mk hg d⟩⟩
  rw [readValue] at h
  split at h
  · cases h
  · rename_i c cs' hskip
    rw [hskip]
    split_ifs at h with hbrace hbracket hquote hnul
    · obtain ⟨ds, rfl, d⟩ := ih.compound h
      exact ⟨'{' :: ds, by rw [hbrace, List.cons_append], d⟩
    · obtain ⟨ds, rfl, d⟩ := ih.bracket h
      exact ⟨'[' :: ds, by rw [hbracket, List.cons_append], d⟩
    · obtain ⟨⟨s, r⟩, hread, he⟩ := map_eq_ok.mp h
      cases he
      obtain ⟨ds, hds, ⟨d⟩⟩ := exists_quoted hquote hread
      exact ⟨ds, hds, ⟨.quoted d⟩⟩
    · split at h
      · cases h
      · rename_i hne hspan
        cases h
        obtain ⟨hw, hword⟩ := exists_word hspan hne
        exact ⟨_, hw, ⟨.word hword⟩⟩

theorem Sound.readCompound_succ {t : Tag} (h : readCompound (n + 1) cs = .ok (t, rest)) :
    ∃ ds, cs = ds ++ rest ∧ Nonempty (Core ('{' :: ds) t) := by
  rw [readCompound] at h
  split at h
  · rename_i hskip
    cases h
    obtain ⟨g, hg, hcs⟩ := exists_gap cs
    exact ⟨g ++ ['}'], by rw [hcs, hskip]; simp, ⟨.emptyCompound hg⟩⟩
  · obtain ⟨⟨es, r⟩, hread, he⟩ := map_eq_ok.mp h
    cases he
    obtain ⟨ds, rfl, ⟨d⟩⟩ := ih.entries hread
    exact ⟨ds ++ ['}'], by simp, ⟨.compound d (Assoc.mapOf_ofList es)⟩⟩

theorem Sound.readEntries_succ {es : Entries} (h : readEntries (n + 1) cs = .ok (es, rest)) :
    ∃ ds, cs = ds ++ '}' :: rest ∧ Nonempty (EntryList ds es) := by
  obtain ⟨g, hg, hcs⟩ := exists_gap cs
  rw [readEntries] at h
  obtain ⟨⟨name, cs₁⟩, hname, h⟩ := bind_eq_ok.mp h
  obtain ⟨cs₂, hcolon, h⟩ := bind_eq_ok.mp h
  obtain ⟨⟨t, cs₃⟩, hvalue, h⟩ := bind_eq_ok.mp h
  obtain ⟨k, hk, ⟨key⟩⟩ := exists_name hname
  obtain ⟨g', hg', hcs₁⟩ := exists_expect hcolon
  obtain ⟨v, hv, ⟨value⟩⟩ := ih.value hvalue
  obtain ⟨g'', hg'', hcs₃⟩ := exists_gap cs₃
  have hentry := Entry.mk hg key hg' (.mk value hg'')
  dsimp only at h
  split at h
  · rename_i hskip
    obtain ⟨⟨es', r⟩, hread, he⟩ := map_eq_ok.mp h
    cases he
    obtain ⟨ds, hds, ⟨d⟩⟩ := ih.entries hread
    refine ⟨_ ++ ',' :: ds, ?_, ⟨.cons hentry d⟩⟩
    rw [hcs, hk, hcs₁, hv, hcs₃, hskip, hds]
    simp
  · rename_i hskip
    cases h
    refine ⟨_, ?_, ⟨.one hentry⟩⟩
    rw [hcs, hk, hcs₁, hv, hcs₃, hskip]
    simp
  · cases h

theorem Sound.readBracket_succ {t : Tag} (h : readBracket (n + 1) cs = .ok (t, rest)) :
    ∃ ds, cs = ds ++ rest ∧ Nonempty (Core ('[' :: ds) t) := by
  rw [readBracket.eq_def] at h
  dsimp only at h
  split at h
  · exact exists_arrayText byte?_eq_some (fun _ => nofun) .byteArray h
  · exact exists_arrayText int?_eq_some (fun _ => nofun) .intArray h
  · exact exists_arrayText long?_eq_some (fun _ => nofun) .longArray h
  · obtain ⟨g, hg, hcs⟩ := exists_gap cs
    split at h
    · rename_i hskip
      cases h
      exact ⟨g ++ [']'], by rw [hcs, hskip]; simp, ⟨.emptyList hg⟩⟩
    · obtain ⟨⟨ts, r⟩, hread, he⟩ := map_eq_ok.mp h
      cases he
      have hskip := readItems_skipGap n none cs
      rw [hread] at hskip
      obtain ⟨ds, rfl, ⟨d⟩⟩ := ih.items (eq_ok_of_toOption hskip.symm)
      obtain ⟨k, -, hk⟩ := (readsWell n).items hread
      have hlist := Core.list d fun t ht => (hk t ht).1
      rw [← d.listOf fun t ht => (hk t ht).1] at hlist
      exact ⟨ds ++ [']'], by simp, ⟨hlist⟩⟩

theorem Sound.readItems_succ {elem : Option Kind} {ts : List Tag}
    (h : readItems (n + 1) elem cs = .ok (ts, rest)) :
    ∃ ds, cs = ds ++ ']' :: rest ∧ Nonempty (ItemList ds ts) := by
  rw [readItems] at h
  obtain ⟨⟨t, cs₁⟩, hitem, h⟩ := bind_eq_ok.mp h
  obtain ⟨v, hv, ⟨value⟩⟩ := ih.value hitem
  obtain ⟨g, hg, hcs₁⟩ := exists_gap cs₁
  dsimp only at h
  split_ifs at h
  split at h
  · rename_i hskip
    obtain ⟨⟨ts', r⟩, hread, he⟩ := map_eq_ok.mp h
    cases he
    obtain ⟨ds, hds, ⟨d⟩⟩ := ih.items hread
    refine ⟨_ ++ ',' :: ds, ?_, ⟨.cons (.mk value hg) d⟩⟩
    rw [hv, hcs₁, hskip, hds]
    simp
  · rename_i hskip
    cases h
    refine ⟨_, ?_, ⟨.one (.mk value hg)⟩⟩
    rw [hv, hcs₁, hskip]
    simp
  · cases h

end Succ

theorem sound (n : ℕ) : Sound n := by
  induction n with
  | zero => exact sound_zero
  | succ n ih =>
    exact ⟨ih.readValue_succ, ih.readCompound_succ, ih.readEntries_succ, ih.readBracket_succ,
      ih.readItems_succ⟩

/-! ### Where a phrase ends -/

/-- The text does not begin with a blank. -/
def NoGap (cs : List Char) : Prop :=
  ∀ c ∈ cs.head?, isGap c = false

theorem noGap_cons {c : Char} (hc : isGap c = false) (cs : List Char) : NoGap (c :: cs) := by
  rintro d ⟨⟩
  exact hc

theorem skipGap_of_noGap {cs : List Char} (h : NoGap cs) : skipGap cs = cs := by
  cases cs with
  | nil => rfl
  | cons c cs => exact skipGap_cons (h c rfl) cs

/-- Blanks end where something else begins. -/
theorem gap_unique {g g' cs cs' : List Char} (hg : IsGap g) (hg' : IsGap g') (hcs : NoGap cs)
    (hcs' : NoGap cs') (h : g ++ cs = g' ++ cs') : g = g' ∧ cs = cs' := by
  have hskip := congrArg skipGap h
  rw [skipGap_append hg, skipGap_append hg', skipGap_of_noGap hcs, skipGap_of_noGap hcs'] at hskip
  subst hskip
  exact ⟨List.append_cancel_right h, rfl⟩

theorem word_unique {w w' r r' : List Char} (hw : IsWord w) (hw' : IsWord w') (hr : EndsWord r)
    (hr' : EndsWord r') (h : w ++ r = w' ++ r') : w = w' ∧ r = r' := by
  have hspan := span_word hw hr
  rw [h, span_word hw' hr'] at hspan
  exact ⟨(Prod.mk.inj hspan).1.symm, (Prod.mk.inj hspan).2.symm⟩

theorem Name.noGap {k : List Char} {name : String} (d : Name k name) (cs : List Char) :
    NoGap (k ++ cs) := by
  obtain ⟨c, ds, rfl, hc, -⟩ := d.head
  exact noGap_cons hc (ds ++ cs)

theorem Core.noGap {cs : List Char} {t : Tag} (d : Core cs t) : NoGap cs := by
  obtain ⟨c, ds, rfl, hc, -⟩ := d.head
  exact noGap_cons hc ds

theorem Name.span {k k' r r' : List Char} {name name' : String} (d : Name k name)
    (d' : Name k' name') (hr : EndsWord r) (hr' : EndsWord r') (h : k ++ r = k' ++ r') :
    k = k' ∧ r = r' := by
  have hread := d.readsKey.read r hr
  rw [h, d'.readsKey.read r' hr'] at hread
  obtain rfl := (Prod.mk.inj (Except.ok.inj hread)).2
  exact ⟨List.append_cancel_right h, rfl⟩

/-- What may follow an item or an entry: nothing, or neither a blank nor more of a word. -/
structure Stops (r : List Char) : Prop where
  /-- No word is continued. -/
  endsWord : EndsWord r
  /-- No blank follows. -/
  noGap : NoGap r

theorem stops_nil : Stops [] :=
  ⟨fun _ hc => (nomatch hc), fun _ hc => (nomatch hc)⟩

theorem stops_comma (r : List Char) : Stops (',' :: r) :=
  ⟨endsWord_cons rfl r, noGap_cons rfl r⟩

theorem Text.span {cs cs' r r' : List Char} {t t' : Tag} (d : Text cs t) (d' : Text cs' t')
    (hr : Stops r) (hr' : Stops r') (h : cs ++ r = cs' ++ r') : cs = cs' ∧ r = r' := by
  cases d with
  | mk value hg =>
    cases d' with
    | mk value' hg' =>
      rw [List.append_assoc, List.append_assoc] at h
      obtain ⟨rfl, -, hrest⟩ := value.reads.unique value'.reads (endsWord_gap hg hr.endsWord)
        (endsWord_gap hg' hr'.endsWord) h
      obtain ⟨rfl, rfl⟩ := gap_unique hg hg' hr.noGap hr'.noGap hrest
      exact ⟨rfl, rfl⟩

theorem Entry.span {cs cs' r r' : List Char} {e e' : String × Tag} (d : Entry cs e)
    (d' : Entry cs' e') (hr : Stops r) (hr' : Stops r') (h : cs ++ r = cs' ++ r') :
    cs = cs' ∧ r = r' := by
  cases d with
  | mk hg key hg₁ value =>
    cases d' with
    | mk hg' key' hg₁' value' =>
      simp only [List.append_assoc, List.cons_append] at h
      obtain ⟨rfl, hkey⟩ := gap_unique hg hg' (key.noGap _) (key'.noGap _) h
      obtain ⟨rfl, hcolon⟩ := key.span key' (endsWord_gap hg₁ (endsWord_cons rfl _))
        (endsWord_gap hg₁' (endsWord_cons rfl _)) hkey
      obtain ⟨rfl, hvalue⟩ := gap_unique hg₁ hg₁' (noGap_cons rfl _) (noGap_cons rfl _) hcolon
      obtain ⟨rfl, rfl⟩ := value.span value' hr hr' (List.cons.inj hvalue).2
      exact ⟨rfl, rfl⟩

/-! ### One derivation -/

theorem Quoting.unique {q : Char} {cs cs' s s' : List Char} (d : Quoting q cs s)
    (d' : Quoting q cs' s') (h : cs = cs') : s = s' ∧ HEq d d' := by
  induction d generalizing cs' s' with
  | nil =>
    cases d' with
    | nil => exact ⟨rfl, HEq.rfl⟩
    | _ => cases h
  | plain _ hslash _ ih =>
    cases d' with
    | nil => cases h
    | plain _ _ more' =>
      obtain ⟨rfl, rfl⟩ := List.cons.inj h
      obtain ⟨rfl, hmore⟩ := ih more' rfl
      cases hmore
      exact ⟨rfl, HEq.rfl⟩
    | escaped _ _ => exact absurd (List.cons.inj h).1 hslash
  | escaped _ _ ih =>
    cases d' with
    | nil => cases h
    | plain _ hslash _ => exact absurd (List.cons.inj h).1.symm hslash
    | escaped _ more' =>
      obtain ⟨rfl, rfl⟩ := List.cons.inj (List.cons.inj h).2
      obtain ⟨rfl, hmore⟩ := ih more' rfl
      cases hmore
      exact ⟨rfl, HEq.rfl⟩

theorem Quoted.unique {cs cs' s s' : List Char} (d : Quoted cs s) (d' : Quoted cs' s')
    (h : cs = cs') : s = s' ∧ HEq d d' := by
  cases d with
  | mk _ inner =>
    cases d' with
    | mk _ inner' =>
      obtain ⟨rfl, hinner⟩ := List.cons.inj h
      obtain rfl := List.append_cancel_right hinner
      obtain ⟨rfl, hinner⟩ := inner.unique inner' rfl
      cases hinner
      exact ⟨rfl, HEq.rfl⟩

/-- A text between quotes is no word. -/
theorem Quoted.not_isWord {cs s : List Char} (d : Quoted cs s) : ¬ IsWord cs := by
  intro hw
  obtain ⟨q, ds, rfl, hq⟩ := d.head
  have hquote := isQuote_of_isBareChar (hw.2 q (List.mem_cons_self ..))
  exact Bool.false_ne_true (hquote.symm.trans hq)

theorem Name.unique {cs cs' : List Char} {name name' : String} (d : Name cs name)
    (d' : Name cs' name') (h : cs = cs') : name = name' ∧ HEq d d' := by
  subst h
  cases d with
  | quoted text =>
    cases d' with
    | quoted text' =>
      obtain ⟨rfl, htext⟩ := text.unique text' rfl
      cases htext
      exact ⟨rfl, HEq.rfl⟩
    | word hw => exact absurd hw text.not_isWord
  | word hw =>
    cases d' with
    | quoted text' => exact absurd hw text'.not_isWord
    | word _ => exact ⟨rfl, HEq.rfl⟩

section Array

variable {α : Type} {mk : α → Tag}

theorem notMem_gap {g : List Char} (hg : IsGap g) {c : Char} (hc : isGap c = false) : c ∉ g := by
  intro hmem
  rw [hg c hmem] at hc
  cases hc

theorem noGap_word {w : List Char} (hw : IsWord w) (cs : List Char) : NoGap (w ++ cs) := by
  obtain ⟨c, ds, rfl, hc⟩ := hw.head
  exact noGap_cons (isGap_of_isBareChar hc) _

/-- An element ends where its blanks do. -/
theorem element_unique {g g' w w' r r' : List Char} (hg : IsGap g) (hg' : IsGap g')
    (hw : IsWord w) (hw' : IsWord w') (hr : EndsWord r) (hr' : EndsWord r')
    (h : g ++ (w ++ r) = g' ++ (w' ++ r')) : g = g' ∧ w = w' ∧ r = r' := by
  obtain ⟨rfl, hwords⟩ := gap_unique hg hg' (noGap_word hw _) (noGap_word hw' _) h
  exact ⟨rfl, word_unique hw hw' hr hr' hwords⟩

theorem endsWord_of_isGap {g : List Char} (hg : IsGap g) : EndsWord g := by
  rw [← List.append_nil g]
  exact endsWord_gap hg stops_nil.endsWord

theorem Elements.unique (hmk : Function.Injective mk) {cs cs' : List Char} {as as' : List α}
    (d : Elements mk cs as) (d' : Elements mk cs' as') (h : cs = cs') : as = as' ∧ HEq d d' := by
  induction d generalizing cs' as' with
  | one hg hw hscalar hg₁ =>
    cases d' with
    | one hg' hw' hscalar' hg₁' =>
      obtain ⟨rfl, rfl, rfl⟩ := element_unique hg hg' hw hw' (endsWord_of_isGap hg₁)
        (endsWord_of_isGap hg₁') h
      obtain rfl := hmk (hscalar.symm.trans hscalar')
      exact ⟨rfl, HEq.rfl⟩
    | cons hg' hw' _ hg₁' _ =>
      obtain ⟨-, -, rfl⟩ := element_unique hg hg' hw hw' (endsWord_of_isGap hg₁)
        (endsWord_gap hg₁' (endsWord_cons rfl _)) h
      exact absurd (List.mem_append_right _ (List.mem_cons_self ..)) (notMem_gap hg₁ (c := ',') rfl)
  | cons hg hw hscalar hg₁ _ ih =>
    cases d' with
    | one hg' hw' _ hg₁' =>
      obtain ⟨-, -, rfl⟩ := element_unique hg hg' hw hw'
        (endsWord_gap hg₁ (endsWord_cons rfl _)) (endsWord_of_isGap hg₁') h
      exact absurd (List.mem_append_right _ (List.mem_cons_self ..))
        (notMem_gap hg₁' (c := ',') rfl)
    | cons hg' hw' hscalar' hg₁' more' =>
      obtain ⟨rfl, rfl, hrest⟩ := element_unique hg hg' hw hw'
        (endsWord_gap hg₁ (endsWord_cons rfl _)) (endsWord_gap hg₁' (endsWord_cons rfl _)) h
      obtain ⟨rfl, hmore⟩ := gap_unique hg₁ hg₁' (noGap_cons rfl _) (noGap_cons rfl _) hrest
      obtain rfl := (List.cons.inj hmore).2
      obtain rfl := hmk (hscalar.symm.trans hscalar')
      obtain ⟨rfl, hmore⟩ := ih more' rfl
      cases hmore
      exact ⟨rfl, HEq.rfl⟩

/-- Blanks hold no elements. -/
theorem Elements.not_isGap {cs : List Char} {as : List α} (d : Elements mk cs as) :
    ¬ IsGap cs := by
  intro hg
  obtain ⟨c, ds, hskip, -⟩ := d.skipGap []
  rw [skipGap_append hg] at hskip
  cases hskip

theorem Array.unique (hmk : Function.Injective mk) {cs cs' : List Char} {as as' : List α}
    (d : Array mk cs as) (d' : Array mk cs' as') (h : cs = cs') : as = as' ∧ HEq d d' := by
  subst h
  cases d with
  | empty hg =>
    cases d' with
    | empty _ => exact ⟨rfl, HEq.rfl⟩
    | elements elements' => exact absurd hg elements'.not_isGap
  | elements elements =>
    cases d' with
    | empty hg' => exact absurd hg' elements.not_isGap
    | elements elements' =>
      obtain ⟨rfl, helements⟩ := elements.unique hmk elements' rfl
      cases helements
      exact ⟨rfl, HEq.rfl⟩

end Array

/-- The forms of a value. -/
inductive Form where
  /-- A compound without entries. -/
  | emptyCompound
  /-- A compound with entries. -/
  | compound
  /-- A list without items. -/
  | emptyList
  /-- A list with items. -/
  | list
  /-- An array of numbers of 8 bits. -/
  | byteArray
  /-- An array of numbers of 32 bits. -/
  | intArray
  /-- An array of numbers of 64 bits. -/
  | longArray
  /-- A text between quotes. -/
  | quoted
  /-- A word. -/
  | word
  deriving DecidableEq

/-- The form that the beginning of a text has. -/
def Form.ofText : List Char → Form
  | '{' :: cs => if (skipGap cs).head? = some '}' then emptyCompound else compound
  | '[' :: 'B' :: ';' :: _ => byteArray
  | '[' :: 'I' :: ';' :: _ => intArray
  | '[' :: 'L' :: ';' :: _ => longArray
  | '[' :: cs => if (skipGap cs).head? = some ']' then emptyList else list
  | c :: _ => if isQuote c then quoted else word
  | [] => word

/-- The form of a derivation. -/
def Core.form {cs : List Char} {t : Tag} : Core cs t → Form
  | emptyCompound _ => .emptyCompound
  | compound _ _ => .compound
  | emptyList _ => .emptyList
  | list _ _ => .list
  | byteArray _ => .byteArray
  | intArray _ => .intArray
  | longArray _ => .longArray
  | quoted _ => .quoted
  | word _ => .word

theorem Form.ofText_list {cs : List Char}
    (harray : ∀ c ∈ ['B', 'I', 'L'], ∀ ds, cs ≠ c :: ';' :: ds) :
    ofText ('[' :: cs) = if (skipGap cs).head? = some ']' then emptyList else list := by
  rw [ofText]
  · exact harray _ (by simp)
  · exact harray _ (by simp)
  · exact harray _ (by simp)

theorem Form.ofText_cons {c : Char} (hbrace : c ≠ '{') (hbracket : c ≠ '[') (cs : List Char) :
    ofText (c :: cs) = if isQuote c then quoted else word := by
  rw [ofText]
  · exact hbrace
  · exact fun _ he => absurd he hbracket
  · exact fun _ he => absurd he hbracket
  · exact fun _ he => absurd he hbracket
  · exact hbracket

/-- The form of a derivation shows at the beginning of the text. -/
theorem Core.form_eq {cs : List Char} {t : Tag} (d : Core cs t) : d.form = Form.ofText cs := by
  cases d with
  | emptyCompound hg =>
    rw [Form.ofText, skipGap_append hg]
    rfl
  | compound entries _ =>
    obtain ⟨c, ds, hskip, hne⟩ := entries.skipGap ['}']
    rw [Form.ofText, hskip, if_neg (by simpa using hne)]
    rfl
  | @emptyList g hg =>
    rw [Form.ofText_list, skipGap_append hg]
    · rfl
    · intro c hc ds he
      have hends := endsWord_gap hg (endsWord_cons (c := ']') rfl [])
      rw [he] at hends
      exact absurd (isBareChar_of_letter hc) (by rw [hends c rfl]; decide)
  | list items _ =>
    obtain ⟨c, ds, hskip, hne⟩ := items.skipGap [']']
    rw [Form.ofText_list, hskip, if_neg (by simpa using hne)]
    · rfl
    · exact fun c hc => items.ne_array (isBareChar_of_letter hc) []
  | byteArray _ => rfl
  | intArray _ => rfl
  | longArray _ => rfl
  | quoted text =>
    obtain ⟨q, ds, rfl, hq⟩ := text.head
    obtain ⟨-, hbrace, hbracket, -⟩ := ne_of_isQuote hq
    rw [Form.ofText_cons hbrace hbracket, if_pos hq]
    rfl
  | word hw =>
    obtain ⟨c, ds, rfl, hc⟩ := hw.head
    rw [Form.ofText_cons (ne_of_isBareChar hc rfl) (ne_of_isBareChar hc rfl),
      if_neg (Bool.eq_false_iff.mp (isQuote_of_isBareChar hc))]
    rfl

mutual

/-- **One derivation for each value.** -/
theorem Value.unique {cs cs' : List Char} {t t' : Tag} :
    (d : Value cs t) → (d' : Value cs' t') → cs = cs' → t = t' ∧ HEq d d'
  | .mk hg core, .mk hg' core', h => by
    obtain ⟨rfl, rfl⟩ := gap_unique hg hg' core.noGap core'.noGap h
    obtain ⟨rfl, hcore⟩ := core.unique core' rfl
    cases hcore
    exact ⟨rfl, HEq.rfl⟩
termination_by structural d => d

theorem Core.unique {cs cs' : List Char} {t t' : Tag} (d : Core cs t) (d' : Core cs' t')
    (h : cs = cs') : t = t' ∧ HEq d d' := by
  have hform : d.form = d'.form := by rw [d.form_eq, d'.form_eq, h]
  cases d with
  | emptyCompound hg =>
    cases d' with
    | emptyCompound hg' =>
      obtain rfl := List.append_cancel_right (List.cons.inj h).2
      exact ⟨rfl, HEq.rfl⟩
    | _ => cases hform
  | compound entries hm =>
    cases d' with
    | compound entries' hm' =>
      obtain rfl := List.append_cancel_right (List.cons.inj h).2
      obtain ⟨rfl, hentries⟩ := entries.unique entries' rfl
      cases hentries
      obtain rfl := (Assoc.mapOf_iff.mp hm).trans (Assoc.mapOf_iff.mp hm').symm
      exact ⟨rfl, HEq.rfl⟩
    | _ => cases hform
  | emptyList hg =>
    cases d' with
    | emptyList hg' =>
      obtain rfl := List.append_cancel_right (List.cons.inj h).2
      exact ⟨rfl, HEq.rfl⟩
    | _ => cases hform
  | list items hk =>
    cases d' with
    | list items' hk' =>
      obtain rfl := List.append_cancel_right (List.cons.inj h).2
      obtain ⟨rfl, hitems⟩ := items.unique items' rfl
      cases hitems
      obtain rfl := (Tag.list.inj ((items.listOf hk).symm.trans (items.listOf hk'))).1
      exact ⟨rfl, HEq.rfl⟩
    | _ => cases hform
  | byteArray array =>
    cases d' with
    | byteArray array' =>
      obtain rfl := List.append_cancel_right (List.cons.inj (List.cons.inj (List.cons.inj h).2).2).2
      obtain ⟨rfl, harray⟩ := array.unique (fun _ _ => Tag.byte.inj) array' rfl
      cases harray
      exact ⟨rfl, HEq.rfl⟩
    | _ => cases hform
  | intArray array =>
    cases d' with
    | intArray array' =>
      obtain rfl := List.append_cancel_right (List.cons.inj (List.cons.inj (List.cons.inj h).2).2).2
      obtain ⟨rfl, harray⟩ := array.unique (fun _ _ => Tag.int.inj) array' rfl
      cases harray
      exact ⟨rfl, HEq.rfl⟩
    | _ => cases hform
  | longArray array =>
    cases d' with
    | longArray array' =>
      obtain rfl := List.append_cancel_right (List.cons.inj (List.cons.inj (List.cons.inj h).2).2).2
      obtain ⟨rfl, harray⟩ := array.unique (fun _ _ => Tag.long.inj) array' rfl
      cases harray
      exact ⟨rfl, HEq.rfl⟩
    | _ => cases hform
  | quoted text =>
    cases d' with
    | quoted text' =>
      obtain ⟨rfl, htext⟩ := text.unique text' h
      subst h
      cases htext
      exact ⟨rfl, HEq.rfl⟩
    | _ => cases hform
  | word hw =>
    cases d' with
    | word hw' =>
      subst h
      exact ⟨rfl, HEq.rfl⟩
    | _ => cases hform
termination_by structural d

theorem Text.unique {cs cs' : List Char} {t t' : Tag} :
    (d : Text cs t) → (d' : Text cs' t') → cs = cs' → t = t' ∧ HEq d d'
  | .mk value hg, .mk value' hg', h => by
    obtain ⟨rfl, -, rfl⟩ := value.reads.unique value'.reads (endsWord_of_isGap hg)
      (endsWord_of_isGap hg') h
    obtain ⟨rfl, hvalue⟩ := value.unique value' rfl
    cases hvalue
    exact ⟨rfl, HEq.rfl⟩
termination_by structural d => d

theorem ItemList.unique {cs cs' : List Char} {ts ts' : List Tag} :
    (d : ItemList cs ts) → (d' : ItemList cs' ts') → cs = cs' → ts = ts' ∧ HEq d d'
  | .one item, .one item', h => by
    subst h
    obtain ⟨rfl, hitem⟩ := item.unique item' rfl
    cases hitem
    exact ⟨rfl, HEq.rfl⟩
  | .one item, .cons item' more', h => by
    rw [← List.append_nil cs] at h
    exact nomatch (item.span item' stops_nil (stops_comma _) h).2
  | .cons item more, .one item', h => by
    rw [← List.append_nil cs'] at h
    exact nomatch (item.span item' (stops_comma _) stops_nil h).2
  | .cons item more, .cons item' more', h => by
    obtain ⟨rfl, hmore⟩ := item.span item' (stops_comma _) (stops_comma _) h
    obtain rfl := (List.cons.inj hmore).2
    obtain ⟨rfl, hitem⟩ := item.unique item' rfl
    obtain ⟨rfl, hmore⟩ := more.unique more' rfl
    cases hitem
    cases hmore
    exact ⟨rfl, HEq.rfl⟩
termination_by structural d => d

theorem Entry.unique {cs cs' : List Char} {e e' : String × Tag} (d : Entry cs e)
    (d' : Entry cs' e') (h : cs = cs') : e = e' ∧ HEq d d' := by
  cases d with
  | mk hg key hg₁ value =>
    cases d' with
    | mk hg' key' hg₁' value' =>
      obtain ⟨rfl, hkey⟩ := gap_unique hg hg' (key.noGap _) (key'.noGap _) h
      obtain ⟨rfl, hcolon⟩ := key.span key' (endsWord_gap hg₁ (endsWord_cons rfl _))
        (endsWord_gap hg₁' (endsWord_cons rfl _)) hkey
      obtain ⟨rfl, hvalue⟩ := gap_unique hg₁ hg₁' (noGap_cons rfl _) (noGap_cons rfl _) hcolon
      obtain rfl := (List.cons.inj hvalue).2
      obtain ⟨rfl, hkey⟩ := key.unique key' rfl
      obtain ⟨rfl, hvalue⟩ := value.unique value' rfl
      cases hkey
      cases hvalue
      exact ⟨rfl, HEq.rfl⟩
termination_by structural d

theorem EntryList.unique {cs cs' : List Char} {es es' : Entries} :
    (d : EntryList cs es) → (d' : EntryList cs' es') → cs = cs' → es = es' ∧ HEq d d'
  | .one entry, .one entry', h => by
    subst h
    obtain ⟨rfl, hentry⟩ := entry.unique entry' rfl
    cases hentry
    exact ⟨rfl, HEq.rfl⟩
  | .one entry, .cons entry' more', h => by
    rw [← List.append_nil cs] at h
    exact nomatch (entry.span entry' stops_nil (stops_comma _) h).2
  | .cons entry more, .one entry', h => by
    rw [← List.append_nil cs'] at h
    exact nomatch (entry.span entry' (stops_comma _) stops_nil h).2
  | .cons entry more, .cons entry' more', h => by
    obtain ⟨rfl, hmore⟩ := entry.span entry' (stops_comma _) (stops_comma _) h
    obtain rfl := (List.cons.inj hmore).2
    obtain ⟨rfl, hentry⟩ := entry.unique entry' rfl
    obtain ⟨rfl, hmore⟩ := more.unique more' rfl
    cases hentry
    cases hmore
    exact ⟨rfl, HEq.rfl⟩
termination_by structural d => d

end

end Statuary.Tag.Grammar

namespace Statuary.Tag

/-- **A text is read as a tree exactly if the grammar derives it with that tree**, and no text has
two derivations. -/
theorem parse_iff_derives (s : String) :
    (∀ t, parse s = .ok t ↔ Nonempty (Grammar.Text s.toList t)) ∧
      ∀ (t t' : Tag) (d : Grammar.Text s.toList t) (d' : Grammar.Text s.toList t'),
        t = t' ∧ HEq d d' := by
  refine ⟨fun t => ⟨fun h => ?_, ?_⟩, fun t t' d d' => d.unique d' rfl⟩
  · rw [parse, mapError_eq_ok, readAll] at h
    obtain ⟨⟨u, rest⟩, hread, h⟩ := bind_eq_ok.mp h
    obtain ⟨g, hg, hrest⟩ := exists_gap rest
    obtain ⟨ds, hds, ⟨d⟩⟩ := (Grammar.sound _).value hread
    dsimp only at h
    split at h
    · rename_i hskip
      cases h
      rw [hskip, List.append_nil] at hrest
      subst hrest
      exact ⟨hds ▸ .mk d hg⟩
    · cases h
  · rintro ⟨d⟩
    generalize hs : s.toList = cs at d
    obtain rfl : s = String.ofList cs := by rw [← hs, String.ofList_toList]
    cases d with
    | @mk cs g _ value hg =>
      exact eq_ok_of_toOption (value.reads.parse_gap hg)

end Statuary.Tag
