import Statuary.Proofs.Tag.RoundTrip

/-!
# Blanks that do not count

The two texts of a tree differ only in blanks, and only in blanks **outside quotes**. Where a place
in a text lies is found by going through the text from its start: a quote opens a quotation, the
same quote closes it, and a backslash inside takes the character after it along
(`Statuary.Quotation`). This is how the reader finds the end of a quotation
(`Statuary.Quotation.exists_of_readQuoted`).

Erasing the spaces and line feeds outside quotes makes the compact text of the indented one, and the
compact text has no blank outside quotes at all (`Statuary.Tag.erase_render`). Both are one fact on
texts that are put together from parts: **a part is erased to another one, and ends outside quotes**
(`Statuary.Erases`). Words, quoted texts and blanks are such parts, so the induction over the tree
never looks at a place in the text.
-/

namespace Statuary

/-! ### Places inside and outside quotes -/

/-- Where a place in a text lies. -/
inductive Quotation where
  /-- Outside quotes. -/
  | outside
  /-- Behind a quote `q` that is not closed yet. -/
  | inside (q : Char)
  /-- Behind a backslash inside quotes. -/
  | escaping (q : Char)
  deriving DecidableEq

namespace Quotation

/-- The place behind the next character. -/
def next : Quotation → Char → Quotation
  | outside, c => if Tag.isQuote c then inside c else outside
  | inside q, c => if c = '\\' then escaping q else if c = q then outside else inside q
  | escaping q, _ => inside q

/-- The place behind a text. -/
def after (s : Quotation) (cs : List Char) : Quotation :=
  cs.foldl next s

variable {q c : Char} {cs s rest : List Char}

/-- The text leads nowhere outside the quotes that it starts in. -/
def Stays (q : Char) (cs : List Char) : Prop :=
  ∀ part, part <+: cs → (inside q).after part ≠ outside

theorem stays_nil (q : Char) : Stays q [] := by
  intro part hpart
  rw [List.prefix_nil.mp hpart]
  exact nofun

theorem Stays.cons (h : Stays q cs) (hnext : (inside q).next c = inside q) :
    Stays q (c :: cs) := by
  intro part hpart
  rcases List.prefix_cons_iff.mp hpart with rfl | ⟨part, rfl, hmore⟩
  · exact nofun
  · change ((inside q).next c).after part ≠ outside
    rw [hnext]
    exact h part hmore

theorem Stays.escaped (h : Stays q cs) (c : Char) : Stays q ('\\' :: c :: cs) := by
  intro part hpart
  rcases List.prefix_cons_iff.mp hpart with rfl | ⟨part, rfl, hmore⟩
  · exact nofun
  · rcases List.prefix_cons_iff.mp hmore with rfl | ⟨part, rfl, hrest⟩
    · exact nofun
    · exact h part hrest

/-- **The reader closes a quotation where it is closed here**: at the first place outside. -/
theorem exists_of_readQuoted (h : Tag.readQuoted q cs = .ok (s, rest)) :
    ∃ inner, cs = inner ++ q :: rest ∧ Stays q inner ∧
      (inside q).after (inner ++ [q]) = outside := by
  fun_induction Tag.readQuoted q cs generalizing s with
  | case1 => cases h
  | case2 => cases h
  | case3 c cs hc ih =>
    obtain ⟨⟨t, r⟩, hread, hpair⟩ := map_eq_ok.mp h
    obtain ⟨-, rfl⟩ := Prod.mk.inj hpair
    obtain ⟨inner, rfl, hstays, hend⟩ := ih hread
    exact ⟨'\\' :: c :: inner, rfl, hstays.escaped c, hend⟩
  | case4 => cases h
  | case5 cs hslash =>
    obtain ⟨-, rfl⟩ := Prod.mk.inj (Except.ok.inj h)
    refine ⟨[], rfl, stays_nil q, ?_⟩
    change (inside q).next q = outside
    rw [next, if_neg hslash, if_pos rfl]
  | case6 c cs hslash hc ih =>
    obtain ⟨⟨t, r⟩, hread, hpair⟩ := map_eq_ok.mp h
    obtain ⟨-, rfl⟩ := Prod.mk.inj hpair
    obtain ⟨inner, rfl, hstays, hend⟩ := ih hread
    have hnext : (inside q).next c = inside q := by
      rw [next, if_neg hslash, if_neg hc]
    refine ⟨c :: inner, rfl, hstays.cons hnext, ?_⟩
    change ((inside q).next c).after (inner ++ [q]) = outside
    rw [hnext, hend]

end Quotation

/-! ### Erasing outside quotes -/

/-- **A text without certain characters outside quotes**, from a place on. -/
def erase (p : Char → Bool) : Quotation → List Char → List Char
  | _, [] => []
  | s, c :: cs =>
    if s = .outside ∧ p c = true then erase p (s.next c) cs else c :: erase p (s.next c) cs

variable {p : Char → Bool}

theorem length_erase_le (s : Quotation) (cs : List Char) : (erase p s cs).length ≤ cs.length := by
  induction cs generalizing s with
  | nil => rfl
  | cons c cs ih =>
    rw [erase]
    split_ifs
    · exact Nat.le_succ_of_le (ih _)
    · exact Nat.succ_le_succ (ih _)

/-- Where nothing is erased, nothing that could be stands outside quotes. -/
theorem ne_outside_of_erase_eq {s : Quotation} {before : List Char} {c : Char}
    {after : List Char} (h : erase p s (before ++ c :: after) = before ++ c :: after)
    (hc : p c = true) : s.after before ≠ .outside := by
  induction before generalizing s with
  | nil =>
    intro hs
    rw [List.nil_append, erase, if_pos ⟨hs, hc⟩] at h
    have hlen := length_erase_le (p := p) (s.next c) after
    rw [h, List.length_cons] at hlen
    exact absurd hlen (Nat.not_succ_le_self _)
  | cons b before ih =>
    rw [List.cons_append, erase] at h
    split_ifs at h
    · have hlen := length_erase_le (p := p) (s.next b) (before ++ c :: after)
      rw [h, List.length_cons] at hlen
      exact absurd hlen (Nat.not_succ_le_self _)
    · exact ih (List.cons.inj h).2

/-- **A part of a text is erased to another one**, and what follows it is outside quotes. -/
def Erases (p : Char → Bool) (X Y : List Char) : Prop :=
  ∀ rest, erase p .outside (X ++ rest) = Y ++ erase p .outside rest

theorem Erases.nil : Erases p [] [] := fun _ => rfl

theorem Erases.append {X X' Y Y' : List Char} (h : Erases p X Y) (h' : Erases p X' Y') :
    Erases p (X ++ X') (Y ++ Y') := by
  intro rest
  rw [List.append_assoc, h, h', List.append_assoc]

/-- A character that is erased. -/
theorem Erases.cons_erased {X Y : List Char} {c : Char} (hc : p c = true)
    (hquote : Tag.isQuote c = false) (h : Erases p X Y) : Erases p (c :: X) Y := by
  intro rest
  rw [List.cons_append, erase, if_pos ⟨rfl, hc⟩, Quotation.next, if_neg (by simp [hquote]), h]

/-- A character that is kept. -/
theorem Erases.cons {X Y : List Char} {c : Char} (hc : p c = false)
    (hquote : Tag.isQuote c = false) (h : Erases p X Y) : Erases p (c :: X) (c :: Y) := by
  intro rest
  rw [List.cons_append, erase, if_neg (by simp [hc]), Quotation.next, if_neg (by simp [hquote]), h,
    List.cons_append]

theorem Erases.intercalate {α : Type} {f g : α → List Char} {sep sep' : List Char}
    (hsep : Erases p sep sep') {as : List α} (h : ∀ a ∈ as, Erases p (f a) (g a)) :
    Erases p (sep.intercalate (as.map f)) (sep'.intercalate (as.map g)) := by
  induction as with
  | nil => exact .nil
  | cons a as ih =>
    obtain ⟨ha, has⟩ := List.forall_mem_cons.mp h
    cases as with
    | nil =>
      rw [List.map_singleton, List.map_singleton, List.intercalate_singleton,
        List.intercalate_singleton]
      exact ha
    | cons b as =>
      have := ih has
      simp only [List.map_cons, List.intercalate_cons_cons] at this ⊢
      exact (ha.append hsep).append this

/-! ### The parts of the text of a tree -/

/-- What is erased are blanks, and space and line feed are among them. -/
structure IsSpacing (p : Char → Bool) : Prop where
  isGap : ∀ c, p c = true → Tag.isGap c = true
  space : p ' ' = true
  lineFeed : p '\n' = true

namespace Tag

/-- Inside quotes everything is kept, up to the quote that closes them. -/
theorem erase_escaped (cs rest : List Char) :
    erase p (.inside '"') (escaped cs ++ '"' :: rest) =
      escaped cs ++ '"' :: erase p .outside rest := by
  induction cs with
  | nil => rfl
  | cons c cs ih =>
    rw [escaped_cons]
    split_ifs with hc
    · change '\\' :: c :: erase p (.inside '"') (escaped cs ++ '"' :: rest) = _
      rw [ih]
      rfl
    · obtain ⟨hquote, hslash⟩ := not_or.mp hc
      have hnext : (Quotation.inside '"').next c = .inside '"' := by
        rw [Quotation.next, if_neg hslash, if_neg hquote]
      change erase p (.inside '"') (c :: (escaped cs ++ '"' :: rest)) = _
      rw [erase, if_neg (fun h => nomatch h.1), hnext, ih]
      rfl

variable (hp : IsSpacing p)

include hp

theorem erases_cons {X Y : List Char} {c : Char} (hc : Tag.isGap c = false)
    (hquote : isQuote c = false) (h : Erases p X Y) : Erases p (c :: X) (c :: Y) := by
  refine h.cons ?_ hquote
  by_contra hpc
  rw [hp.isGap c (Bool.eq_true_of_not_eq_false hpc)] at hc
  cases hc

theorem erases_word {w : List Char} (hw : ∀ c ∈ w, isBareChar c = true) : Erases p w w := by
  induction w with
  | nil => exact .nil
  | cons c w ih =>
    obtain ⟨hc, hw⟩ := List.forall_mem_cons.mp hw
    exact erases_cons hp (isGap_of_isBareChar hc) (isQuote_of_isBareChar hc) (ih hw)

theorem erases_quote (s : String) : Erases p (quote s) (quote s) := by
  intro rest
  have hquote : p '"' = false := by
    by_contra h
    exact absurd (hp.isGap _ (Bool.eq_true_of_not_eq_false h)) (by decide)
  rw [quote_eq, List.cons_append, List.append_assoc, List.singleton_append, erase, hquote,
    if_neg (fun h => nomatch h.2)]
  change '"' :: erase p (.inside '"') _ = _
  rw [erase_escaped, List.cons_append, List.append_assoc]
  rfl

theorem erases_keyText (k : String) : Erases p (keyText k) (keyText k) := by
  rw [keyText]
  split_ifs with h
  · exact erases_word hp (List.all_eq_true.mp (Bool.and_eq_true_iff.mp h).2)
  · exact erases_quote hp k

theorem erases_newline (d : ℕ) : Erases p (newline d) [] := by
  refine .cons_erased hp.lineFeed rfl ?_
  induction 4 * d with
  | zero => exact .nil
  | succ n ih => exact .cons_erased hp.space rfl ih

/-- What is left of a spacing are the commas. -/
structure ErasedSpacing (p : Char → Bool) (sp : Spacing) : Prop where
  lead : Erases p sp.lead []
  between : Erases p sp.between [',']
  trail : Erases p sp.trail []

theorem erases_comma (l : Layout) : Erases p l.comma [','] := by
  cases l with
  | compact => exact erases_cons hp rfl rfl .nil
  | indented => exact erases_cons hp rfl rfl (.cons_erased hp.space rfl .nil)

theorem erases_colon (l : Layout) : Erases p l.colon [':'] := by
  cases l with
  | compact => exact erases_cons hp rfl rfl .nil
  | indented => exact erases_cons hp rfl rfl (.cons_erased hp.space rfl .nil)

theorem erasedSpacing_compact : ErasedSpacing p ⟨[], [','], []⟩ :=
  ⟨.nil, erases_cons hp rfl rfl .nil, .nil⟩

theorem erasedSpacing_lines (d : ℕ) : ErasedSpacing p (Layout.lines d) :=
  ⟨erases_newline hp _, erases_cons hp rfl rfl (erases_newline hp _), erases_newline hp _⟩

theorem erasedSpacing_ofList (l : Layout) (d : ℕ) (elem : Kind) :
    ErasedSpacing p (l.ofList d elem) := by
  cases l with
  | compact => exact erasedSpacing_compact hp
  | indented =>
    rw [Layout.ofList]
    split_ifs
    · exact erasedSpacing_lines hp d
    · exact ⟨.nil, erases_comma hp .indented, .nil⟩

theorem erasedSpacing_ofCompound (l : Layout) (d : ℕ) : ErasedSpacing p (l.ofCompound d) := by
  cases l with
  | compact => exact erasedSpacing_compact hp
  | indented => exact erasedSpacing_lines hp d

/-! ### The text of a tree -/

/-- Members between brackets, with the blanks of a spacing around them. -/
theorem erases_members {α : Type} {sp : Spacing} (hsp : ErasedSpacing p sp) {opening closing : Char}
    (hopening : isGap opening = false ∧ isQuote opening = false)
    (hclosing : isGap closing = false ∧ isQuote closing = false) {f g : α → List Char}
    {as : List α} (h : ∀ a ∈ as, Erases p (f a) (g a)) :
    Erases p
      (opening :: (sp.lead ++ (sp.between.intercalate (as.map f) ++ sp.trail) ++ [closing]))
      (opening :: ([] ++ ([','].intercalate (as.map g) ++ []) ++ [closing])) := by
  refine erases_cons hp hopening.1 hopening.2 ?_
  refine (hsp.lead.append ((hsp.between.intercalate h).append hsp.trail)).append ?_
  exact erases_cons hp hclosing.1 hclosing.2 .nil

theorem erases_entryText {l : Layout} {d d' : ℕ} {e : String × Tag}
    (h : Erases p (write l d e.2 []) (write .compact d' e.2 [])) :
    Erases p (entryText l d e) (entryText .compact d' e) :=
  (erases_keyText hp e.1).append ((erases_colon hp l).append h)

/-- An array, its elements being written as words. -/
theorem erases_array (l : Layout) (letter : Char) (hletter : isBareChar letter = true)
    {suffix : List Char} (hsuffix : ∀ c ∈ suffix, isBareChar c = true) (vs : List ℤ) :
    Erases p ('[' :: letter :: ';' :: (writeArray l.comma suffix vs ++ [']']))
      ('[' :: letter :: ';' :: (writeArray Layout.compact.comma suffix vs ++ [']'])) := by
  have hword : Erases p [letter] [letter] :=
    erases_word hp (List.forall_mem_singleton.mpr hletter)
  refine erases_cons hp rfl rfl (hword.append (erases_cons hp rfl rfl ?_))
  refine Erases.append ?_ (erases_cons hp rfl rfl .nil)
  exact (erases_comma hp l).intercalate fun v _ => erases_word hp (isWord_intDigits v hsuffix).2

/-- **Every text of a tree is erased to the compact one.** -/
theorem erases_write (l : Layout) (t : Tag) (d d' : ℕ) :
    Erases p (write l d t []) (write .compact d' t []) := by
  induction t using induct generalizing d d' with
  | byte v => exact erases_word hp (isWord_intDigits _ (isBareChar_of_mem_singleton rfl)).2
  | short v => exact erases_word hp (isWord_intDigits _ (isBareChar_of_mem_singleton rfl)).2
  | int v =>
    rw [write, write, List.append_nil]
    exact erases_word hp (isWord_number _).2
  | long v => exact erases_word hp (isWord_intDigits _ (isBareChar_of_mem_singleton rfl)).2
  | float x =>
    exact erases_word hp (isWord_numberText BinaryFormat.single_spans x
      (isBareChar_of_mem_singleton rfl)).2
  | double x =>
    exact erases_word hp (isWord_numberText BinaryFormat.double_spans x
      (isBareChar_of_mem_singleton rfl)).2
  | string s =>
    rw [write, write, List.append_nil]
    exact erases_quote hp s
  | byteArray vs => exact erases_array hp l 'B' rfl (isBareChar_of_mem_singleton rfl) _
  | intArray vs => exact erases_array hp l 'I' rfl (List.forall_mem_nil _) _
  | longArray vs => exact erases_array hp l 'L' rfl (isBareChar_of_mem_singleton rfl) _
  | list elem items ih =>
    cases items with
    | nil => exact erases_cons hp rfl rfl (erases_cons hp rfl rfl .nil)
    | cons t ts =>
      rw [write_list, write_list]
      exact erases_members hp (erasedSpacing_ofList hp l d elem) ⟨rfl, rfl⟩ ⟨rfl, rfl⟩
        fun u hu => ih u hu _ _
  | compound es ih =>
    cases es with
    | nil => exact erases_cons hp rfl rfl (erases_cons hp rfl rfl .nil)
    | cons e es =>
      rw [write_compound, write_compound]
      exact erases_members hp (erasedSpacing_ofCompound hp l d) ⟨rfl, rfl⟩ ⟨rfl, rfl⟩
        fun f hf => erases_entryText hp (ih f hf _ _)

theorem erase_toList_render (l : Layout) (t : Tag) :
    erase p .outside (t.render l).toList = (t.render .compact).toList := by
  have h := erases_write hp l t 0 0 []
  rw [List.append_nil, erase, List.append_nil] at h
  rw [render, render, String.toList_ofList, String.toList_ofList, h]

end Tag

/-- A space or a line feed. -/
def isSpaceOrLineFeed (c : Char) : Bool :=
  c == ' ' || c == '\n'

theorem isSpacing_isSpaceOrLineFeed : IsSpacing isSpaceOrLineFeed where
  isGap c hc := by
    simp only [isSpaceOrLineFeed, Bool.or_eq_true, beq_iff_eq] at hc
    rcases hc with rfl | rfl <;> rfl
  space := rfl
  lineFeed := rfl

theorem isSpacing_isGap : IsSpacing Tag.isGap where
  isGap _ hc := hc
  space := rfl
  lineFeed := rfl

namespace Tag

/-- **The indented text is the compact one and blanks that do not count**: without the spaces and
line feeds outside quotes it is the compact text, in which every blank lies inside quotes; and
quotes end where the reader ends them. -/
theorem erase_render (t : Tag) :
    erase isSpaceOrLineFeed .outside (t.render .indented).toList = (t.render .compact).toList ∧
    (∀ before c after, (t.render .compact).toList = before ++ c :: after → isGap c = true →
      Quotation.outside.after before ≠ .outside) ∧
    ∀ q cs s rest, readQuoted q cs = .ok (s, rest) → ∃ inner, cs = inner ++ q :: rest ∧
      Quotation.Stays q inner ∧ (Quotation.inside q).after (inner ++ [q]) = .outside := by
  refine ⟨erase_toList_render isSpacing_isSpaceOrLineFeed _ t, fun before c after h hc => ?_,
    fun q cs s rest => Quotation.exists_of_readQuoted⟩
  have herase := erase_toList_render isSpacing_isGap .compact t
  rw [h] at herase
  exact ne_outside_of_erase_eq herase hc

/-- A tree with blanks in a name and behind an escaped quote. -/
def spaced : Tag :=
  .compound [("a b", .list .compound [.compound [("c", .string "\" d")]])]

/-- The blank in the name lies inside quotes, and a quote behind a backslash closes nothing. -/
theorem erase_render_spaced :
    erase isSpaceOrLineFeed .outside (spaced.render .indented).toList =
      (spaced.render .compact).toList ∧
    (spaced.render .compact).toList =
      ['\x7b', '"', 'a'] ++ ' ' :: (spaced.render .compact).toList.drop 4 ∧
    Quotation.outside.after ['\x7b', '"', 'a'] ≠ .outside ∧
    ∃ inner, ['\\', '"', ' ', '"', ','] = inner ++ '"' :: [','] ∧ Quotation.Stays '"' inner ∧
      (Quotation.inside '"').after (inner ++ ['"']) = .outside := by
  obtain ⟨herase, hblank, hquoted⟩ := erase_render spaced
  have htext : (spaced.render .compact).toList =
      ['\x7b', '"', 'a'] ++ ' ' :: (spaced.render .compact).toList.drop 4 := by decide
  exact ⟨herase, htext, hblank _ _ _ htext rfl, hquoted _ _ ['"', ' '] _ rfl⟩

end Tag

end Statuary
