import Statuary.Proofs.Tag.RoundTrip
import Statuary.Proofs.Text.Split
import Statuary.Tag.Edit
import Statuary.Tag.Placeholder

/-!
# Where the placeholder is found

The number of a model is filled in by looking for the quoted placeholder in the text of a command,
and only the first place counts. Which place that is can be read off the tree that was written. The
quoted placeholder begins with a quote, and in the text of a tree it occurs **at two kinds of
texts**: at the placeholder itself, and at a text that ends in a quote and the placeholder, whose
escaped quote is taken for the quote that begins it (`Statuary.Tag.marked`).

* A text of a tree without such texts is passed over (`Statuary.Tag.passes_write`).
* In the text of a tree with such texts the first of them is hit, and what comes out is read or
  refused like any other text (`Statuary.Tag.exists_filled`). A placeholder becomes a number; a text
  that ends in one is cut after a backslash, and nothing can be read then.

Names of entries are texts as well, and are hit like all others.
-/

namespace Statuary.Tag

/-! ### The quoted placeholder in an escaped text -/

theorem placeholder_toList : placeholder.toList =
    ['%', 'c', 'u', 's', 't', 'o', 'm', 'M', 'o', 'd', 'e', 'l', 'D', 'a', 't', 'a'] := by
  simp [placeholder]

theorem quote_placeholder : quote placeholder = '"' :: (placeholder.toList ++ ['"']) := by
  rw [quote, placeholder_toList]
  rfl

theorem placeholder_plain : ∀ c ∈ placeholder.toList, c ≠ '"' ∧ c ≠ '\\' := by
  simp [placeholder_toList]

/-- A text without quotes and backslashes is met up to the closing quote only by itself. -/
theorem dropLead?_escaped {p : List Char} (hp : ∀ c ∈ p, c ≠ '"' ∧ c ≠ '\\')
    (cs rest : List Char) :
    dropLead? (p ++ ['"']) (escaped cs ++ '"' :: rest) = if cs = p then some rest else none := by
  -- both texts are followed character by character; an escape begins with a backslash and differs
  induction p generalizing cs with
  | nil =>
    cases cs with
    | nil => rfl
    | cons c cs =>
      rw [escaped_cons, if_neg (List.cons_ne_nil c cs)]
      split_ifs with hc
      · rfl
      · have hne : ¬ '"' = c := fun he => hc (.inl he.symm)
        simp [dropLead?, hne]
  | cons a p ih =>
    obtain ⟨ha, hps⟩ := List.forall_mem_cons.mp hp
    cases cs with
    | nil =>
      rw [if_neg (List.cons_ne_nil a p).symm]
      change dropLead? (a :: (p ++ ['"'])) ('"' :: rest) = none
      rw [dropLead?, if_neg ha.1]
    | cons c cs =>
      rw [escaped_cons]
      split_ifs with hc heq heq
      · obtain ⟨rfl, -⟩ := List.cons.inj heq
        exact absurd hc (not_or.mpr ha)
      · change dropLead? (a :: (p ++ ['"'])) ('\\' :: _) = none
        rw [dropLead?, if_neg ha.2]
      · obtain ⟨rfl, rfl⟩ := List.cons.inj heq
        change dropLead? (c :: (cs ++ ['"'])) (c :: (escaped cs ++ '"' :: rest)) = some rest
        rw [dropLead?, if_pos rfl, ih hps, if_pos rfl]
      · change dropLead? (a :: (p ++ ['"'])) (c :: (escaped cs ++ '"' :: rest)) = none
        rw [dropLead?]
        split_ifs with hac
        · rw [ih hps, if_neg fun he => heq (by rw [hac, he])]
        · rfl

/-! ### Texts that are passed over -/

/-- The text before the first occurrence of the quoted placeholder and the text after it. -/
def atMarker (cs : List Char) : Option (List Char × List Char) :=
  splitAtFirst (quote placeholder) cs

theorem atMarker_cons_of_ne {c : Char} (hc : c ≠ '"') (cs : List Char) :
    atMarker (c :: cs) = (atMarker cs).map fun r => (c :: r.1, r.2) := by
  have hlead : dropLead? (quote placeholder) (c :: cs) = none := by
    rw [quote_placeholder, dropLead?, if_neg (Ne.symm hc)]
  rw [atMarker, splitAtFirst, hlead]
  rfl

theorem atMarker_quote {cs : List Char} (h : dropLead? (placeholder.toList ++ ['"']) cs = none) :
    atMarker ('"' :: cs) = (atMarker cs).map fun r => ('"' :: r.1, r.2) := by
  have hlead : dropLead? (quote placeholder) ('"' :: cs) = none := by
    rw [quote_placeholder, dropLead?, if_pos rfl, h]
  rw [atMarker, splitAtFirst, hlead]
  rfl

theorem atMarker_quote_some {cs rest : List Char}
    (h : dropLead? (placeholder.toList ++ ['"']) cs = some rest) :
    atMarker ('"' :: cs) = some ([], rest) := by
  have hlead : dropLead? (quote placeholder) ('"' :: cs) = some rest := by
    rw [quote_placeholder, dropLead?, if_pos rfl, h]
  rw [atMarker, splitAtFirst, hlead]

/-- The text does not start as the placeholder does. -/
def Apart (cs : List Char) : Prop :=
  cs.head? ≠ some '%'

theorem dropLead?_of_apart {cs : List Char} (h : Apart cs) :
    dropLead? (placeholder.toList ++ ['"']) cs = none := by
  rw [placeholder_toList, List.cons_append]
  cases cs with
  | nil => rfl
  | cons c cs => rw [dropLead?, if_neg fun he => h (congrArg some he.symm)]

/-- **The text is passed over**: the placeholder is neither in it nor across its end. -/
structure Passes (X : List Char) : Prop where
  /-- It cannot complete a placeholder that begins before it. -/
  apart : Apart X
  /-- What is found in a text that it begins is found in the rest. -/
  split : ∀ rest, Apart rest →
    atMarker (X ++ rest) = (atMarker rest).map fun r => (X ++ r.1, r.2)

theorem Apart.append {X Y : List Char} (hX : Apart X) (hY : Apart Y) : Apart (X ++ Y) := by
  cases X with
  | nil => exact hY
  | cons c X => exact hX

theorem Passes.append {X Y : List Char} (hX : Passes X) (hY : Passes Y) : Passes (X ++ Y) := by
  refine ⟨hX.apart.append hY.apart, fun rest hrest => ?_⟩
  rw [List.append_assoc, hX.split _ (hY.apart.append hrest), hY.split rest hrest, Option.map_map]
  congr 1
  funext r
  simp

theorem passes_nil : Passes [] := by
  refine ⟨by simp [Apart], fun rest _ => ?_⟩
  rw [List.nil_append]
  cases atMarker rest <;> rfl

/-- A text without quotes is passed over. -/
theorem passes_of_notMem {X : List Char} (hX : '"' ∉ X) (hhead : Apart X) : Passes X := by
  refine ⟨hhead, fun rest _ => ?_⟩
  clear hhead
  induction X with
  | nil =>
    rw [List.nil_append]
    cases atMarker rest <;> rfl
  | cons c X ih =>
    obtain ⟨hc, hX⟩ := List.ne_and_not_mem_of_not_mem_cons hX
    rw [List.cons_append, atMarker_cons_of_ne (Ne.symm hc), ih hX, Option.map_map]
    rfl

/-! ### Marked texts -/

/-- **A text at which the quoted placeholder is found**: the placeholder itself, or a text that ends
in a quote and the placeholder. -/
def marked (s : String) : Bool :=
  s.toList == placeholder.toList || ('"' :: placeholder.toList).isSuffixOf s.toList

theorem marked_eq_false {s : String} : marked s = false ↔
    s.toList ≠ placeholder.toList ∧ ¬ '"' :: placeholder.toList <:+ s.toList := by
  rw [marked, Bool.or_eq_false_iff, beq_eq_false_iff_ne, ← List.isSuffixOf_iff_suffix,
    Bool.not_eq_true]

theorem marked_of_notMem {s : String} (h : '%' ∉ s.toList) : marked s = false := by
  have hmem : '%' ∈ placeholder.toList := by
    rw [placeholder_toList]
    exact List.mem_cons_self ..
  refine marked_eq_false.mpr ⟨fun he => h (he ▸ hmem), fun hs => h (hs.subset ?_)⟩
  exact List.mem_cons_of_mem _ hmem

theorem atMarker_escaped {cs : List Char} (h : ¬ '"' :: placeholder.toList <:+ cs)
    {rest : List Char} (hrest : Apart rest) :
    atMarker (escaped cs ++ '"' :: rest) =
      (atMarker rest).map fun r => (escaped cs ++ '"' :: r.1, r.2) := by
  induction cs with
  | nil => exact atMarker_quote (dropLead?_of_apart hrest)
  | cons c cs ih =>
    have htail := ih fun hs => h (hs.trans (List.suffix_cons c cs))
    rw [escaped_cons]
    by_cases hc : c = '"' ∨ c = '\\'
    · rw [if_pos hc]
      change atMarker ('\\' :: c :: (escaped cs ++ '"' :: rest)) = _
      rw [atMarker_cons_of_ne (by decide)]
      rcases hc with rfl | rfl
      · -- an escaped quote could begin the placeholder, but then the text would end in it
        have hne : cs ≠ placeholder.toList := fun he => h (he ▸ List.suffix_refl _)
        have hlead := dropLead?_escaped placeholder_plain cs rest
        rw [if_neg hne] at hlead
        rw [atMarker_quote hlead, htail, Option.map_map, Option.map_map]
        rfl
      · rw [atMarker_cons_of_ne (by decide), htail, Option.map_map, Option.map_map]
        rfl
    · rw [if_neg hc]
      change atMarker (c :: (escaped cs ++ '"' :: rest)) = _
      rw [atMarker_cons_of_ne fun he => hc (.inl he), htail, Option.map_map]
      rfl

/-- A text that is not marked is passed over. -/
theorem passes_quote {s : String} (h : marked s = false) : Passes (quote s) := by
  obtain ⟨hne, hsuffix⟩ := marked_eq_false.mp h
  refine ⟨by simp [quote_eq, Apart], fun rest hrest => ?_⟩
  have hlead := dropLead?_escaped placeholder_plain s.toList rest
  rw [if_neg hne] at hlead
  have htext : quote s ++ rest = '"' :: (escaped s.toList ++ '"' :: rest) := by
    rw [quote_eq]
    simp
  rw [htext, atMarker_quote hlead, atMarker_escaped hsuffix hrest, Option.map_map]
  congr 1
  funext r
  rw [quote_eq]
  simp

theorem passes_keyText {k : String} (h : marked k = false) : Passes (keyText k) := by
  rw [keyText]
  split_ifs with hword
  · rw [Bool.and_eq_true, List.all_eq_true] at hword
    refine passes_of_notMem (fun hmem => absurd (hword.2 _ hmem) (by decide)) fun hhead => ?_
    exact absurd (hword.2 _ (List.mem_of_mem_head? hhead)) (by decide)
  · exact passes_quote h

/-! ### Texts that are hit -/

/-- **The first placeholder of a text is replaced** by `w`, whatever follows the text. -/
def Fills (w X Y : List Char) : Prop :=
  ∃ before after, (∀ rest, atMarker (X ++ rest) = some (before, after ++ rest)) ∧
    Y = before ++ w ++ after

theorem Fills.append {w X Y : List Char} (h : Fills w X Y) (Z : List Char) :
    Fills w (X ++ Z) (Y ++ Z) := by
  obtain ⟨before, after, hsplit, rfl⟩ := h
  refine ⟨before, after ++ Z, fun rest => ?_, by simp⟩
  rw [List.append_assoc, hsplit, List.append_assoc]

theorem Passes.fills {w X Y Z : List Char} (hX : Passes X) (hY : Apart Y) (hYne : Y ≠ [])
    (h : Fills w Y Z) : Fills w (X ++ Y) (X ++ Z) := by
  obtain ⟨before, after, hsplit, rfl⟩ := h
  refine ⟨X ++ before, after, fun rest => ?_, by simp⟩
  have hapart : Apart (Y ++ rest) := by
    cases Y with
    | nil => exact absurd rfl hYne
    | cons c Y => exact hY
  rw [List.append_assoc, hX.split _ hapart, hsplit, Option.map_some]

theorem fills_placeholder (w : List Char) : Fills w (quote placeholder) w := by
  refine ⟨[], [], fun rest => ?_, by simp⟩
  have hlead := dropLead?_escaped placeholder_plain placeholder.toList rest
  rw [if_pos rfl] at hlead
  have htext : quote placeholder ++ rest =
      '"' :: (escaped placeholder.toList ++ '"' :: rest) := by
    rw [quote_eq]
    simp
  rw [htext, atMarker_quote_some hlead, List.nil_append]

theorem append_placeholder_ne (x : List Char) :
    x ++ '"' :: placeholder.toList ≠ placeholder.toList := by
  intro h
  have hlen := congrArg List.length h
  simp only [List.length_append, List.length_cons] at hlen
  omega

theorem atMarker_escaped_suffix (x rest : List Char) :
    atMarker (escaped (x ++ '"' :: placeholder.toList) ++ '"' :: rest) =
      some (escaped x ++ ['\\'], rest) := by
  induction x with
  | nil =>
    -- the escaped quote itself is taken for the beginning, and its backslash stays behind
    have hlead := dropLead?_escaped placeholder_plain placeholder.toList rest
    rw [if_pos rfl] at hlead
    rw [List.nil_append, escaped_cons, if_pos (.inl rfl)]
    change atMarker ('\\' :: '"' :: (escaped placeholder.toList ++ '"' :: rest)) = _
    rw [atMarker_cons_of_ne (by decide), atMarker_quote_some hlead, Option.map_some]
    rfl
  | cons c x ih =>
    rw [List.cons_append, escaped_cons, escaped_cons]
    by_cases hc : c = '"' ∨ c = '\\'
    · rw [if_pos hc]
      change atMarker ('\\' :: c :: (escaped (x ++ '"' :: placeholder.toList) ++ '"' :: rest)) = _
      rw [atMarker_cons_of_ne (by decide)]
      rcases hc with rfl | rfl
      · -- what follows this quote is longer than the placeholder
        have hlead := dropLead?_escaped placeholder_plain (x ++ '"' :: placeholder.toList) rest
        rw [if_neg (append_placeholder_ne x)] at hlead
        rw [atMarker_quote hlead, ih]
        rfl
      · rw [atMarker_cons_of_ne (by decide), ih]
        rfl
    · rw [if_neg hc]
      change atMarker (c :: (escaped (x ++ '"' :: placeholder.toList) ++ '"' :: rest)) = _
      rw [atMarker_cons_of_ne fun he => hc (.inl he), ih]
      rfl

/-- A text that ends in a quote and the placeholder is cut at its escaped quote. -/
theorem fills_suffix (w : List Char) {s : String} {x : List Char}
    (hs : s.toList = x ++ '"' :: placeholder.toList) :
    Fills w (quote s) ('"' :: (escaped x ++ '\\' :: w)) := by
  refine ⟨'"' :: (escaped x ++ ['\\']), [], fun rest => ?_, by simp⟩
  have hlead := dropLead?_escaped placeholder_plain s.toList rest
  rw [if_neg (hs ▸ append_placeholder_ne x)] at hlead
  have htext : quote s ++ rest = '"' :: (escaped s.toList ++ '"' :: rest) := by
    rw [quote_eq]
    simp
  rw [htext, atMarker_quote hlead, hs, atMarker_escaped_suffix]
  rfl

/-- Nothing can be read that has a backslash before a character that needs none. -/
theorem readQuoted_bad_escape (x : List Char) {c : Char} (hc : isEscapable c = false)
    (rest : List Char) : (readQuoted '"' (escaped x ++ '\\' :: c :: rest)).toOption = none := by
  induction x with
  | nil =>
    change (readQuoted '"' ('\\' :: c :: rest)).toOption = none
    simp only [readQuoted, hc]
    rfl
  | cons d x ih =>
    rw [escaped_cons]
    by_cases hd : d = '"' ∨ d = '\\'
    · have hesc : isEscapable d = true := by rcases hd with rfl | rfl <;> rfl
      rw [if_pos hd]
      change (readQuoted '"' ('\\' :: d :: (escaped x ++ '\\' :: c :: rest))).toOption = none
      simp only [readQuoted, hesc, if_true, toOption_map, ih]
      rfl
    · obtain ⟨hq, hb⟩ := not_or.mp hd
      rw [if_neg hd]
      change (readQuoted '"' (d :: (escaped x ++ '\\' :: c :: rest))).toOption = none
      rw [readQuoted]
      · rw [if_neg hq, toOption_map, ih]
        rfl
      · exact hb

/-! ### Filling in a number -/

section Fill

variable (n : ℤ)

theorem intDigits_cons : ∃ c cs, intDigits n = c :: cs ∧ isEscapable c = false := by
  obtain ⟨c, cs, hcs⟩ := List.exists_cons_of_ne_nil (intDigits_ne_nil n)
  refine ⟨c, cs, hcs, ?_⟩
  rcases mem_intDigits (n := n) (by rw [hcs]; exact List.mem_cons_self ..) with rfl | hc
  · rfl
  · have hne : ∀ d, isDigit d = false → (c == d) = false := fun d hd =>
      beq_eq_false_iff_ne.mpr fun he => by rw [he, hd] at hc; cases hc
    rw [isEscapable, hne _ rfl, hne _ rfl, hne _ rfl]
    rfl

theorem marked_cases {s : String} (h : marked s = true) :
    s = placeholder ∨ ∃ x, s.toList = x ++ '"' :: placeholder.toList := by
  rw [marked, Bool.or_eq_true, beq_iff_eq, List.isSuffixOf_iff_suffix] at h
  rcases h with h | ⟨x, hx⟩
  · exact .inl (String.toList_inj.mp h)
  · exact .inr ⟨x, hx.symm⟩

/-- A marked text becomes a number, or can no longer be read. -/
theorem exists_filled_quote {s : String} (h : marked s = true) :
    ∃ Y o, Fills (intDigits n) (quote s) Y ∧ Opens Y ∧ Reads Y o := by
  rcases marked_cases h with rfl | ⟨x, hx⟩
  · refine ⟨_, _, fills_placeholder _, ?_, reads_word (isWord_number n)⟩
    simpa using opens_intDigits n []
  · refine ⟨_, none, fills_suffix _ hx, ⟨'"', _, rfl, by decide⟩, fun k rest _ hk => ?_⟩
    obtain ⟨c, cs, hcs, hc⟩ := intDigits_cons n
    obtain ⟨k, rfl⟩ : ∃ j, k = j + 1 := ⟨k - 1, by simp only [List.length_cons] at hk; omega⟩
    have hread := readQuoted_bad_escape x hc (cs ++ rest)
    have htext : '"' :: (escaped x ++ '\\' :: intDigits n) ++ rest =
        '"' :: (escaped x ++ '\\' :: c :: (cs ++ rest)) := by
      rw [hcs]
      simp
    rw [htext, readValue, skipGap_cons rfl]
    simp only [if_neg (show ¬ '"' = '{' by decide), if_neg (show ¬ '"' = '[' by decide),
      show isQuote '"' = true from rfl, if_true, toOption_map, hread]
    rfl

theorem keyText_of_marked {k : String} (h : marked k = true) : keyText k = quote k := by
  have hmem : '%' ∈ k.toList := by
    rcases marked_cases h with rfl | ⟨x, hx⟩
    · rw [placeholder_toList]
      decide
    · rw [hx, placeholder_toList]
      simp
  rw [keyText, if_neg]
  rw [Bool.and_eq_true, List.all_eq_true]
  exact fun hword => absurd (hword.2 _ hmem) (by decide)

/-- A marked name becomes the digits of the number, or can no longer be read. -/
theorem exists_filled_key {k : String} (h : marked k = true) :
    ∃ Y, Fills (intDigits n) (keyText k) Y ∧ OpensEntry Y ∧
      (ReadsKey Y (String.ofList (intDigits n)) ∨
        ∀ rest, (readKey (Y ++ rest)).toOption = none) := by
  rw [keyText_of_marked h]
  rcases marked_cases h with rfl | ⟨x, hx⟩
  · have hkey := readsKey_word (isWord_number n)
    exact ⟨_, fills_placeholder _, hkey.head, .inl hkey⟩
  · refine ⟨_, fills_suffix _ hx, ⟨'"', _, rfl, rfl, by decide⟩, .inr fun rest => ?_⟩
    obtain ⟨c, cs, hcs, hc⟩ := intDigits_cons n
    have hread := readQuoted_bad_escape x hc (cs ++ rest)
    have htext : '"' :: (escaped x ++ '\\' :: intDigits n) ++ rest =
        '"' :: (escaped x ++ '\\' :: c :: (cs ++ rest)) := by
      rw [hcs]
      simp
    rw [htext, readKey]
    simp only [show isQuote '"' = true from rfl, if_true, toOption_map, hread]
    rfl

end Fill

/-! ### Marked trees -/

/-- A marked text holds the placeholder. -/
theorem marked_of_contains {s : String} (h : contains placeholder s = false) :
    marked s = false := by
  by_contra hmarked
  rw [Bool.not_eq_false] at hmarked
  have hholds : contains placeholder s = true := by
    rcases marked_cases hmarked with rfl | ⟨x, hx⟩
    · simpa [contains] using isSome_splitAtFirst [] placeholder.toList []
    · rw [contains, hx]
      simpa using isSome_splitAtFirst (x ++ ['"']) placeholder.toList []
  rw [hholds] at h
  cases h

mutual

/-- **Some text or name in a tree is marked.** -/
def marks : Tag → Bool
  | .string s => marked s
  | .list _ items => marksItems items
  | .compound es => marksEntries es
  | .byte _ | .short _ | .int _ | .long _ | .float _ | .double _ => false
  | .byteArray _ | .intArray _ | .longArray _ => false

/-- Some item of a list is marked. -/
def marksItems : List Tag → Bool
  | [] => false
  | t :: ts => marks t || marksItems ts

/-- Some entry of a compound is marked. -/
def marksEntries : Entries → Bool
  | [] => false
  | (k, t) :: es => marked k || marks t || marksEntries es

end

theorem marksItems_eq (items : List Tag) : marksItems items = items.any marks := by
  induction items with
  | nil => rfl
  | cons t ts ih => rw [marksItems, ih, List.any_cons]

theorem marksEntries_eq (es : Entries) :
    marksEntries es = es.any fun e => marked e.1 || marks e.2 := by
  induction es with
  | nil => rfl
  | cons e es ih =>
    obtain ⟨k, t⟩ := e
    rw [marksEntries, ih, List.any_cons]

/-! ### Compact texts -/

/-- A list, given the texts of its items. -/
def listText (xs : List (List Char)) : List Char :=
  '[' :: ([','].intercalate xs ++ [']'])

/-- A compound, given the texts of its entries. -/
def compoundText (xs : List (List Char)) : List Char :=
  '{' :: ([','].intercalate xs ++ ['}'])

theorem write_list_compact (d : ℕ) (elem : Kind) (items : List Tag) :
    write .compact d (.list elem items) [] =
      listText (items.map fun u => write .compact (d + 1) u []) := by
  cases items with
  | nil => rfl
  | cons t ts =>
    rw [write_list]
    simp [Layout.ofList, listText]

theorem write_compound_compact (d : ℕ) (es : Entries) :
    write .compact d (.compound es) [] = compoundText (es.map (entryText .compact (d + 1))) := by
  cases es with
  | nil => rfl
  | cons e es =>
    rw [write_compound]
    simp [Layout.ofCompound, compoundText]

theorem passes_intercalate {xs : List (List Char)} (h : ∀ x ∈ xs, Passes x) :
    Passes ([','].intercalate xs) := by
  have hcomma : Passes [','] := passes_of_notMem (by decide) (by simp [Apart])
  induction xs with
  | nil => exact passes_nil
  | cons x xs ih =>
    obtain ⟨hx, hxs⟩ := List.forall_mem_cons.mp h
    cases xs with
    | nil => rwa [List.intercalate_singleton]
    | cons y ys =>
      rw [List.intercalate_cons_cons]
      exact (hx.append hcomma).append (ih hxs)

theorem passes_word {w : List Char} (hw : IsWord w) : Passes w := by
  refine passes_of_notMem (fun h => absurd (hw.2 _ h) (by decide)) fun hhead => ?_
  exact absurd (hw.2 _ (List.mem_of_mem_head? hhead)) (by decide)

theorem passes_array {α : Type} (letter : Char) (hletter : letter ≠ '"') (text : α → List Char)
    (h : ∀ a, IsWord (text a)) (vs : List α) :
    Passes ('[' :: letter :: ';' :: ([','].intercalate (vs.map text) ++ [']'])) := by
  have hopen : Passes ['[', letter, ';'] := by
    refine passes_of_notMem (fun hmem => ?_) (by simp [Apart])
    simp only [List.mem_cons, List.not_mem_nil, or_false] at hmem
    rcases hmem with hmem | hmem | hmem
    · exact absurd hmem (by decide)
    · exact hletter hmem.symm
    · exact absurd hmem (by decide)
  have hwords : Passes ([','].intercalate (vs.map text)) :=
    passes_intercalate (List.forall_mem_map.mpr fun v _ => passes_word (h v))
  have hclose : Passes [']'] := passes_of_notMem (by decide) (by simp [Apart])
  exact hopen.append (hwords.append hclose)

theorem passes_entryText {e : String × Tag} (hkey : marked e.1 = false) {d : ℕ}
    (h : Passes (write .compact d e.2 [])) : Passes (entryText .compact d e) := by
  have hcolon : Passes [':'] := passes_of_notMem (by decide) (by simp [Apart])
  exact (passes_keyText hkey).append (hcolon.append h)

/-- **A tree that is not marked is passed over.** -/
theorem passes_write (t : Tag) : marks t = false → ∀ d, Passes (write .compact d t []) := by
  have hopen : Passes ['['] := passes_of_notMem (by decide) (by simp [Apart])
  have hclose : Passes [']'] := passes_of_notMem (by decide) (by simp [Apart])
  have hbrace : Passes ['{'] := passes_of_notMem (by decide) (by simp [Apart])
  have hend : Passes ['}'] := passes_of_notMem (by decide) (by simp [Apart])
  induction t using induct with
  | byte v => exact fun _ d => passes_word (isWord_intDigits _ (isBareChar_of_mem_singleton rfl))
  | short v => exact fun _ d => passes_word (isWord_intDigits _ (isBareChar_of_mem_singleton rfl))
  | int v =>
    intro _ d
    rw [write, List.append_nil]
    exact passes_word (isWord_number _)
  | long v => exact fun _ d => passes_word (isWord_intDigits _ (isBareChar_of_mem_singleton rfl))
  | float x =>
    exact fun _ d => passes_word
      (isWord_numberText BinaryFormat.single_spans x (isBareChar_of_mem_singleton rfl))
  | double x =>
    exact fun _ d => passes_word
      (isWord_numberText BinaryFormat.double_spans x (isBareChar_of_mem_singleton rfl))
  | string s =>
    intro h d
    rw [write, List.append_nil]
    exact passes_quote h
  | byteArray vs =>
    intro _ d
    rw [write, writeArray, List.map_map]
    exact passes_array 'B' (by decide) _
      (fun v => isWord_intDigits _ (isBareChar_of_mem_singleton rfl)) vs
  | intArray vs =>
    intro _ d
    rw [write, writeArray, List.map_map]
    exact passes_array 'I' (by decide) _
      (fun v => isWord_intDigits _ fun _ hc => absurd hc List.not_mem_nil) vs
  | longArray vs =>
    intro _ d
    rw [write, writeArray, List.map_map]
    exact passes_array 'L' (by decide) _
      (fun v => isWord_intDigits _ (isBareChar_of_mem_singleton rfl)) vs
  | list elem items ih =>
    intro h d
    rw [marks, marksItems_eq, List.any_eq_false] at h
    rw [write_list_compact]
    refine hopen.append
      ((passes_intercalate (List.forall_mem_map.mpr fun u hu => ?_)).append hclose)
    exact ih u hu (Bool.eq_false_iff.mpr (h u hu)) (d + 1)
  | compound es ih =>
    intro h d
    rw [marks, marksEntries_eq, List.any_eq_false] at h
    rw [write_compound_compact]
    refine hbrace.append ((passes_intercalate (List.forall_mem_map.mpr fun f hf => ?_)).append hend)
    obtain ⟨hkey, hval⟩ := Bool.or_eq_false_iff.mp (Bool.eq_false_iff.mpr (h f hf))
    exact passes_entryText hkey (ih f hf hval (d + 1))

/-! ### Filling in a tree -/

/-- The first text that is hit is replaced between texts that are passed over and any others. -/
theorem fills_intercalate {w X Y : List Char} {pre : List (List Char)}
    (hpre : ∀ x ∈ pre, Passes x) (hX : Apart X) (hne : X ≠ []) (h : Fills w X Y)
    (post : List (List Char)) :
    Fills w ([','].intercalate (pre ++ X :: post)) ([','].intercalate (pre ++ Y :: post)) ∧
      Apart ([','].intercalate (pre ++ X :: post)) ∧ [','].intercalate (pre ++ X :: post) ≠ [] := by
  have hcomma : Passes [','] := passes_of_notMem (by decide) (by simp [Apart])
  induction pre with
  | nil =>
    cases post with
    | nil =>
      simp only [List.nil_append, List.intercalate_singleton]
      exact ⟨h, hX, hne⟩
    | cons z post =>
      rw [List.nil_append, List.nil_append, List.intercalate_cons_cons,
        List.intercalate_cons_cons, List.append_assoc, List.append_assoc]
      obtain ⟨c, X, rfl⟩ := List.exists_cons_of_ne_nil hne
      exact ⟨h.append _, hX, List.cons_ne_nil _ _⟩
  | cons x pre ih =>
    obtain ⟨hx, hpre⟩ := List.forall_mem_cons.mp hpre
    obtain ⟨hfill, hapart, hne'⟩ := ih hpre
    rw [List.cons_append, List.cons_append, List.intercalate_cons_of_ne_nil (by simp),
      List.intercalate_cons_of_ne_nil (by simp)]
    exact ⟨(hx.append hcomma).fills hapart hne' hfill,
      (hx.append hcomma).apart.append hapart, by simp⟩

/-- What the text of an entry is read as. -/
def readBackEntry (e : String × Tag) : Option (String × Tag) :=
  (readBack e.2).map fun u => (e.1, u)

theorem apart_entryText (d : ℕ) (e : String × Tag) :
    Apart (entryText .compact d e) ∧ entryText .compact d e ≠ [] := by
  have hkey : Apart (keyText e.1) ∧ keyText e.1 ≠ [] := by
    rw [keyText]
    split_ifs with hword
    · rw [Bool.and_eq_true, Bool.not_eq_true', List.isEmpty_eq_false_iff, List.all_eq_true] at hword
      exact ⟨fun hhead => absurd (hword.2 _ (List.mem_of_mem_head? hhead)) (by decide), hword.1⟩
    · rw [quote_eq]
      exact ⟨by simp [Apart], List.cons_ne_nil _ _⟩
  refine ⟨hkey.1.append ?_, List.append_ne_nil_of_left_ne_nil hkey.2 _⟩
  exact by simp [Apart, Layout.colon]

/-- The text of a compound whose first marked entry is replaced. -/
theorem fills_compound {w Y : List Char} {pre post : Entries} {e : String × Tag} {d : ℕ}
    (hpre : marksEntries pre = false) (h : Fills w (entryText .compact (d + 1) e) Y) :
    Fills w (write .compact d (.compound (pre ++ e :: post)) [])
      (compoundText (pre.map (entryText .compact (d + 1)) ++
        Y :: post.map (entryText .compact (d + 1)))) := by
  have hbrace : Passes ['{'] := passes_of_notMem (by decide) (by simp [Apart])
  rw [marksEntries_eq, List.any_eq_false] at hpre
  have hpasses : ∀ x ∈ pre.map (entryText .compact (d + 1)), Passes x := by
    refine List.forall_mem_map.mpr fun f hf => ?_
    obtain ⟨hkey, hval⟩ := Bool.or_eq_false_iff.mp (Bool.eq_false_iff.mpr (hpre f hf))
    exact passes_entryText hkey (passes_write f.2 hval (d + 1))
  obtain ⟨hapart, hne⟩ := apart_entryText (d + 1) e
  obtain ⟨hfill, hapart, hne⟩ :=
    fills_intercalate hpasses hapart hne h (post.map (entryText .compact (d + 1)))
  rw [write_compound_compact, List.map_append, List.map_cons, compoundText, compoundText]
  exact Passes.fills hbrace (hapart.append (by simp [Apart])) (by simp) (hfill.append ['}'])

/-- A compound in which the text of one entry is another. -/
theorem reads_compoundText {Y : List Char} {o : Option (String × Tag)} (h : ReadsEntry Y o)
    (pre post : Entries) (d : ℕ) :
    Reads (compoundText (pre.map (entryText .compact d) ++ Y :: post.map (entryText .compact d)))
      ((collect (pre.map readBackEntry ++ o :: post.map readBackEntry)).map ofEntries) := by
  -- each entry as its text and what it is read as, with the other text in the middle
  obtain ⟨x, xs, hxs⟩ : ∃ x xs, pre.map (fun e => (entryText .compact d e, readBackEntry e)) ++
      (Y, o) :: post.map (fun e => (entryText .compact d e, readBackEntry e)) = x :: xs :=
    List.exists_cons_of_ne_nil (by simp)
  have hall : ∀ y ∈ x :: xs, ReadsEntry y.1 y.2 := by
    rw [← hxs]
    intro y hy
    have hentry : ∀ e : String × Tag, ReadsEntry (entryText .compact d e) (readBackEntry e) :=
      fun e => readsEntry_entryText (reads_write .compact e.2 d)
    rcases List.mem_append.mp hy with hy | hy
    · obtain ⟨e, -, rfl⟩ := List.mem_map.mp hy
      exact hentry e
    · rcases List.mem_cons.mp hy with rfl | hy
      · exact h
      · obtain ⟨e, -, rfl⟩ := List.mem_map.mp hy
        exact hentry e
  have hread := reads_compound isGap_nil ?_ (ReadsEntries.intercalate isGap_nil isGap_nil x xs hall)
  · rw [← hxs] at hread
    simpa [compoundText, Function.comp_def] using hread
  · obtain ⟨rest, hrest⟩ := intercalate_cons [','] x.1 (xs.map (·.1))
    rw [List.map_cons, hrest, List.append_nil]
    exact (hall x (List.mem_cons_self ..)).head.append rest

theorem apart_write {t : Tag} (h : marks t = true) (d : ℕ) :
    Apart (write .compact d t []) ∧ write .compact d t [] ≠ [] := by
  cases t with
  | string s => exact ⟨by simp [write, quote_eq, Apart], by simp [write, quote_eq]⟩
  | list elem items => exact ⟨by simp [write, Apart], by simp [write]⟩
  | compound es => exact ⟨by simp [write, Apart], by simp [write]⟩
  | _ => cases h

/-- The text of a list whose first marked item is replaced. -/
theorem fills_list {w Y : List Char} {pre post : List Tag} {t : Tag} {d : ℕ} (elem : Kind)
    (hpre : marksItems pre = false) (ht : marks t = true)
    (h : Fills w (write .compact (d + 1) t []) Y) :
    Fills w (write .compact d (.list elem (pre ++ t :: post)) [])
      (listText (pre.map (fun u => write .compact (d + 1) u []) ++
        Y :: post.map (fun u => write .compact (d + 1) u []))) := by
  have hopen : Passes ['['] := passes_of_notMem (by decide) (by simp [Apart])
  rw [marksItems_eq, List.any_eq_false] at hpre
  have hpasses : ∀ x ∈ pre.map (fun u => write .compact (d + 1) u []), Passes x :=
    List.forall_mem_map.mpr fun u hu =>
      passes_write u (Bool.eq_false_iff.mpr (hpre u hu)) (d + 1)
  obtain ⟨hapart, hne⟩ := apart_write ht (d + 1)
  obtain ⟨hfill, hapart, hne⟩ :=
    fills_intercalate hpasses hapart hne h (post.map fun u => write .compact (d + 1) u [])
  rw [write_list_compact, List.map_append, List.map_cons, listText, listText]
  exact Passes.fills hopen (hapart.append (by simp [Apart])) (by simp) (hfill.append [']'])

/-- A list in which the text of one item is another. -/
theorem reads_listText {Y : List Char} {o : Option Tag} (hY : Opens Y) (h : Reads Y o)
    (pre post : List Tag) (d : ℕ) :
    Reads (listText (pre.map (fun u => write .compact d u []) ++
        Y :: post.map (fun u => write .compact d u [])))
      ((gather none (pre.map readBack ++ o :: post.map readBack)).map listOf) := by
  obtain ⟨x, xs, hxs⟩ : ∃ x xs, pre.map (fun u => (write .compact d u [], readBack u)) ++
      (Y, o) :: post.map (fun u => (write .compact d u [], readBack u)) = x :: xs :=
    List.exists_cons_of_ne_nil (by simp)
  have hall : ∀ y ∈ x :: xs, Opens y.1 ∧ Reads y.1 y.2 := by
    rw [← hxs]
    intro y hy
    have hitem : ∀ u : Tag, Opens (write .compact d u []) ∧
        Reads (write .compact d u []) (readBack u) :=
      fun u => ⟨opens_write .., reads_write .compact u d⟩
    rcases List.mem_append.mp hy with hy | hy
    · obtain ⟨u, -, rfl⟩ := List.mem_map.mp hy
      exact hitem u
    · rcases List.mem_cons.mp hy with rfl | hy
      · exact ⟨hY, h⟩
      · obtain ⟨u, -, rfl⟩ := List.mem_map.mp hy
        exact hitem u
  have hread := reads_list isGap_nil ?_
    (ReadsItems.intercalate isGap_nil isGap_nil x xs fun y hy => (hall y hy).2)
  · rw [← hxs] at hread
    simpa [listText, Function.comp_def] using hread
  · obtain ⟨rest, hrest⟩ := intercalate_cons [','] x.1 (xs.map (·.1))
    rw [List.map_cons, hrest, List.append_nil]
    exact (hall x (List.mem_cons_self ..)).1.append rest

/-! ### Every marked tree is hit -/

/-- **Filling in a number**: the text of the tree is hit, and what comes out is read as `o`. -/
def Filled (n : ℤ) (d : ℕ) (t : Tag) (o : Option Tag) : Prop :=
  ∃ Y, Fills (intDigits n) (write .compact d t []) Y ∧ Opens Y ∧ Reads Y o

/-- The text of the entry is hit, and what comes out is read as `o`. -/
def FilledEntry (n : ℤ) (d : ℕ) (e : String × Tag) (o : Option (String × Tag)) : Prop :=
  ∃ Y, Fills (intDigits n) (entryText .compact d e) Y ∧ ReadsEntry Y o

section Filled

variable {n : ℤ} {d : ℕ}

theorem filled_placeholder : Filled n d (.string placeholder) (some (scalar (intDigits n))) := by
  refine ⟨intDigits n, ?_, by simpa using opens_intDigits n [], reads_word (isWord_number n)⟩
  rw [write, List.append_nil]
  exact fills_placeholder _

/-- An item after items that are passed over. -/
theorem Filled.list {t : Tag} {o : Option Tag} (h : Filled n (d + 1) t o) (ht : marks t = true)
    (elem : Kind) {pre : List Tag} (hpre : marksItems pre = false) (post : List Tag) :
    Filled n d (.list elem (pre ++ t :: post))
      ((gather none (pre.map readBack ++ o :: post.map readBack)).map listOf) := by
  obtain ⟨Y, hfill, hopens, hread⟩ := h
  exact ⟨_, fills_list elem hpre ht hfill, ⟨'[', _, rfl, by decide⟩,
    reads_listText hopens hread pre post (d + 1)⟩

/-- The value of an entry. -/
theorem Filled.entry {k : String} {t : Tag} {o : Option Tag} (h : Filled n d t o)
    (hkey : marked k = false) (ht : marks t = true) :
    FilledEntry n d (k, t) (o.map fun u => (k, u)) := by
  have hcolon : Passes [':'] := passes_of_notMem (by decide) (by simp [Apart])
  obtain ⟨Y, hfill, -, hread⟩ := h
  obtain ⟨hapart, hne⟩ := apart_write ht d
  have hvalue := ((passes_keyText hkey).append hcolon).fills hapart hne hfill
  rw [List.append_assoc, List.append_assoc] at hvalue
  exact ⟨_, hvalue, readsEntry (readsKey_keyText k) isGap_nil hread⟩

/-- An entry after entries that are passed over. -/
theorem FilledEntry.compound {e : String × Tag} {o : Option (String × Tag)}
    (h : FilledEntry n (d + 1) e o) {pre : Entries} (hpre : marksEntries pre = false)
    (post : Entries) :
    Filled n d (.compound (pre ++ e :: post))
      ((collect (pre.map readBackEntry ++ o :: post.map readBackEntry)).map ofEntries) := by
  obtain ⟨Y, hfill, hread⟩ := h
  exact ⟨_, fills_compound hpre hfill, ⟨'{', _, rfl, by decide⟩,
    reads_compoundText hread pre post (d + 1)⟩

/-- An item of a list that becomes the text of another. -/
theorem Filled.inList {t v : Tag} (h : Filled n (d + 1) t (readBack v)) (ht : marks t = true)
    (elem : Kind) (pre : List Tag) (hpre : marksItems pre = false) (post : List Tag) :
    Filled n d (.list elem (pre ++ t :: post)) (readBack (.list elem (pre ++ v :: post))) := by
  have hlist := h.list ht elem hpre post
  rwa [readBack, readBackItems_eq_map, List.map_append, List.map_cons]

/-- A value in a compound that becomes the text of another. -/
theorem Filled.inCompound {k : String} {t v : Tag} (h : Filled n (d + 1) t (readBack v))
    (hkey : marked k = false) (ht : marks t = true) (pre : Entries)
    (hpre : marksEntries pre = false) (post : Entries) :
    Filled n d (.compound (pre ++ (k, t) :: post))
      (readBack (.compound (pre ++ (k, v) :: post))) := by
  have hcompound := (h.entry hkey ht).compound hpre post
  rwa [readBack, readBackEntries_eq_collect, List.map_append, List.map_cons]

/-- The first marked member of a list. -/
theorem exists_first {α : Type} {p : α → Bool} {xs : List α} (h : xs.any p = true) :
    ∃ pre x post, xs = pre ++ x :: post ∧ pre.any p = false ∧ p x = true := by
  obtain ⟨x, hx⟩ := Option.isSome_iff_exists.mp (List.find?_isSome.mpr (List.any_eq_true.mp h))
  obtain ⟨hpx, pre, post, rfl, hpre⟩ := List.find?_eq_some_iff_append.mp hx
  refine ⟨pre, x, post, rfl, ?_, hpx⟩
  rw [List.any_eq_false]
  exact fun y hy hpy => by simpa [hpy] using hpre y hy

/-- An entry of which the name or the value is hit. -/
theorem exists_filledEntry {e : String × Tag}
    (ih : marks e.2 = true → ∃ o, Filled n d e.2 o) (h : (marked e.1 || marks e.2) = true) :
    ∃ o, FilledEntry n d e o := by
  by_cases hkey : marked e.1 = true
  · obtain ⟨K, hfill, hopens, hread⟩ := exists_filled_key n hkey
    rcases hread with hread | hread
    · exact ⟨_, _, hfill.append _, readsEntry hread isGap_nil (reads_write .compact e.2 d)⟩
    · exact ⟨none, _, hfill.append _, readsEntry_none hopens hread _⟩
  · rw [Bool.not_eq_true] at hkey
    rw [hkey, Bool.false_or] at h
    obtain ⟨o, ho⟩ := ih h
    exact ⟨_, ho.entry hkey h⟩

/-- **Every marked tree is hit**, and what comes out is read or refused. -/
theorem exists_filled (t : Tag) : marks t = true → ∀ d, ∃ o, Filled n d t o := by
  induction t using induct with
  | string s =>
    intro h d
    obtain ⟨Y, o, hfill, hopens, hread⟩ := exists_filled_quote n h
    refine ⟨o, Y, ?_, hopens, hread⟩
    rwa [write, List.append_nil]
  | list elem items ih =>
    intro h d
    rw [marks, marksItems_eq] at h
    obtain ⟨pre, t, post, rfl, hpre, ht⟩ := exists_first h
    obtain ⟨o, ho⟩ := ih t (by simp) ht (d + 1)
    exact ⟨_, ho.list ht elem (by rw [marksItems_eq, hpre]) post⟩
  | compound es ih =>
    intro h d
    rw [marks, marksEntries_eq] at h
    obtain ⟨pre, e, post, rfl, hpre, he⟩ := exists_first h
    obtain ⟨o, ho⟩ := exists_filledEntry (fun h => ih e (by simp) h (d + 1)) he
    exact ⟨_, ho.compound (by rw [marksEntries_eq, hpre]) post⟩
  | _ =>
    intro h
    cases h

theorem collect_append (os ps : List (Option (String × Tag))) :
    collect (os ++ ps) = (collect os).bind fun es => (collect ps).map fun fs => es ++ fs := by
  induction os with
  | nil =>
    rw [List.nil_append, collect]
    cases collect ps <;> rfl
  | cons o os ih =>
    rw [List.cons_append, collect, collect, ih]
    cases o with
    | none => rfl
    | some e => cases collect os <;> cases collect ps <;> rfl

/-- The last value of a name is read as that of the compound. -/
theorem child?_of_collect {os : List (Option (String × Tag))} {k : String} {t : Tag}
    {post : Entries} (hk : k ∉ Assoc.keys post) {u : Tag}
    (hu : (collect (os ++ ((k, t) :: post).map readBackEntry)).map ofEntries = some u) :
    ∃ v, readBack t = some v ∧ u.child? (.key k) = some v := by
  obtain ⟨vs, hvs, rfl⟩ := Option.map_eq_some_iff.mp hu
  rw [collect_append, Option.bind_eq_some_iff] at hvs
  obtain ⟨es, -, hvs⟩ := hvs
  obtain ⟨fs, hfs, rfl⟩ := Option.map_eq_some_iff.mp hvs
  have hback : readBackEntries ((k, t) :: post) = some fs := by
    rw [readBackEntries_eq_collect]
    exact hfs
  rw [readBackEntries_eq_some] at hback
  cases hback with
  | @cons _ f _ fs he hes =>
    obtain ⟨j, v⟩ := f
    obtain ⟨rfl, hv⟩ := he
    refine ⟨v, hv, ?_⟩
    exact Assoc.lookup_ofList_append es (keys_of_readBackEntries hes ▸ hk)

theorem child?_of_readBack {pre post : Entries} {k : String} {t : Tag} (hk : k ∉ Assoc.keys post)
    {u : Tag} (hu : readBack (.compound (pre ++ (k, t) :: post)) = some u) :
    ∃ v, readBack t = some v ∧ u.child? (.key k) = some v := by
  rw [readBack, readBackEntries_eq_collect, List.map_append] at hu
  exact child?_of_collect hk hu

/-- **What comes after the place that is hit** comes out as if nothing had been filled in. -/
theorem exists_filled_before {pre post : Entries} (hpre : marksEntries pre = true)
    {k : String} (hk : k ∉ Assoc.keys post) (t : Tag) (d : ℕ) :
    ∃ o, Filled n d (.compound (pre ++ (k, t) :: post)) o ∧
      ∀ u, o = some u → ∃ v, readBack t = some v ∧ u.child? (.key k) = some v := by
  rw [marksEntries_eq] at hpre
  obtain ⟨first, e, more, rfl, hfirst, he⟩ := exists_first hpre
  obtain ⟨o, ho⟩ := exists_filledEntry (fun h => exists_filled (n := n) e.2 h (d + 1)) he
  have hassoc : first ++ e :: more ++ (k, t) :: post = first ++ e :: (more ++ (k, t) :: post) := by
    simp
  rw [hassoc]
  refine ⟨_, ho.compound (by rw [marksEntries_eq, hfirst]) _, fun u hu => ?_⟩
  -- the name `k` stands behind the entry that is hit, and no later entry has it
  have hsplit : first.map readBackEntry ++ o :: (more ++ (k, t) :: post).map readBackEntry =
      (first.map readBackEntry ++ o :: more.map readBackEntry) ++
        ((k, t) :: post).map readBackEntry := by simp
  rw [hsplit] at hu
  exact child?_of_collect hk hu

end Filled

end Statuary.Tag
