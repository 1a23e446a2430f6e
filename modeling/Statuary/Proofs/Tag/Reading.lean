import Statuary.Proofs.Tag.Word
import Statuary.Tag.Parser

/-!
# What a text is read as

The reader of tag trees is a family of functions that call each other, each with one step less than
it was called with. To say what becomes of a text without following these calls again and again,
this file has a **judgement** for each reader and one rule for each form of text:

* `Statuary.Tag.Reads X o` – the text `X` is read as a value, namely `o`, or is refused where `o` is
  `none`; whatever follows it, as long as that cannot continue a word;
* `Statuary.Tag.ReadsItems X os` – `X` is read as items up to a closing bracket, `os` being what
  each of them is read as on its own. Items of two kinds are refused (`Statuary.Tag.gather`);
* `Statuary.Tag.ReadsEntries X o` – `X` is read as entries up to a closing brace.

A judgement holds **for every number of steps that the length of the text allows**, so the rules can
be put together without counting, and at the top the number of steps that the reader starts with is
enough (`Statuary.Tag.Reads.parse`). Refusals are part of the judgement on purpose: a text that is
almost the text of a tree is refused somewhere in the middle, and then as a whole.
-/

namespace Statuary

/-! ### Results without their errors -/

theorem toOption_map {ε α β : Type} (f : α → β) (x : Except ε α) :
    (x.map f).toOption = x.toOption.map f := by
  cases x <;> rfl

theorem toOption_bind {ε α β : Type} (x : Except ε α) (f : α → Except ε β) :
    (x >>= f).toOption = x.toOption.bind fun a => (f a).toOption := by
  cases x <;> rfl

theorem ok_bind {ε α β : Type} (a : α) (f : α → Except ε β) : (Except.ok a >>= f) = f a := rfl

theorem bind_eq_ok {ε α β : Type} {x : Except ε α} {f : α → Except ε β} {b : β} :
    (x >>= f) = .ok b ↔ ∃ a, x = .ok a ∧ f a = .ok b := by
  cases x with
  | error e =>
    constructor
    · rintro ⟨⟩
    · rintro ⟨a, ⟨⟩, -⟩
  | ok a =>
    constructor
    · exact fun h => ⟨a, rfl, h⟩
    · rintro ⟨a, ⟨⟩, h⟩
      exact h

theorem map_eq_ok {ε α β : Type} {x : Except ε α} {f : α → β} {b : β} :
    x.map f = .ok b ↔ ∃ a, x = .ok a ∧ f a = b := by
  cases x with
  | error e =>
    constructor
    · rintro ⟨⟩
    · rintro ⟨a, ⟨⟩, -⟩
  | ok a =>
    constructor
    · exact fun h => ⟨a, rfl, Except.ok.inj h⟩
    · rintro ⟨a, ⟨⟩, rfl⟩
      rfl

theorem mapError_eq_ok {ε ε' α : Type} {x : Except ε α} {f : ε → ε'} {a : α} :
    x.mapError f = .ok a ↔ x = .ok a := by
  cases x with
  | error e =>
    constructor
    · rintro ⟨⟩
    · rintro ⟨⟩
  | ok b =>
    constructor
    · rintro ⟨⟩
      rfl
    · rintro ⟨⟩
      rfl

theorem forall₂_of_mapM {ε α β : Type} {f : α → Except ε β} {as : List α} {bs : List β}
    (h : as.mapM f = .ok bs) : List.Forall₂ (fun a b => f a = .ok b) as bs := by
  induction as generalizing bs with
  | nil =>
    cases h
    exact .nil
  | cons a as ih =>
    rw [List.mapM_cons] at h
    obtain ⟨b, hb, h⟩ := bind_eq_ok.mp h
    obtain ⟨bs', hbs, h⟩ := bind_eq_ok.mp h
    cases h
    exact .cons hb (ih hbs)

theorem exists_mapM {ε α β : Type} {f : α → Except ε β} {as : List α}
    (h : ∀ a ∈ as, ∃ b, f a = .ok b) : ∃ bs, as.mapM f = .ok bs := by
  induction as with
  | nil => exact ⟨[], rfl⟩
  | cons a as ih =>
    obtain ⟨⟨b, hb⟩, has⟩ := List.forall_mem_cons.mp h
    obtain ⟨bs, hbs⟩ := ih has
    refine ⟨b :: bs, ?_⟩
    rw [List.mapM_cons, hb, ok_bind, hbs, ok_bind]
    rfl

theorem eq_ok_of_toOption {ε α : Type} {x : Except ε α} {a : α} (h : x.toOption = some a) :
    x = .ok a := by
  cases x with
  | error e => cases h
  | ok b => exact congrArg Except.ok (Option.some.inj h)

namespace Tag

/-! ### Blanks and words -/

/-- A text of blanks. -/
def IsGap (g : List Char) : Prop :=
  ∀ c ∈ g, isGap c = true

theorem isGap_nil : IsGap [] := by
  intro c hc
  cases hc

theorem skipGap_append {g : List Char} (hg : IsGap g) (cs : List Char) :
    skipGap (g ++ cs) = skipGap cs :=
  List.dropWhile_append_of_pos hg

theorem skipGap_cons {c : Char} (hc : isGap c = false) (cs : List Char) :
    skipGap (c :: cs) = c :: cs := by
  simp [skipGap, hc]

/-- A text is its blanks and what follows them. -/
theorem exists_gap (cs : List Char) : ∃ g, IsGap g ∧ cs = g ++ skipGap cs :=
  ⟨cs.takeWhile isGap, fun _ hc => List.all_eq_true.mp List.all_takeWhile _ hc,
    List.takeWhile_append_dropWhile.symm⟩

/-- The text cannot continue a word. -/
def EndsWord (rest : List Char) : Prop :=
  ∀ c ∈ rest.head?, isBareChar c = false

theorem endsWord_cons {c : Char} (hc : isBareChar c = false) (rest : List Char) :
    EndsWord (c :: rest) := by
  rintro d ⟨⟩
  exact hc

theorem isBareChar_of_isGap {c : Char} (hc : isGap c = true) : isBareChar c = false := by
  simp only [isGap, Bool.or_eq_true, beq_iff_eq] at hc
  rcases hc with ((rfl | rfl) | rfl) | rfl <;> rfl

theorem isGap_of_isBareChar {c : Char} (hc : isBareChar c = true) : isGap c = false := by
  cases h : isGap c with
  | false => rfl
  | true => rw [isBareChar_of_isGap h] at hc; cases hc

theorem endsWord_gap {g rest : List Char} (hg : IsGap g) (hrest : EndsWord rest) :
    EndsWord (g ++ rest) := by
  cases g with
  | nil => exact hrest
  | cons c g => exact endsWord_cons (isBareChar_of_isGap (hg c (List.mem_cons_self ..))) _

theorem span_word {w rest : List Char} (hw : IsWord w) (hrest : EndsWord rest) :
    (w ++ rest).span isBareChar = (w, rest) := by
  rw [List.span_eq_takeWhile_dropWhile, List.takeWhile_append_of_pos hw.2,
    List.dropWhile_append_of_pos hw.2]
  cases rest with
  | nil => simp
  | cons c rest =>
    have hc : isBareChar c = false := hrest c rfl
    simp [hc]

/-! ### Texts between quotes -/

/-- The characters of a text as they stand between quotes. -/
def escaped (cs : List Char) : List Char :=
  cs.flatMap fun c => if c = '"' ∨ c = '\\' then ['\\', c] else [c]

theorem quote_eq (s : String) : quote s = '"' :: (escaped s.toList ++ ['"']) := rfl

theorem escaped_cons (c : Char) (cs : List Char) :
    escaped (c :: cs) = (if c = '"' ∨ c = '\\' then ['\\', c] else [c]) ++ escaped cs := rfl

theorem readQuoted_escaped (cs rest : List Char) :
    readQuoted '"' (escaped cs ++ '"' :: rest) = .ok (cs, rest) := by
  induction cs with
  | nil =>
    change readQuoted '"' ('"' :: rest) = _
    simp [readQuoted]
  | cons c cs ih =>
    rw [escaped_cons]
    by_cases hc : c = '"' ∨ c = '\\'
    · have hesc : isEscapable c = true := by rcases hc with rfl | rfl <;> rfl
      rw [if_pos hc]
      change readQuoted '"' ('\\' :: c :: (escaped cs ++ '"' :: rest)) = _
      simp only [readQuoted, hesc, if_true, ih]
      rfl
    · obtain ⟨hq, hb⟩ := not_or.mp hc
      rw [if_neg hc]
      change readQuoted '"' (c :: (escaped cs ++ '"' :: rest)) = _
      rw [readQuoted]
      · rw [if_neg hq, ih]
        rfl
      · exact hb

/-- A quote begins nothing but a text. -/
theorem ne_of_isQuote {q : Char} (hq : isQuote q = true) :
    isGap q = false ∧ q ≠ '{' ∧ q ≠ '[' ∧ q ≠ '}' ∧ q ≠ '\\' := by
  simp only [isQuote, Bool.or_eq_true, beq_iff_eq] at hq
  rcases hq with rfl | rfl <;> decide

theorem ne_of_isBareChar {c d : Char} (hc : isBareChar c = true) (hd : isBareChar d = false) :
    c ≠ d := by
  rintro rfl
  rw [hc] at hd
  cases hd

theorem isQuote_of_isBareChar {c : Char} (hc : isBareChar c = true) : isQuote c = false := by
  rw [isQuote, Bool.or_eq_false_iff]
  exact ⟨beq_eq_false_iff_ne.mpr (ne_of_isBareChar hc rfl),
    beq_eq_false_iff_ne.mpr (ne_of_isBareChar hc rfl)⟩

/-! ### The judgements -/

/-- **The text is read as a value**, or refused, before any text that cannot continue a word. -/
def Reads (X : List Char) (o : Option Tag) : Prop :=
  ∀ n rest, EndsWord rest → 3 * (X.length + rest.length) ≤ n →
    (readValue n (X ++ rest)).toOption = o.map (·, rest)

/-- The items that single readings give: each must be there, and of the kind of those before. -/
def gather (elem : Option Kind) : List (Option Tag) → Option (List Tag)
  | [] => some []
  | o :: os =>
    o.bind fun t =>
      if elem.any (· ≠ t.kind) then none else (gather (some t.kind) os).map (t :: ·)

/-- The text is read as items, up to a closing bracket. -/
def ReadsItems (X : List Char) (os : List (Option Tag)) : Prop :=
  ∀ n elem rest, 3 * (X.length + 1 + rest.length) + 1 ≤ n →
    (readItems n elem (X ++ ']' :: rest)).toOption = (gather elem os).map (·, rest)

/-- The text is read as entries, up to a closing brace. -/
def ReadsEntries (X : List Char) (o : Option Entries) : Prop :=
  ∀ n rest, 3 * (X.length + 1 + rest.length) + 1 ≤ n →
    (readEntries n (X ++ '}' :: rest)).toOption = o.map (·, rest)

/-- What follows an item: another one, or the closing bracket. -/
def itemsAfter (n : ℕ) (t : Tag) : List Char → Option (List Tag × List Char)
  | ',' :: rest => ((readItems n (some t.kind) rest).toOption).map fun s => (t :: s.1, s.2)
  | ']' :: rest => some ([t], rest)
  | _ => none

/-- What follows an entry: another one, or the closing brace. -/
def entriesAfter (n : ℕ) (e : String × Tag) : List Char → Option (Entries × List Char)
  | ',' :: rest => ((readEntries n rest).toOption).map fun s => (e :: s.1, s.2)
  | '}' :: rest => some ([e], rest)
  | _ => none

/-- The text starts with a character that is no blank and closes no compound. -/
def OpensEntry (X : List Char) : Prop :=
  ∃ c cs, X = c :: cs ∧ isGap c = false ∧ c ≠ '}'

/-- The text is read as an entry of a compound. -/
structure ReadsEntry (E : List Char) (o : Option (String × Tag)) : Prop where
  /-- It is not taken for the end of a compound. -/
  head : OpensEntry E
  /-- It is read as the entry, before any text that cannot continue a word. -/
  read : ∀ n rest, EndsWord rest → 3 * (E.length + rest.length) ≤ n →
    (readEntries (n + 1) (E ++ rest)).toOption = o.bind fun e => entriesAfter n e (skipGap rest)

/-- The text is read as a name. -/
structure ReadsKey (K : List Char) (name : String) : Prop where
  /-- It is not taken for the end of a compound. -/
  head : OpensEntry K
  /-- It is read as the name, whatever follows. -/
  read : ∀ rest, EndsWord rest → readKey (K ++ rest) = .ok (name, rest)

/-- The text starts with a character that opens a value and neither closes a list nor names the kind
of an array. -/
def Opens (X : List Char) : Prop :=
  ∃ c cs, X = c :: cs ∧ isGap c = false ∧ c ≠ ']' ∧ c ≠ 'B' ∧ c ≠ 'I' ∧ c ≠ 'L'

theorem Opens.append {X : List Char} (h : Opens X) (rest : List Char) : Opens (X ++ rest) := by
  obtain ⟨c, cs, rfl, hc⟩ := h
  exact ⟨c, cs ++ rest, rfl, hc⟩

theorem OpensEntry.append {X : List Char} (h : OpensEntry X) (rest : List Char) :
    OpensEntry (X ++ rest) := by
  obtain ⟨c, cs, rfl, hc⟩ := h
  exact ⟨c, cs ++ rest, rfl, hc⟩

/-- Texts with something between them start as the first one does. -/
theorem intercalate_cons (sep x : List Char) (xs : List (List Char)) :
    ∃ rest, sep.intercalate (x :: xs) = x ++ rest := by
  cases xs with
  | nil => exact ⟨[], by rw [List.intercalate_singleton, List.append_nil]⟩
  | cons y ys => exact ⟨_, (List.intercalate_cons_cons ..).trans (List.append_assoc ..)⟩

/-! ### Words, quoted texts and blanks -/

theorem readValue_gap {g : List Char} (hg : IsGap g) (n : ℕ) (cs : List Char) :
    (readValue n (g ++ cs)).toOption = (readValue n cs).toOption := by
  cases n with
  | zero => rfl
  | succ n => rw [readValue, readValue, skipGap_append hg]

theorem Reads.gap {g X : List Char} {o : Option Tag} (hg : IsGap g) (h : Reads X o) :
    Reads (g ++ X) o := by
  intro n rest hrest hn
  rw [List.length_append] at hn
  rw [List.append_assoc, readValue_gap hg, h n rest hrest (by omega)]

theorem reads_word {w : List Char} (hw : IsWord w) : Reads w (some (scalar w)) := by
  intro n rest hrest hn
  obtain ⟨c, cs, rfl, hc⟩ := hw.head
  have hspan := span_word hw hrest
  obtain ⟨n, rfl⟩ : ∃ k, n = k + 1 := ⟨n - 1, by simp only [List.length_cons] at hn; omega⟩
  rw [List.cons_append] at hspan
  rw [List.cons_append, readValue, skipGap_cons (isGap_of_isBareChar hc)]
  have hne : ∀ d, isBareChar d = false → c ≠ d := fun _ => ne_of_isBareChar hc
  simp only [if_neg (hne '{' rfl), if_neg (hne '[' rfl), isQuote_of_isBareChar hc,
    if_neg (hne '\x00' rfl), hspan]
  rfl

/-- A text between quotes is read as what stands there. -/
theorem reads_quoted {q : Char} (hq : isQuote q = true) {X s : List Char}
    (h : ∀ rest, readQuoted q (X ++ q :: rest) = .ok (s, rest)) :
    Reads (q :: (X ++ [q])) (some (.string (String.ofList s))) := by
  intro n rest _ hn
  obtain ⟨n, rfl⟩ : ∃ k, n = k + 1 := ⟨n - 1, by simp only [List.length_cons] at hn; omega⟩
  obtain ⟨hgap, hbrace, hbracket, -⟩ := ne_of_isQuote hq
  rw [List.cons_append, List.append_assoc, readValue, skipGap_cons hgap]
  simp only [if_neg hbrace, if_neg hbracket, hq, if_true, List.singleton_append, h rest]
  simp [Except.map, Except.toOption]

theorem reads_quote (s : String) : Reads (quote s) (some (.string s)) := by
  rw [quote_eq, ← String.ofList_toList (s := s), String.toList_ofList]
  exact reads_quoted rfl (readQuoted_escaped s.toList)

theorem readsKey_word {w : List Char} (hw : IsWord w) : ReadsKey w (String.ofList w) := by
  obtain ⟨c, cs, rfl, hc⟩ := hw.head
  refine ⟨⟨c, cs, rfl, isGap_of_isBareChar hc, ne_of_isBareChar hc rfl⟩, fun rest hrest => ?_⟩
  have hspan := span_word hw hrest
  rw [List.cons_append] at hspan
  rw [List.cons_append, readKey]
  simp only [isQuote_of_isBareChar hc, hspan]
  rfl

theorem readsKey_quoted {q : Char} (hq : isQuote q = true) {X s : List Char}
    (h : ∀ rest, readQuoted q (X ++ q :: rest) = .ok (s, rest)) :
    ReadsKey (q :: (X ++ [q])) (String.ofList s) := by
  obtain ⟨hgap, -, -, hclose, -⟩ := ne_of_isQuote hq
  refine ⟨⟨q, _, rfl, hgap, hclose⟩, fun rest _ => ?_⟩
  rw [List.cons_append, List.append_assoc, readKey]
  simp only [hq, if_true, List.singleton_append, h rest]
  simp [Except.map]

theorem readsKey_quote (s : String) : ReadsKey (quote s) s := by
  rw [quote_eq, ← String.ofList_toList (s := s), String.toList_ofList]
  exact readsKey_quoted rfl (readQuoted_escaped s.toList)

/-- A name is read as it is written, with quotes or without. -/
theorem readsKey_keyText (name : String) : ReadsKey (keyText name) name := by
  rw [keyText]
  split_ifs with h
  · rw [Bool.and_eq_true, Bool.not_eq_true', List.isEmpty_eq_false_iff, List.all_eq_true] at h
    simpa using readsKey_word (w := name.toList) ⟨h.1, h.2⟩
  · exact readsKey_quote name

/-! ### Lists -/

theorem readItems_toOption (n : ℕ) (elem : Option Kind) (cs : List Char) :
    (readItems (n + 1) elem cs).toOption = (readValue n cs).toOption.bind fun r =>
      if elem.any (· ≠ r.1.kind) then none else itemsAfter n r.1 (skipGap r.2) := by
  rw [readItems, toOption_bind]
  congr 1
  funext ⟨t, rest⟩
  dsimp only
  generalize skipGap rest = ds
  split_ifs with h
  · rfl
  · split
    · exact toOption_map ..
    · rfl
    · rename_i hcomma hclose
      rw [itemsAfter]
      · rfl
      · exact hcomma
      · exact hclose

/-- Blanks before the first item are passed over. -/
theorem readItems_skipGap (n : ℕ) (elem : Option Kind) (cs : List Char) :
    (readItems n elem (skipGap cs)).toOption = (readItems n elem cs).toOption := by
  cases n with
  | zero => rw [readItems, readItems]; rfl
  | succ n =>
    obtain ⟨g, hg, hsplit⟩ := exists_gap cs
    rw [readItems_toOption, readItems_toOption, ← readValue_gap hg, ← hsplit]

theorem ReadsItems.gap {g Y : List Char} {os : List (Option Tag)} (hg : IsGap g)
    (h : ReadsItems Y os) : ReadsItems (g ++ Y) os := by
  intro n elem rest hn
  rw [List.length_append] at hn
  obtain ⟨n, rfl⟩ : ∃ k, n = k + 1 := ⟨n - 1, by omega⟩
  rw [← h (n + 1) elem rest (by omega), readItems_toOption, readItems_toOption, List.append_assoc,
    readValue_gap hg]

theorem ReadsItems.one {X g : List Char} {o : Option Tag} (h : Reads X o) (hg : IsGap g) :
    ReadsItems (X ++ g) [o] := by
  intro n elem rest hn
  obtain ⟨n, rfl⟩ : ∃ k, n = k + 1 := ⟨n - 1, by omega⟩
  rw [List.length_append] at hn
  rw [readItems_toOption, List.append_assoc,
    h n (g ++ ']' :: rest) (endsWord_gap hg (endsWord_cons rfl rest))
      (by simp only [List.length_append, List.length_cons]; omega)]
  cases o with
  | none => rfl
  | some t =>
    simp only [Option.map_some, Option.bind_some, skipGap_append hg,
      skipGap_cons (show isGap ']' = false from rfl), gather, itemsAfter]
    split_ifs <;> rfl

theorem ReadsItems.cons {X Y g : List Char} {o : Option Tag} {os : List (Option Tag)}
    (h : Reads X o) (hg : IsGap g) (hs : ReadsItems Y os) :
    ReadsItems (X ++ (g ++ ',' :: Y)) (o :: os) := by
  intro n elem rest hn
  simp only [List.length_append, List.length_cons] at hn
  obtain ⟨n, rfl⟩ : ∃ k, n = k + 1 := ⟨n - 1, by omega⟩
  rw [readItems_toOption, List.append_assoc, List.append_assoc, List.cons_append,
    h n (g ++ ',' :: (Y ++ ']' :: rest)) (endsWord_gap hg (endsWord_cons rfl _))
      (by simp only [List.length_append, List.length_cons]; omega)]
  cases o with
  | none => rfl
  | some t =>
    simp only [Option.map_some, Option.bind_some, skipGap_append hg,
      skipGap_cons (show isGap ',' = false from rfl), gather, itemsAfter,
      hs n (some t.kind) rest (by omega)]
    split_ifs
    · rfl
    · simp only [Option.map_map]
      rfl

/-- Of texts with a separator between them, the first one stands apart. -/
theorem intercalate_map_append {α : Type} (text : α → List Char) (sep trail : List Char) (x y : α)
    (ys : List α) : sep.intercalate ((x :: y :: ys).map text) ++ trail =
      text x ++ (sep ++ (sep.intercalate ((y :: ys).map text) ++ trail)) := by
  simp only [List.map_cons, List.intercalate_cons_cons, List.append_assoc]

/-- Items with commas between them, given the text of each and what it is read as. -/
theorem ReadsItems.intercalate {α : Type} {text : α → List Char} {result : α → Option Tag}
    {g trail : List Char} (hg : IsGap g) (htrail : IsGap trail) (x : α) (xs : List α)
    (h : ∀ y ∈ x :: xs, Reads (text y) (result y)) :
    ReadsItems ((',' :: g).intercalate ((x :: xs).map text) ++ trail) ((x :: xs).map result) := by
  induction xs generalizing x with
  | nil =>
    rw [List.map_singleton, List.intercalate_singleton]
    exact ReadsItems.one (h x (List.mem_cons_self ..)) htrail
  | cons y ys ih =>
    obtain ⟨hx, hys⟩ := List.forall_mem_cons.mp h
    rw [intercalate_map_append, List.cons_append]
    exact ReadsItems.cons hx isGap_nil (ReadsItems.gap hg (ih y hys))

/-- A list, given what its items are read as. -/
def listOf (items : List Tag) : Tag :=
  .list ((items.head?.map Tag.kind).getD .untyped) items

theorem readBracket_list {cs : List Char} (hB : ∀ ds, cs ≠ 'B' :: ';' :: ds)
    (hI : ∀ ds, cs ≠ 'I' :: ';' :: ds) (hL : ∀ ds, cs ≠ 'L' :: ';' :: ds)
    (hclose : ∀ ds, skipGap cs ≠ ']' :: ds) (n : ℕ) :
    readBracket (n + 1) cs = (readItems n none (skipGap cs)).map fun r => (listOf r.1, r.2) := by
  rw [readBracket]
  · split
    · exact absurd ‹_› (hclose _)
    · rfl
  · exact hB
  · exact hI
  · exact hL

/-- A list is read if its text is neither that of an array nor at once at its end. -/
theorem reads_bracket {Y : List Char} {os : List (Option Tag)}
    (harray : ∀ c ∈ ['B', 'I', 'L'], ∀ rest ds, Y ++ ']' :: rest ≠ c :: ';' :: ds)
    (hclose : ∀ rest ds, skipGap (Y ++ ']' :: rest) ≠ ']' :: ds) (h : ReadsItems Y os) :
    Reads ('[' :: (Y ++ [']'])) ((gather none os).map listOf) := by
  intro n rest _ hn
  simp only [List.length_append, List.length_cons, List.length_nil] at hn
  obtain ⟨n, rfl⟩ : ∃ k, n = k + 2 := ⟨n - 2, by omega⟩
  have hrest : Y ++ [']'] ++ rest = Y ++ ']' :: rest := by simp
  rw [List.cons_append, hrest, readValue, skipGap_cons rfl]
  change (readBracket (n + 1) (Y ++ ']' :: rest)).toOption = _
  have hread := h n none rest (by omega)
  rw [readBracket_list (harray _ (by simp) _) (harray _ (by simp) _) (harray _ (by simp) _)
    (hclose rest), toOption_map, readItems_skipGap, hread, Option.map_map, Option.map_map]
  rfl

theorem reads_list {g Y : List Char} {os : List (Option Tag)} (hg : IsGap g) (hY : Opens Y)
    (h : ReadsItems Y os) : Reads ('[' :: (g ++ Y ++ [']'])) ((gather none os).map listOf) := by
  obtain ⟨c, cs, rfl, hc, hclose, hB, hI, hL⟩ := hY
  refine reads_bracket (fun d hd rest ds he => ?_) (fun rest ds he => ?_) (h.gap hg)
  · cases g with
    | nil =>
      have hcd : c = d := (List.cons.inj he).1
      simp only [List.mem_cons, List.not_mem_nil, or_false] at hd
      rcases hd with rfl | rfl | rfl
      · exact hB hcd
      · exact hI hcd
      · exact hL hcd
    | cons e g =>
      have hgap := hg e (List.mem_cons_self ..)
      rw [(List.cons.inj he).1] at hgap
      simp only [List.mem_cons, List.not_mem_nil, or_false] at hd
      rcases hd with rfl | rfl | rfl <;> cases hgap
  · rw [List.append_assoc, skipGap_append hg, List.cons_append, skipGap_cons hc] at he
    exact hclose (List.cons.inj he).1

/-- A list without items. -/
theorem reads_gap_list {g : List Char} (hg : IsGap g) :
    Reads ('[' :: (g ++ [']'])) (some (.list .untyped [])) := by
  intro n rest _ hn
  simp only [List.length_append, List.length_cons, List.length_nil] at hn
  obtain ⟨n, rfl⟩ : ∃ k, n = k + 2 := ⟨n - 2, by omega⟩
  have hrest : g ++ [']'] ++ rest = g ++ ']' :: rest := by simp
  have hskip : skipGap (g ++ ']' :: rest) = ']' :: rest := by
    rw [skipGap_append hg, skipGap_cons rfl]
  rw [List.cons_append, hrest, readValue, skipGap_cons rfl]
  change (readBracket (n + 1) (g ++ ']' :: rest)).toOption = _
  have harray : ∀ c ds, isBareChar c = true → g ++ ']' :: rest ≠ c :: ds := by
    intro c ds hc he
    have hends := endsWord_gap hg (endsWord_cons (c := ']') rfl rest)
    rw [he] at hends
    rw [hends c rfl] at hc
    cases hc
  rw [readBracket]
  · rw [hskip]
    rfl
  · exact fun ds => harray _ _ rfl
  · exact fun ds => harray _ _ rfl
  · exact fun ds => harray _ _ rfl

theorem reads_nil : Reads ['[', ']'] (some (.list .untyped [])) :=
  reads_gap_list isGap_nil

/-! ### Compounds -/

theorem readEntries_key {K : List Char} {name : String} (hK : ReadsKey K name) {g : List Char}
    (hg : IsGap g) (n : ℕ) (cs : List Char) :
    (readEntries (n + 1) (K ++ (g ++ ':' :: cs))).toOption =
      (readValue n cs).toOption.bind fun r => entriesAfter n (name, r.1) (skipGap r.2) := by
  have hskip : skipGap (K ++ (g ++ ':' :: cs)) = K ++ (g ++ ':' :: cs) := by
    obtain ⟨c, ds, rfl, hc, -⟩ := hK.head
    rw [List.cons_append, skipGap_cons hc]
  have hexpect : expect ':' (g ++ ':' :: cs) = .ok cs := by
    rw [expect, skipGap_append hg, skipGap_cons rfl]
    rfl
  rw [readEntries, hskip, hK.read _ (endsWord_gap hg (endsWord_cons rfl _))]
  simp only [ok_bind, hexpect]
  rw [toOption_bind]
  congr 1
  funext ⟨t, rest⟩
  dsimp only
  generalize skipGap rest = ds
  split
  · exact toOption_map ..
  · rfl
  · rename_i hcomma hclose
    rw [entriesAfter]
    · rfl
    · exact hcomma
    · exact hclose

/-- An entry with blanks before its colon. -/
theorem readsEntry_gap {K X g : List Char} {name : String} {o : Option Tag} (hK : ReadsKey K name)
    (hg : IsGap g) (h : Reads X o) :
    ReadsEntry (K ++ (g ++ ':' :: X)) (o.map fun t => (name, t)) := by
  constructor
  · exact hK.head.append _
  · intro n rest hrest hn
    simp only [List.length_append, List.length_cons] at hn
    have hassoc : K ++ (g ++ ':' :: X) ++ rest = K ++ (g ++ ':' :: (X ++ rest)) := by simp
    rw [hassoc, readEntries_key hK hg, h n rest hrest (by omega)]
    cases o <;> rfl

theorem readsEntry {K X g : List Char} {name : String} {o : Option Tag} (hK : ReadsKey K name)
    (hg : IsGap g) (h : Reads X o) :
    ReadsEntry (K ++ ':' :: (g ++ X)) (o.map fun t => (name, t)) :=
  readsEntry_gap hK isGap_nil (h.gap hg)

/-- An entry whose name cannot be read. -/
theorem readsEntry_none {K : List Char} (hhead : OpensEntry K)
    (h : ∀ rest, (readKey (K ++ rest)).toOption = none) (X : List Char) :
    ReadsEntry (K ++ X) none := by
  obtain ⟨c, cs, rfl, hc, hne⟩ := hhead
  refine ⟨⟨c, _, rfl, hc, hne⟩, fun n rest _ _ => ?_⟩
  have hskip : skipGap (c :: cs ++ X ++ rest) = c :: cs ++ (X ++ rest) := by
    rw [List.append_assoc, List.cons_append, skipGap_cons hc]
  rw [readEntries, hskip, toOption_bind, h]
  rfl

/-- Blanks after an entry are passed over. -/
theorem ReadsEntry.gap {E g : List Char} {o : Option (String × Tag)} (h : ReadsEntry E o)
    (hg : IsGap g) : ReadsEntry (E ++ g) o := by
  refine ⟨h.head.append g, fun n rest hrest hn => ?_⟩
  rw [List.length_append] at hn
  rw [List.append_assoc, h.read n (g ++ rest) (endsWord_gap hg hrest)
    (by rw [List.length_append]; omega), skipGap_append hg]

theorem ReadsEntries.gap {g Y : List Char} {o : Option Entries} (hg : IsGap g)
    (h : ReadsEntries Y o) : ReadsEntries (g ++ Y) o := by
  intro n rest hn
  rw [List.length_append] at hn
  obtain ⟨n, rfl⟩ : ∃ k, n = k + 1 := ⟨n - 1, by omega⟩
  rw [← h (n + 1) rest (by omega), readEntries, readEntries, List.append_assoc, skipGap_append hg]

theorem ReadsEntries.one {E g : List Char} {o : Option (String × Tag)} (h : ReadsEntry E o)
    (hg : IsGap g) : ReadsEntries (E ++ g) (o.map fun e => [e]) := by
  intro n rest hn
  simp only [List.length_append] at hn
  obtain ⟨n, rfl⟩ : ∃ k, n = k + 1 := ⟨n - 1, by omega⟩
  rw [List.append_assoc, h.read n (g ++ '}' :: rest) (endsWord_gap hg (endsWord_cons rfl rest))
    (by simp only [List.length_append, List.length_cons]; omega)]
  cases o with
  | none => rfl
  | some e =>
    simp only [Option.map_some, Option.bind_some, entriesAfter, skipGap_append hg,
      skipGap_cons (show isGap '}' = false from rfl)]

theorem ReadsEntries.cons {E Y : List Char} {o : Option (String × Tag)} {os : Option Entries}
    (h : ReadsEntry E o) (hs : ReadsEntries Y os) :
    ReadsEntries (E ++ ',' :: Y) (o.bind fun e => os.map fun es => e :: es) := by
  intro n rest hn
  simp only [List.length_append, List.length_cons] at hn
  obtain ⟨n, rfl⟩ : ∃ k, n = k + 1 := ⟨n - 1, by omega⟩
  rw [List.append_assoc, List.cons_append,
    h.read n (',' :: (Y ++ '}' :: rest)) (endsWord_cons rfl _)
      (by simp only [List.length_append, List.length_cons]; omega)]
  cases o with
  | none => rfl
  | some e =>
    simp only [Option.bind_some, entriesAfter, skipGap_cons (show isGap ',' = false from rfl),
      hs n rest (by omega), Option.map_map]
    rfl

/-- The entries that single readings give: each must be there. -/
def collect : List (Option (String × Tag)) → Option Entries
  | [] => some []
  | o :: os => o.bind fun e => (collect os).map fun es => e :: es

/-- Entries with commas between them, given the text of each and what it is read as. -/
theorem ReadsEntries.intercalate {α : Type} {text : α → List Char}
    {result : α → Option (String × Tag)} {g trail : List Char} (hg : IsGap g) (htrail : IsGap trail)
    (x : α) (xs : List α) (h : ∀ y ∈ x :: xs, ReadsEntry (text y) (result y)) :
    ReadsEntries ((',' :: g).intercalate ((x :: xs).map text) ++ trail)
      (collect ((x :: xs).map result)) := by
  induction xs generalizing x with
  | nil =>
    have hone : collect [result x] = (result x).map fun e => [e] := by
      rw [collect, collect]
      cases result x <;> rfl
    rw [List.map_singleton, List.map_singleton, List.intercalate_singleton, hone]
    exact ReadsEntries.one (h x (List.mem_cons_self ..)) htrail
  | cons y ys ih =>
    obtain ⟨hx, hys⟩ := List.forall_mem_cons.mp h
    rw [intercalate_map_append, List.cons_append]
    exact ReadsEntries.cons hx (ReadsEntries.gap hg (ih y hys))

theorem readCompound_entries {cs : List Char} (hclose : ∀ ds, skipGap cs ≠ '}' :: ds) (n : ℕ) :
    readCompound (n + 1) cs = (readEntries n cs).map fun r => (ofEntries r.1, r.2) := by
  rw [readCompound]
  split
  · exact absurd ‹_› (hclose _)
  · rfl

/-- A compound is read if its text is not at once at its end. -/
theorem reads_brace {Y : List Char} {o : Option Entries}
    (hclose : ∀ rest ds, skipGap (Y ++ '}' :: rest) ≠ '}' :: ds) (h : ReadsEntries Y o) :
    Reads ('{' :: (Y ++ ['}'])) (o.map ofEntries) := by
  intro n rest _ hn
  simp only [List.length_append, List.length_cons, List.length_nil] at hn
  obtain ⟨n, rfl⟩ : ∃ k, n = k + 2 := ⟨n - 2, by omega⟩
  have hrest : Y ++ ['}'] ++ rest = Y ++ '}' :: rest := by simp
  rw [List.cons_append, hrest, readValue, skipGap_cons rfl]
  change (readCompound (n + 1) (Y ++ '}' :: rest)).toOption = _
  rw [readCompound_entries (hclose rest), toOption_map, h n rest (by omega), Option.map_map,
    Option.map_map]
  rfl

theorem reads_compound {g Y : List Char} {o : Option Entries} (hg : IsGap g)
    (hY : OpensEntry Y) (h : ReadsEntries Y o) :
    Reads ('{' :: (g ++ Y ++ ['}'])) (o.map ofEntries) := by
  refine reads_brace (fun rest ds he => ?_) (h.gap hg)
  obtain ⟨c, cs, rfl, hc, hne⟩ := hY
  rw [List.append_assoc, skipGap_append hg, List.cons_append, skipGap_cons hc] at he
  exact hne (List.cons.inj he).1

/-- A compound without entries. -/
theorem reads_gap_compound {g : List Char} (hg : IsGap g) :
    Reads ('{' :: (g ++ ['}'])) (some (.compound [])) := by
  intro n rest _ hn
  simp only [List.length_append, List.length_cons, List.length_nil] at hn
  obtain ⟨n, rfl⟩ : ∃ k, n = k + 2 := ⟨n - 2, by omega⟩
  have hrest : g ++ ['}'] ++ rest = g ++ '}' :: rest := by simp
  have hskip : skipGap (g ++ '}' :: rest) = '}' :: rest := by
    rw [skipGap_append hg, skipGap_cons rfl]
  rw [List.cons_append, hrest, readValue, skipGap_cons rfl]
  change (readCompound (n + 1) (g ++ '}' :: rest)).toOption = _
  rw [readCompound, hskip]
  rfl

theorem reads_empty : Reads ['{', '}'] (some (.compound [])) :=
  reads_gap_compound isGap_nil

/-! ### Arrays -/

section Array

variable {α : Type} {pick : Tag → Option α} {word : α → List Char}

theorem skipGap_word {g w : List Char} (hg : IsGap g) (hw : IsWord w) (cs : List Char) :
    skipGap (g ++ (w ++ cs)) = w ++ cs := by
  obtain ⟨c, ds, rfl, hc⟩ := hw.head
  rw [skipGap_append hg, List.cons_append, skipGap_cons (isGap_of_isBareChar hc)]

/-- The last element of an array. -/
theorem readElements_one (letter : Char) {g w g' : List Char} {a : α} (hg : IsGap g)
    (hw : IsWord w) (hpick : pick (scalar w) = some a) (hg' : IsGap g') (n : ℕ)
    (rest : List Char) :
    readElements pick letter (n + 1) (g ++ (w ++ (g' ++ ']' :: rest))) = .ok ([a], rest) := by
  have hspan := span_word hw (endsWord_gap hg' (endsWord_cons (c := ']') rfl rest))
  rw [readElements]
  simp only [skipGap_word hg hw, hspan, hpick, skipGap_append hg',
    skipGap_cons (show isGap ']' = false from rfl)]
  rfl

/-- An element of an array and those after it. -/
theorem readElements_cons (letter : Char) {g w g' : List Char} {a : α} (hg : IsGap g)
    (hw : IsWord w) (hpick : pick (scalar w) = some a) (hg' : IsGap g') (n : ℕ)
    (cs : List Char) :
    readElements pick letter (n + 1) (g ++ (w ++ (g' ++ ',' :: cs))) =
      (readElements pick letter n cs).map fun r => (a :: r.1, r.2) := by
  have hspan := span_word hw (endsWord_gap hg' (endsWord_cons (c := ',') rfl cs))
  rw [readElements]
  simp only [skipGap_word hg hw, hspan, hpick, skipGap_append hg',
    skipGap_cons (show isGap ',' = false from rfl)]

theorem readElements_words (letter : Char) (hword : ∀ a, IsWord (word a))
    (hpick : ∀ a, pick (scalar (word a)) = some a) {g : List Char} (hg : IsGap g)
    (rest : List Char) (a : α) (as : List α) {g₀ : List Char} (hg₀ : IsGap g₀) (n : ℕ)
    (hn : as.length < n) :
    readElements pick letter n
        (g₀ ++ (',' :: g).intercalate ((a :: as).map word) ++ ']' :: rest) =
      .ok (a :: as, rest) := by
  induction as generalizing a n g₀ with
  | nil =>
    obtain ⟨n, rfl⟩ : ∃ k, n = k + 1 := ⟨n - 1, by omega⟩
    have htext : g₀ ++ (',' :: g).intercalate ([a].map word) ++ ']' :: rest =
        g₀ ++ (word a ++ ([] ++ ']' :: rest)) := by simp [List.intercalate]
    rw [htext, readElements_one letter hg₀ (hword a) (hpick a) isGap_nil]
  | cons b as ih =>
    obtain ⟨n, rfl⟩ : ∃ k, n = k + 1 := ⟨n - 1, by omega⟩
    have htext : g₀ ++ (',' :: g).intercalate ((a :: b :: as).map word) ++ ']' :: rest =
        g₀ ++ (word a ++ ([] ++
          ',' :: (g ++ (',' :: g).intercalate ((b :: as).map word) ++ ']' :: rest))) := by
      simp [List.intercalate]
    rw [htext, readElements_cons letter hg₀ (hword a) (hpick a) isGap_nil,
      ih b hg n (by simp only [List.length_cons] at hn; omega)]
    rfl

theorem readArray_elements {cs : List Char} (hclose : ∀ ds, skipGap cs ≠ ']' :: ds)
    (letter : Char) (n : ℕ) : readArray pick letter n cs = readElements pick letter n cs := by
  rw [readArray]
  split
  · exact absurd ‹_› (hclose _)
  · rfl

/-- The elements of an array are read as they are written. -/
theorem readArray_words (letter : Char) (hword : ∀ a, IsWord (word a))
    (hpick : ∀ a, pick (scalar (word a)) = some a) {g : List Char} (hg : IsGap g)
    (rest : List Char) (as : List α) (n : ℕ) (hn : as.length ≤ n) :
    readArray pick letter n ((',' :: g).intercalate (as.map word) ++ ']' :: rest) =
      .ok (as, rest) := by
  cases as with
  | nil => rfl
  | cons a as =>
    have hread := readElements_words letter hword hpick hg rest a as isGap_nil n hn
    rw [List.nil_append] at hread
    rw [readArray_elements ?_, hread]
    intro ds hclose
    obtain ⟨es, hes⟩ := intercalate_cons (',' :: g) (word a) (as.map word)
    rw [List.map_cons, hes, List.append_assoc, ← List.nil_append (word a ++ _),
      skipGap_word isGap_nil (hword a)] at hclose
    have hbare := endsWord_cons (c := ']') rfl ds
    rw [← hclose] at hbare
    obtain ⟨c, cs, hc⟩ := List.exists_cons_of_ne_nil (hword a).1
    rw [hc] at hbare
    exact absurd ((hword a).2 c (by rw [hc]; exact List.mem_cons_self ..))
      (by rw [hbare c rfl]; decide)

theorem length_le_intercalate (hword : ∀ a, IsWord (word a)) (sep : List Char) (as : List α) :
    as.length ≤ (sep.intercalate (as.map word)).length := by
  induction as with
  | nil => exact Nat.zero_le _
  | cons a as ih =>
    have hpos : 0 < (word a).length := List.length_pos_iff.mpr (hword a).1
    cases as with
    | nil => simpa [List.intercalate] using Nat.succ_le_of_lt hpos
    | cons b as =>
      simp only [List.intercalate, List.map_cons, List.intersperse_cons_cons, List.flatten_cons,
        List.length_append, List.length_cons] at ih ⊢
      omega

/-- An array is read, given what its letter opens. -/
theorem reads_elements (pick : Tag → Option α) (letter : Char) (mk : List α → Tag)
    (hbracket : ∀ n cs, readBracket (n + 1) (letter :: ';' :: cs) =
      (readArray pick letter n cs).map fun r => (mk r.1, r.2))
    {X : List Char} {as : List α}
    (h : ∀ n rest, X.length ≤ n → readArray pick letter n (X ++ ']' :: rest) = .ok (as, rest)) :
    Reads ('[' :: letter :: ';' :: (X ++ [']'])) (some (mk as)) := by
  intro n rest _ hn
  simp only [List.length_append, List.length_cons, List.length_nil] at hn
  obtain ⟨n, rfl⟩ : ∃ k, n = k + 2 := ⟨n - 2, by omega⟩
  rw [List.cons_append, readValue, skipGap_cons rfl]
  change (readBracket (n + 1) (letter :: ';' :: (X ++ [']'] ++ rest))).toOption = _
  rw [hbracket, List.append_assoc, List.singleton_append, h n rest (by omega)]
  rfl

/-- An array is read as it is written. -/
theorem reads_array (pick : Tag → Option α) (letter : Char) (mk : List α → Tag)
    (hbracket : ∀ n cs, readBracket (n + 1) (letter :: ';' :: cs) =
      (readArray pick letter n cs).map fun r => (mk r.1, r.2))
    (hword : ∀ a, IsWord (word a)) (hpick : ∀ a, pick (scalar (word a)) = some a)
    {g : List Char} (hg : IsGap g) (as : List α) :
    Reads ('[' :: letter :: ';' :: ((',' :: g).intercalate (as.map word) ++ [']']))
      (some (mk as)) := by
  refine reads_elements pick letter mk hbracket fun n rest hn => ?_
  have hlen := length_le_intercalate hword (',' :: g) as
  exact readArray_words letter hword hpick hg rest as n (by omega)

end Array

/-! ### Whole texts -/

/-- **Of two values at the head of one text** neither is longer. -/
theorem Reads.unique {X X' r r' : List Char} {t t' : Tag} (h : Reads X (some t))
    (h' : Reads X' (some t')) (hr : EndsWord r) (hr' : EndsWord r') (he : X ++ r = X' ++ r') :
    X = X' ∧ t = t' ∧ r = r' := by
  have hlength := congrArg List.length he
  simp only [List.length_append] at hlength
  have hread := h (3 * (X.length + r.length)) r hr le_rfl
  rw [he, h' _ r' hr' (by omega)] at hread
  obtain ⟨rfl, rfl⟩ := Prod.mk.inj (Option.some.inj hread)
  exact ⟨List.append_cancel_right he, rfl, rfl⟩

/-- A text that is read as a value is read as it before blanks. -/
theorem Reads.parse_gap {X g : List Char} {o : Option Tag} (h : Reads X o) (hg : IsGap g) :
    (parse (String.ofList (X ++ g))).toOption = o := by
  have hends : EndsWord (g ++ []) := endsWord_gap hg fun _ hc => nomatch hc
  rw [List.append_nil] at hends
  have hread := h (steps (X ++ g)) g hends (by rw [steps, List.length_append]; omega)
  have hskip : skipGap g = [] := by rw [← List.append_nil g, skipGap_append hg]; rfl
  have hall : (readAll (X ++ g)).toOption = o := by
    rw [readAll, toOption_bind, hread]
    cases o with
    | none => rfl
    | some t => simp only [Option.map_some, Option.bind_some, hskip]; rfl
  rw [Tag.parse, String.toList_ofList]
  cases hx : readAll (X ++ g) with
  | error e =>
    rw [hx] at hall
    exact hall
  | ok t =>
    rw [hx] at hall
    exact hall

/-- A text that is read as a value is read as it on its own. -/
theorem Reads.parse {X : List Char} {o : Option Tag} (h : Reads X o) :
    (parse (String.ofList X)).toOption = o := by
  simpa using h.parse_gap isGap_nil

end Tag

end Statuary
