import Statuary.Proofs.Assoc
import Statuary.Proofs.Tag.RoundTrip

/-!
# The grammar of tag texts

Which texts are trees is said here without a reader, by a **grammar**: one type of derivations for
each kind of phrase, indexed by the text of the phrase and by what it stands for, with one
constructor for each form that the phrase can take.

```text
text     ::= value gap                       value ::= gap core
core     ::= "{" gap "}" | "{" entry ("," entry)* "}"
           | "[" gap "]" | "[" text ("," text)* "]"
           | "[B;" array | "[I;" array | "[L;" array
           | quoted | word
entry    ::= gap name gap ":" text           name  ::= quoted | word
array    ::= gap "]" | element ("," element)* "]"
element  ::= gap word gap
```

Three things are not said by the forms alone: the items of a list are of one kind, the elements of
an array are words for whole numbers of its width, and of the entries of a compound with one name
the first place and the last value count (`Statuary.Assoc.MapOf`).

That a word reaches as far as it can need not be asked for: in every form what follows a word begins
with a character that no word has.

The readers follow every derivation to its end and give what it stands for
(`Statuary.Tag.Grammar.Value.reads` and its companions). The converse, and that no text has two
derivations, is the subject of `Statuary.Proofs.Tag.Derivation`.
-/

namespace Statuary.Tag.Grammar

/-! ### Phrases -/

/-- Characters up to a quote `q`, and the characters they stand for. A backslash stands only before
a backslash or a quote. -/
inductive Quoting (q : Char) : List Char → List Char → Type where
  /-- Nothing. -/
  | nil : Quoting q [] []
  /-- A character that stands for itself. -/
  | plain {c : Char} {cs s : List Char} (hquote : c ≠ q) (hslash : c ≠ '\\')
      (more : Quoting q cs s) : Quoting q (c :: cs) (c :: s)
  /-- A character after a backslash. -/
  | escaped {c : Char} {cs s : List Char} (hc : isEscapable c = true) (more : Quoting q cs s) :
      Quoting q ('\\' :: c :: cs) (c :: s)

/-- A text between two equal quotes, and the characters it stands for. -/
inductive Quoted : List Char → List Char → Type where
  /-- A quote, characters, and the quote again. -/
  | mk {q : Char} {cs s : List Char} (hq : isQuote q = true) (inner : Quoting q cs s) :
      Quoted (q :: (cs ++ [q])) s

/-- A name. -/
inductive Name : List Char → String → Type where
  /-- A name between quotes. -/
  | quoted {cs s : List Char} (text : Quoted cs s) : Name cs (String.ofList s)
  /-- A name that is a word. -/
  | word {w : List Char} (hw : IsWord w) : Name w (String.ofList w)

section Array

variable {α : Type} (mk : α → Tag)

/-- Elements of an array, each a word for a number that is wrapped by `mk`. -/
inductive Elements : List Char → List α → Type where
  /-- The last element. -/
  | one {g w g' : List Char} {a : α} (hg : IsGap g) (hw : IsWord w) (hscalar : scalar w = mk a)
      (hg' : IsGap g') : Elements (g ++ (w ++ g')) [a]
  /-- An element and those after it. -/
  | cons {g w g' cs : List Char} {a : α} {as : List α} (hg : IsGap g) (hw : IsWord w)
      (hscalar : scalar w = mk a) (hg' : IsGap g') (more : Elements cs as) :
      Elements (g ++ (w ++ (g' ++ ',' :: cs))) (a :: as)

/-- What stands between the semicolon and the bracket of an array. -/
inductive Array : List Char → List α → Type where
  /-- No elements. -/
  | empty {g : List Char} (hg : IsGap g) : Array g []
  /-- Some elements. -/
  | elements {cs : List Char} {as : List α} (elements : Elements mk cs as) : Array cs as

end Array

mutual

/-- A value after blanks. -/
inductive Value : List Char → Tag → Type where
  /-- Blanks and the value. -/
  | mk {g cs : List Char} {t : Tag} (hg : IsGap g) (core : Core cs t) : Value (g ++ cs) t

/-- A value without blanks around it. -/
inductive Core : List Char → Tag → Type where
  /-- A compound without entries. -/
  | emptyCompound {g : List Char} (hg : IsGap g) : Core ('{' :: (g ++ ['}'])) (.compound [])
  /-- A compound with entries. -/
  | compound {cs : List Char} {es m : Entries} (entries : EntryList cs es)
      (hm : Assoc.MapOf m es) : Core ('{' :: (cs ++ ['}'])) (.compound m)
  /-- A list without items. -/
  | emptyList {g : List Char} (hg : IsGap g) : Core ('[' :: (g ++ [']'])) (.list .untyped [])
  /-- A list of items of one kind. -/
  | list {cs : List Char} {ts : List Tag} {k : Kind} (items : ItemList cs ts)
      (hk : ∀ t ∈ ts, t.kind = k) : Core ('[' :: (cs ++ [']'])) (.list k ts)
  /-- An array of numbers of 8 bits. -/
  | byteArray {cs : List Char} {vs : List Int8} (array : Array .byte cs vs) :
      Core ('[' :: 'B' :: ';' :: (cs ++ [']'])) (.byteArray vs)
  /-- An array of numbers of 32 bits. -/
  | intArray {cs : List Char} {vs : List Int32} (array : Array .int cs vs) :
      Core ('[' :: 'I' :: ';' :: (cs ++ [']'])) (.intArray vs)
  /-- An array of numbers of 64 bits. -/
  | longArray {cs : List Char} {vs : List Int64} (array : Array .long cs vs) :
      Core ('[' :: 'L' :: ';' :: (cs ++ [']'])) (.longArray vs)
  /-- A text between quotes. -/
  | quoted {cs s : List Char} (text : Quoted cs s) : Core cs (.string (String.ofList s))
  /-- A word. -/
  | word {w : List Char} (hw : IsWord w) : Core w (scalar w)

/-- A value with blanks around it: a whole text, or an item of a list. -/
inductive Text : List Char → Tag → Type where
  /-- The value and blanks. -/
  | mk {cs g : List Char} {t : Tag} (value : Value cs t) (hg : IsGap g) : Text (cs ++ g) t

/-- Items with commas between them. -/
inductive ItemList : List Char → List Tag → Type where
  /-- The last item. -/
  | one {cs : List Char} {t : Tag} (item : Text cs t) : ItemList cs [t]
  /-- An item and those after it. -/
  | cons {cs ds : List Char} {t : Tag} {ts : List Tag} (item : Text cs t)
      (more : ItemList ds ts) : ItemList (cs ++ ',' :: ds) (t :: ts)

/-- An entry of a compound. -/
inductive Entry : List Char → String × Tag → Type where
  /-- A name, a colon and a value. -/
  | mk {g k g' cs : List Char} {name : String} {t : Tag} (hg : IsGap g) (key : Name k name)
      (hg' : IsGap g') (value : Text cs t) : Entry (g ++ (k ++ (g' ++ ':' :: cs))) (name, t)

/-- Entries with commas between them. -/
inductive EntryList : List Char → Entries → Type where
  /-- The last entry. -/
  | one {cs : List Char} {e : String × Tag} (entry : Entry cs e) : EntryList cs [e]
  /-- An entry and those after it. -/
  | cons {cs ds : List Char} {e : String × Tag} {es : Entries} (entry : Entry cs e)
      (more : EntryList ds es) : EntryList (cs ++ ',' :: ds) (e :: es)

end

/-! ### How phrases begin -/

theorem Quoted.head {cs s : List Char} (d : Quoted cs s) :
    ∃ q ds, cs = q :: ds ∧ isQuote q = true := by
  cases d with
  | mk hq inner => exact ⟨_, _, rfl, hq⟩

/-- A value begins with a character that is no blank and closes nothing. -/
theorem Core.head {cs : List Char} {t : Tag} (d : Core cs t) :
    ∃ c ds, cs = c :: ds ∧ isGap c = false ∧ c ≠ ']' := by
  cases d with
  | quoted text =>
    obtain ⟨q, ds, rfl, hq⟩ := text.head
    refine ⟨q, ds, rfl, (ne_of_isQuote hq).1, ?_⟩
    rintro rfl
    cases hq
  | word hw =>
    obtain ⟨c, ds, rfl, hc⟩ := hw.head
    exact ⟨c, ds, rfl, isGap_of_isBareChar hc, ne_of_isBareChar hc rfl⟩
  | _ => exact ⟨_, _, rfl, rfl, by decide⟩

/-- Only a word begins with a letter, and no semicolon comes after it. -/
theorem Core.ne_array {cs : List Char} {t : Tag} (d : Core cs t) {rest : List Char}
    (hrest : EndsWord rest) (hsemi : rest.head? ≠ some ';') {c : Char} (hc : isBareChar c = true)
    (ds : List Char) : cs ++ rest ≠ c :: ';' :: ds := by
  intro he
  have hfirst : ∀ {a : Char} {es : List Char}, isBareChar a = false → cs = a :: es → False := by
    rintro a es ha rfl
    rw [(List.cons.inj he).1, hc] at ha
    cases ha
  cases d with
  | quoted text =>
    obtain ⟨q, es, hq, hquote⟩ := text.head
    refine hfirst ?_ hq
    simp only [isQuote, Bool.or_eq_true, beq_iff_eq] at hquote
    rcases hquote with rfl | rfl <;> rfl
  | word hw =>
    -- the word ends before the semicolon, so the semicolon would be what follows the word
    have hspan := span_word hw hrest
    have hone : IsWord [c] := ⟨List.cons_ne_nil _ _, fun d hd => List.mem_singleton.mp hd ▸ hc⟩
    have hspan' := span_word hone (endsWord_cons (c := ';') rfl ds)
    rw [he, List.singleton_append.symm, hspan'] at hspan
    exact hsemi (by rw [← (Prod.mk.inj hspan).2]; rfl)
  | _ => exact hfirst rfl rfl

theorem Value.skipGap {cs : List Char} {t : Tag} (d : Value cs t) (rest : List Char) :
    ∃ c ds, Tag.skipGap (cs ++ rest) = c :: ds ∧ c ≠ ']' := by
  cases d with
  | mk hg core =>
    obtain ⟨c, ds, rfl, hc, hne⟩ := core.head
    refine ⟨c, ds ++ rest, ?_, hne⟩
    rw [List.append_assoc, skipGap_append hg, List.cons_append, skipGap_cons hc]

theorem Value.ne_array {cs : List Char} {t : Tag} (d : Value cs t) {rest : List Char}
    (hrest : EndsWord rest) (hsemi : rest.head? ≠ some ';') {c : Char} (hc : isBareChar c = true)
    (ds : List Char) : cs ++ rest ≠ c :: ';' :: ds := by
  cases d with
  | @mk g cs _ hg core =>
    cases g with
    | nil => exact core.ne_array hrest hsemi hc ds
    | cons e g =>
      intro he
      have hgap := hg e (List.mem_cons_self ..)
      rw [(List.cons.inj he).1] at hgap
      rw [isBareChar_of_isGap hgap] at hc
      cases hc

theorem ItemList.skipGap {cs : List Char} {ts : List Tag} (d : ItemList cs ts) (rest : List Char) :
    ∃ c ds, Tag.skipGap (cs ++ rest) = c :: ds ∧ c ≠ ']' := by
  cases d with
  | one item =>
    cases item with
    | mk value hg => simpa using value.skipGap (_ ++ rest)
  | cons item more =>
    cases item with
    | mk value hg => simpa using value.skipGap (_ ++ ',' :: (_ ++ rest))

theorem endsWord_gap_cons {g : List Char} (hg : IsGap g) {c : Char} (hc : isBareChar c = false)
    (hsemi : c ≠ ';') (rest : List Char) :
    EndsWord (g ++ c :: rest) ∧ (g ++ c :: rest).head? ≠ some ';' := by
  refine ⟨endsWord_gap hg (endsWord_cons hc rest), fun he => ?_⟩
  cases g with
  | nil => exact hsemi (Option.some.inj he)
  | cons e g =>
    have hgap := hg e (List.mem_cons_self ..)
    rw [Option.some.inj he] at hgap
    cases hgap

/-- Items never begin as an array does. -/
theorem ItemList.ne_array {cs : List Char} {ts : List Tag} (d : ItemList cs ts) {c : Char}
    (hc : isBareChar c = true) (rest ds : List Char) : cs ++ ']' :: rest ≠ c :: ';' :: ds := by
  cases d with
  | one item =>
    cases item with
    | mk value hg =>
      rw [List.append_assoc]
      obtain ⟨hends, hsemi⟩ := endsWord_gap_cons hg (c := ']') rfl (by decide) rest
      exact value.ne_array hends hsemi hc ds
  | cons item more =>
    cases item with
    | mk value hg =>
      rw [List.append_assoc, List.append_assoc, List.cons_append]
      obtain ⟨hends, hsemi⟩ := endsWord_gap_cons hg (c := ',') rfl (by decide) (_ ++ ']' :: rest)
      exact value.ne_array hends hsemi hc ds

theorem Name.head {cs : List Char} {name : String} (d : Name cs name) :
    ∃ c ds, cs = c :: ds ∧ isGap c = false ∧ c ≠ '}' := by
  cases d with
  | quoted text =>
    obtain ⟨q, ds, rfl, hq⟩ := text.head
    obtain ⟨hgap, -, -, hclose, -⟩ := ne_of_isQuote hq
    exact ⟨q, ds, rfl, hgap, hclose⟩
  | word hw =>
    obtain ⟨c, ds, rfl, hc⟩ := hw.head
    exact ⟨c, ds, rfl, isGap_of_isBareChar hc, ne_of_isBareChar hc rfl⟩

theorem Entry.skipGap {cs : List Char} {e : String × Tag} (d : Entry cs e) (rest : List Char) :
    ∃ c ds, Tag.skipGap (cs ++ rest) = c :: ds ∧ c ≠ '}' := by
  cases d with
  | mk hg key hg' value =>
    obtain ⟨c, ds, rfl, hc, hne⟩ := key.head
    rw [List.append_assoc, skipGap_append hg, List.cons_append, List.cons_append, skipGap_cons hc]
    exact ⟨c, _, rfl, hne⟩

theorem EntryList.skipGap {cs : List Char} {es : Entries} (d : EntryList cs es)
    (rest : List Char) : ∃ c ds, Tag.skipGap (cs ++ rest) = c :: ds ∧ c ≠ '}' := by
  cases d with
  | one entry => exact entry.skipGap rest
  | cons entry more => simpa using entry.skipGap (',' :: (_ ++ rest))

/-! ### Phrases are read -/

theorem isBareChar_of_letter {c : Char} (hc : c ∈ ['B', 'I', 'L']) : isBareChar c = true := by
  simp only [List.mem_cons, List.not_mem_nil, or_false] at hc
  rcases hc with rfl | rfl | rfl <;> rfl

/-- The kind of a list is that of its items. -/
theorem ItemList.listOf {cs : List Char} {ts : List Tag} (d : ItemList cs ts) {k : Kind}
    (hk : ∀ t ∈ ts, t.kind = k) : Tag.listOf ts = .list k ts := by
  cases d with
  | one _ => rw [Tag.listOf, List.head?_cons, ← hk _ (List.mem_cons_self ..)]; rfl
  | cons _ _ => rw [Tag.listOf, List.head?_cons, ← hk _ (List.mem_cons_self ..)]; rfl

theorem Quoting.readQuoted {q : Char} (hq : isQuote q = true) {cs s : List Char}
    (d : Quoting q cs s) (rest : List Char) :
    Tag.readQuoted q (cs ++ q :: rest) = .ok (s, rest) := by
  induction d with
  | nil =>
    rw [List.nil_append, Tag.readQuoted, if_pos rfl]
    exact (ne_of_isQuote hq).2.2.2.2
  | plain hquote hslash _ ih =>
    rw [List.cons_append, Tag.readQuoted, if_neg hquote, ih]
    · rfl
    · exact hslash
  | escaped hc _ ih =>
    rw [List.cons_append, List.cons_append]
    simp only [Tag.readQuoted, hc, if_true, ih]
    rfl

theorem Quoted.reads {cs s : List Char} (d : Quoted cs s) :
    Reads cs (some (.string (String.ofList s))) := by
  cases d with
  | mk hq inner => exact reads_quoted hq (inner.readQuoted hq)

theorem Name.readsKey {cs : List Char} {name : String} (d : Name cs name) : ReadsKey cs name := by
  cases d with
  | quoted text =>
    cases text with
    | mk hq inner => exact readsKey_quoted hq (inner.readQuoted hq)
  | word hw => exact readsKey_word hw

section Array

variable {α : Type} {mk : α → Tag} {pick : Tag → Option α}

theorem Elements.length_le {cs : List Char} {as : List α} (d : Elements mk cs as) :
    as.length ≤ cs.length := by
  induction d with
  | one _ hw _ _ =>
    have hpos := List.length_pos_iff.mpr hw.1
    simp only [List.length_append, List.length_singleton]
    omega
  | cons _ hw _ _ _ ih =>
    simp only [List.length_append, List.length_cons]
    omega

theorem Elements.readElements (hpick : ∀ t a, pick t = some a ↔ t = mk a) (letter : Char)
    {cs : List Char} {as : List α} (d : Elements mk cs as) (rest : List Char) (n : ℕ)
    (hn : as.length ≤ n) : Tag.readElements pick letter n (cs ++ ']' :: rest) = .ok (as, rest) := by
  induction d generalizing n with
  | one hg hw hscalar hg' =>
    obtain ⟨n, rfl⟩ : ∃ k, n = k + 1 := ⟨n - 1, by simp only [List.length_cons] at hn; omega⟩
    rw [List.append_assoc, List.append_assoc,
      readElements_one letter hg hw ((hpick _ _).mpr hscalar) hg']
  | cons hg hw hscalar hg' _ ih =>
    simp only [List.length_cons] at hn
    obtain ⟨n, rfl⟩ : ∃ k, n = k + 1 := ⟨n - 1, by omega⟩
    rw [List.append_assoc, List.append_assoc, List.append_assoc, List.cons_append,
      readElements_cons letter hg hw ((hpick _ _).mpr hscalar) hg', ih n (by omega)]
    rfl

theorem Elements.skipGap {cs : List Char} {as : List α} (d : Elements mk cs as)
    (rest : List Char) : ∃ c ds, Tag.skipGap (cs ++ rest) = c :: ds ∧ isBareChar c = true := by
  have hword : ∀ {g w : List Char}, IsGap g → IsWord w → ∀ es,
      ∃ c ds, Tag.skipGap (g ++ (w ++ es)) = c :: ds ∧ isBareChar c = true := by
    intro g w hg hw es
    obtain ⟨c, ds, rfl, hc⟩ := hw.head
    exact ⟨c, ds ++ es, skipGap_word hg hw es, hc⟩
  cases d with
  | one hg hw _ _ => simpa using hword hg hw (_ ++ rest)
  | cons hg hw _ _ _ => simpa using hword hg hw (_ ++ ',' :: (_ ++ rest))

theorem Array.readArray (hpick : ∀ t a, pick t = some a ↔ t = mk a) (letter : Char) {cs : List Char}
    {as : List α} (d : Array mk cs as) (n : ℕ) (rest : List Char) (hn : cs.length ≤ n) :
    Tag.readArray pick letter n (cs ++ ']' :: rest) = .ok (as, rest) := by
  cases d with
  | empty hg =>
    have hskip : Tag.skipGap (cs ++ ']' :: rest) = ']' :: rest := by
      rw [skipGap_append hg, skipGap_cons rfl]
    rw [Tag.readArray, hskip]
    rfl
  | elements elements =>
    rw [readArray_elements, elements.readElements hpick letter rest n
      (elements.length_le.trans hn)]
    intro ds he
    obtain ⟨c, es, hskip, hc⟩ := elements.skipGap (']' :: rest)
    rw [hskip] at he
    rw [(List.cons.inj he).1] at hc
    cases hc

end Array

theorem byte?_eq_some (t : Tag) (v : Int8) : byte? t = some v ↔ t = .byte v := by
  cases t <;> simp [byte?]

theorem int?_eq_some (t : Tag) (v : Int32) : int? t = some v ↔ t = .int v := by
  cases t <;> simp [int?]

theorem long?_eq_some (t : Tag) (v : Int64) : long? t = some v ↔ t = .long v := by
  cases t <;> simp [long?]

mutual

/-- **A value is read as what it stands for.** -/
theorem Value.reads {cs : List Char} {t : Tag} : Value cs t → Reads cs (some t)
  | .mk hg core => core.reads.gap hg

theorem Core.reads {cs : List Char} {t : Tag} : Core cs t → Reads cs (some t)
  | .emptyCompound hg => reads_gap_compound hg
  | .compound entries hm => by
    obtain rfl := Assoc.mapOf_iff.mp hm
    refine reads_brace (fun rest ds he => ?_) entries.reads
    obtain ⟨c, es, hskip, hne⟩ := entries.skipGap ('}' :: rest)
    exact hne (List.cons.inj (hskip.symm.trans he)).1
  | .emptyList hg => reads_gap_list hg
  | .list items hk => by
    have hread := reads_bracket (fun c hc => items.ne_array (isBareChar_of_letter hc))
      (fun rest ds he => ?_) items.reads
    · rwa [gather_eq_some.mpr ⟨rfl, _, fun _ hj => absurd hj (by simp), hk⟩, Option.map_some,
        items.listOf hk] at hread
    · obtain ⟨c, es, hskip, hne⟩ := items.skipGap (']' :: rest)
      exact hne (List.cons.inj (hskip.symm.trans he)).1
  | .byteArray array =>
    reads_elements byte? 'B' .byteArray (fun _ _ => rfl) (array.readArray byte?_eq_some 'B')
  | .intArray array =>
    reads_elements int? 'I' .intArray (fun _ _ => rfl) (array.readArray int?_eq_some 'I')
  | .longArray array =>
    reads_elements long? 'L' .longArray (fun _ _ => rfl) (array.readArray long?_eq_some 'L')
  | .quoted text => text.reads
  | .word hw => reads_word hw

theorem ItemList.reads {cs : List Char} {ts : List Tag} :
    ItemList cs ts → ReadsItems cs (ts.map some)
  | .one (.mk value hg) => ReadsItems.one value.reads hg
  | .cons (.mk value hg) more => by
    rw [List.append_assoc]
    exact ReadsItems.cons value.reads hg more.reads

theorem Entry.reads {cs : List Char} {e : String × Tag} :
    Entry cs e → ∃ g E, IsGap g ∧ cs = g ++ E ∧ ReadsEntry E (some e)
  | .mk hg key hg' (.mk value hg'') =>
    ⟨_, _, hg, by simp, (readsEntry_gap key.readsKey hg' value.reads).gap hg''⟩

theorem EntryList.reads {cs : List Char} {es : Entries} :
    EntryList cs es → ReadsEntries cs (some es)
  | .one entry => by
    obtain ⟨g, E, hg, rfl, hread⟩ := entry.reads
    simpa using (ReadsEntries.one hread isGap_nil).gap hg
  | .cons entry more => by
    obtain ⟨g, E, hg, rfl, hread⟩ := entry.reads
    rw [List.append_assoc]
    exact (ReadsEntries.cons hread more.reads).gap hg

end

end Statuary.Tag.Grammar
