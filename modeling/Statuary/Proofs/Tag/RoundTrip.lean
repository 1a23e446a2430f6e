import Statuary.Proofs.Assoc
import Statuary.Proofs.Tag.Reading
import Statuary.Tag.Printer

/-!
# Writing a tree and reading it

The text of **every** tree can be followed through the reader, in both layouts, whether the tree is
a sensible one or not: `Statuary.Tag.readBack` says what the text is read as, by one recursion over
the tree, and `Statuary.Tag.reads_write` that this is so. The layout does not occur in it, so the
two texts of a tree are read alike.

What remains is a statement about trees alone. A tree comes back, up to the kind of its empty lists,
exactly if it is well formed (`Statuary.Tag.same_readBack_iff`): its lists are of one kind and know
it, its compounds have no name twice, and its binary numbers have values. Each of the three is
necessary: a list of two kinds is refused, the second of two entries with one name replaces the
first, and an infinity comes back as a text.
-/

namespace Statuary.Tag

/-! ### Induction over trees -/

/-- Induction over trees, with the hypothesis at hand for each item and each entry. -/
@[elab_as_elim]
theorem induct {motive : Tag → Prop} (byte : ∀ v, motive (.byte v))
    (short : ∀ v, motive (.short v)) (int : ∀ v, motive (.int v)) (long : ∀ v, motive (.long v))
    (float : ∀ x, motive (.float x)) (double : ∀ x, motive (.double x))
    (string : ∀ s, motive (.string s)) (byteArray : ∀ vs, motive (.byteArray vs))
    (intArray : ∀ vs, motive (.intArray vs)) (longArray : ∀ vs, motive (.longArray vs))
    (list : ∀ elem items, (∀ t ∈ items, motive t) → motive (.list elem items))
    (compound : ∀ es, (∀ e ∈ es, motive e.2) → motive (.compound es)) (t : Tag) : motive t :=
  @Tag.rec motive (fun items => ∀ t ∈ items, motive t) (fun es => ∀ e ∈ es, motive e.2)
    (fun e => motive e.2)
    byte short int long float double string byteArray intArray longArray list compound
    (fun _ hu => absurd hu List.not_mem_nil)
    (fun _ _ ht hts => List.forall_mem_cons.mpr ⟨ht, hts⟩)
    (fun _ hu => absurd hu List.not_mem_nil)
    (fun _ _ he hes => List.forall_mem_cons.mpr ⟨he, hes⟩) (fun _ _ ht => ht) t

/-! ### The text of a tree before a rest -/

/-- The text of an entry. -/
def entryText (l : Layout) (d : ℕ) (e : String × Tag) : List Char :=
  keyText e.1 ++ (l.colon ++ write l d e.2 [])

theorem writeItems_eq {l : Layout} {d : ℕ} (t : Tag) (ts : List Tag)
    (h : ∀ u ∈ t :: ts, ∀ d rest, write l d u rest = write l d u [] ++ rest)
    (between before rest : List Char) :
    writeItems l d between before (t :: ts) rest =
      before ++ (between.intercalate ((t :: ts).map fun u => write l d u []) ++ rest) := by
  induction ts generalizing t before with
  | nil =>
    rw [writeItems, writeItems, h t (List.mem_cons_self ..), List.map_singleton,
      List.intercalate_singleton]
  | cons u ts ih =>
    obtain ⟨ht, hts⟩ := List.forall_mem_cons.mp h
    rw [writeItems, ih u hts, ht]
    simp only [List.map_cons, List.intercalate_cons_cons, List.append_assoc]

theorem writeEntries_eq {l : Layout} {d : ℕ} (e : String × Tag) (es : Entries)
    (h : ∀ f ∈ e :: es, ∀ d rest, write l d f.2 rest = write l d f.2 [] ++ rest)
    (between before rest : List Char) :
    writeEntries l d between before (e :: es) rest =
      before ++ (between.intercalate ((e :: es).map (entryText l d)) ++ rest) := by
  induction es generalizing e before with
  | nil =>
    rw [writeEntries, writeEntries, h e (List.mem_cons_self ..), List.map_singleton,
      List.intercalate_singleton, entryText]
    simp only [List.append_assoc]
  | cons f es ih =>
    obtain ⟨he, hes⟩ := List.forall_mem_cons.mp h
    rw [writeEntries, ih f hes, he]
    simp only [List.map_cons, List.intercalate_cons_cons, List.append_assoc, entryText]

/-- The rest that a text is put in front of stays as it is. -/
theorem write_append (l : Layout) (t : Tag) :
    ∀ d rest, write l d t rest = write l d t [] ++ rest := by
  induction t using induct with
  | list elem items ih =>
    intro d rest
    cases items with
    | nil => rfl
    | cons t ts =>
      simp only [write]
      rw [writeItems_eq t ts ih, writeItems_eq t ts ih]
      simp only [List.cons_append, List.append_assoc, List.nil_append]
  | compound es ih =>
    intro d rest
    cases es with
    | nil => rfl
    | cons e es =>
      simp only [write]
      rw [writeEntries_eq e es ih, writeEntries_eq e es ih]
      simp only [List.cons_append, List.append_assoc, List.nil_append]
  | _ =>
    intro d rest
    simp only [write, List.cons_append, List.append_assoc, List.nil_append, List.append_nil]

/-- The text of a list that is not empty. -/
theorem write_list (l : Layout) (d : ℕ) (elem : Kind) (t : Tag) (ts : List Tag) :
    write l d (.list elem (t :: ts)) [] =
      '[' :: ((l.ofList d elem).lead ++ ((l.ofList d elem).between.intercalate
        ((t :: ts).map fun u => write l (d + 1) u []) ++ (l.ofList d elem).trail) ++ [']']) := by
  simp only [write]
  rw [writeItems_eq t ts fun u _ => write_append l u]
  simp only [List.append_assoc]
  rfl

/-- The text of a compound that is not empty. -/
theorem write_compound (l : Layout) (d : ℕ) (e : String × Tag) (es : Entries) :
    write l d (.compound (e :: es)) [] =
      '{' :: ((l.ofCompound d).lead ++ ((l.ofCompound d).between.intercalate
        ((e :: es).map (entryText l (d + 1))) ++ (l.ofCompound d).trail) ++ ['}']) := by
  simp only [write]
  rw [writeEntries_eq e es fun f _ => write_append l f.2]
  simp only [List.append_assoc]
  rfl

/-! ### Blanks of a layout -/

/-- The members are kept apart by a comma and blanks only. -/
structure IsBlankSpacing (sp : Spacing) : Prop where
  lead : IsGap sp.lead
  between : ∃ g, IsGap g ∧ sp.between = ',' :: g
  trail : IsGap sp.trail

theorem isGap_newline (d : ℕ) : IsGap (newline d) := by
  intro c hc
  rcases List.mem_cons.mp hc with rfl | hc
  · rfl
  · rw [List.eq_of_mem_replicate hc]
    rfl

theorem isGap_blank : IsGap [' '] := by
  intro c hc
  rw [List.mem_singleton.mp hc]
  rfl

theorem isBlankSpacing_lines (d : ℕ) : IsBlankSpacing (Layout.lines d) :=
  ⟨isGap_newline _, ⟨_, isGap_newline _, rfl⟩, isGap_newline _⟩

theorem isBlankSpacing_ofList (l : Layout) (d : ℕ) (elem : Kind) :
    IsBlankSpacing (l.ofList d elem) := by
  cases l with
  | compact => exact ⟨isGap_nil, ⟨[], isGap_nil, rfl⟩, isGap_nil⟩
  | indented =>
    rw [Layout.ofList]
    split_ifs
    · exact isBlankSpacing_lines d
    · exact ⟨isGap_nil, ⟨[' '], isGap_blank, rfl⟩, isGap_nil⟩

theorem isBlankSpacing_ofCompound (l : Layout) (d : ℕ) : IsBlankSpacing (l.ofCompound d) := by
  cases l with
  | compact => exact ⟨isGap_nil, ⟨[], isGap_nil, rfl⟩, isGap_nil⟩
  | indented => exact isBlankSpacing_lines d

theorem exists_comma (l : Layout) : ∃ g, IsGap g ∧ l.comma = ',' :: g := by
  cases l with
  | compact => exact ⟨[], isGap_nil, rfl⟩
  | indented => exact ⟨[' '], isGap_blank, rfl⟩

theorem exists_colon (l : Layout) : ∃ g, IsGap g ∧ l.colon = ':' :: g := by
  cases l with
  | compact => exact ⟨[], isGap_nil, rfl⟩
  | indented => exact ⟨[' '], isGap_blank, rfl⟩

/-! ### How the text of a tree starts -/

theorem opens_number {c : Char} (hc : c = '-' ∨ c = '+' ∨ c = 'N' ∨ isDigit c = true)
    (cs : List Char) : Opens (c :: cs) := by
  refine ⟨c, cs, rfl, ?_⟩
  rcases hc with rfl | rfl | rfl | hc
  · decide
  · decide
  · decide
  · refine ⟨isGap_of_isBareChar (isBareChar_of_isDigit hc), ?_, ?_, ?_, ?_⟩ <;>
      rintro rfl <;> exact absurd hc (by decide)

theorem opens_intDigits (n : ℤ) (rest : List Char) : Opens (intDigits n ++ rest) := by
  obtain ⟨c, cs, hcs⟩ := List.exists_cons_of_ne_nil (intDigits_ne_nil n)
  have hc : c = '-' ∨ isDigit c = true := mem_intDigits (by rw [hcs]; exact List.mem_cons_self ..)
  rw [hcs, List.cons_append]
  exact opens_number (hc.imp_right fun h => .inr (.inr h)) _

theorem opens_numberText {f : BinaryFormat} (hf : f.Spans) (x : Binary f) (rest : List Char) :
    Opens (numberText x ++ rest) := by
  cases x with
  | nan => exact opens_number (.inr (.inr (.inl rfl))) _
  | infinite s => cases s with
    | true => exact opens_number (.inl rfl) _
    | false => exact opens_number (.inr (.inl rfl)) _
  | finite s m q h =>
    obtain ⟨negative, whole, fraction, hne, hw, -, -, htext⟩ :=
      exists_numberText hf (x := .finite s m q h) rfl
    obtain ⟨c, cs, rfl⟩ := List.exists_cons_of_ne_nil hne
    rw [htext]
    cases negative with
    | true => exact opens_number (.inl rfl) _
    | false => exact opens_number (.inr (.inr (.inr (hw c (List.mem_cons_self ..))))) _

/-- The text of a tree opens a value and is never taken for the start of an array. -/
theorem opens_write (l : Layout) (d : ℕ) (t : Tag) (rest : List Char) :
    Opens (write l d t rest) := by
  cases t with
  | float x => exact opens_numberText BinaryFormat.single_spans x _
  | double x => exact opens_numberText BinaryFormat.double_spans x _
  | string s => exact ⟨'"', _, rfl, by decide⟩
  | byteArray vs => exact ⟨'[', _, rfl, by decide⟩
  | intArray vs => exact ⟨'[', _, rfl, by decide⟩
  | longArray vs => exact ⟨'[', _, rfl, by decide⟩
  | list elem items => exact ⟨'[', _, rfl, by decide⟩
  | compound es => exact ⟨'{', _, rfl, by decide⟩
  | byte v => exact opens_intDigits _ _
  | short v => exact opens_intDigits _ _
  | int v => exact opens_intDigits _ _
  | long v => exact opens_intDigits _ _

/-! ### What the text of a tree is read as -/

mutual

/-- **The tree that the text of a tree is read as**, if it is read at all. -/
def readBack : Tag → Option Tag
  | .float x => some (scalar (numberText x ++ ['f']))
  | .double x => some (scalar (numberText x ++ ['d']))
  | .list _ items => (gather none (readBackItems items)).map listOf
  | .compound es => (readBackEntries es).map ofEntries
  | .byte v => some (.byte v)
  | .short v => some (.short v)
  | .int v => some (.int v)
  | .long v => some (.long v)
  | .string s => some (.string s)
  | .byteArray vs => some (.byteArray vs)
  | .intArray vs => some (.intArray vs)
  | .longArray vs => some (.longArray vs)

/-- What the texts of the items of a list are read as, each on its own. -/
def readBackItems : List Tag → List (Option Tag)
  | [] => []
  | t :: ts => readBack t :: readBackItems ts

/-- What the texts of the entries of a compound are read as. -/
def readBackEntries : Entries → Option Entries
  | [] => some []
  | (k, t) :: es => (readBack t).bind fun u => (readBackEntries es).map fun vs => (k, u) :: vs

end

theorem readBackItems_eq_map (items : List Tag) : readBackItems items = items.map readBack := by
  induction items with
  | nil => rfl
  | cons t ts ih => rw [readBackItems, ih, List.map_cons]

theorem readBackEntries_eq_collect (es : Entries) :
    readBackEntries es = collect (es.map fun e => (readBack e.2).map fun u => (e.1, u)) := by
  induction es with
  | nil => rfl
  | cons e es ih =>
    obtain ⟨k, t⟩ := e
    rw [readBackEntries, ih, List.map_cons, collect]
    cases readBack t <;> rfl

theorem reads_write_list {l : Layout} {d : ℕ} (elem : Kind) {items : List Tag}
    (h : ∀ t ∈ items, Reads (write l (d + 1) t []) (readBack t)) :
    Reads (write l d (.list elem items) []) (readBack (.list elem items)) := by
  cases items with
  | nil => exact reads_nil
  | cons t ts =>
    have hsp := isBlankSpacing_ofList l d elem
    obtain ⟨g, hg, hbetween⟩ := hsp.between
    obtain ⟨rest, hrest⟩ := intercalate_cons (',' :: g) (write l (d + 1) t [])
      (ts.map fun u => write l (d + 1) u [])
    rw [write_list, readBack, readBackItems_eq_map, hbetween]
    refine reads_list hsp.lead ?_ (ReadsItems.intercalate hg hsp.trail t ts h)
    rw [List.map_cons, hrest]
    exact ((opens_write ..).append rest).append _

theorem readsEntry_entryText {l : Layout} {d : ℕ} {e : String × Tag}
    (h : Reads (write l d e.2 []) (readBack e.2)) :
    ReadsEntry (entryText l d e) ((readBack e.2).map fun u => (e.1, u)) := by
  obtain ⟨g, hg, hcolon⟩ := exists_colon l
  rw [entryText, hcolon]
  exact readsEntry (readsKey_keyText e.1) hg h

theorem reads_write_compound {l : Layout} {d : ℕ} {es : Entries}
    (h : ∀ e ∈ es, Reads (write l (d + 1) e.2 []) (readBack e.2)) :
    Reads (write l d (.compound es) []) (readBack (.compound es)) := by
  cases es with
  | nil => exact reads_empty
  | cons e es =>
    have hsp := isBlankSpacing_ofCompound l d
    obtain ⟨g, hg, hbetween⟩ := hsp.between
    obtain ⟨rest, hrest⟩ := intercalate_cons (',' :: g) (entryText l (d + 1) e)
      (es.map (entryText l (d + 1)))
    have hread : ∀ f ∈ e :: es, ReadsEntry (entryText l (d + 1) f)
        ((readBack f.2).map fun u => (f.1, u)) := fun f hf => readsEntry_entryText (h f hf)
    rw [write_compound, readBack, readBackEntries_eq_collect, hbetween]
    refine reads_compound hsp.lead ?_ (ReadsEntries.intercalate hg hsp.trail e es hread)
    rw [List.map_cons, hrest]
    exact ((hread e (List.mem_cons_self ..)).head.append rest).append _

theorem isBareChar_of_mem_singleton {c : Char} (hc : isBareChar c = true) :
    ∀ d ∈ [c], isBareChar d = true :=
  fun _ hd => List.mem_singleton.mp hd ▸ hc

theorem reads_write_byteArray (l : Layout) (d : ℕ) (vs : List Int8) :
    Reads (write l d (.byteArray vs) []) (some (.byteArray vs)) := by
  obtain ⟨g, hg, hcomma⟩ := exists_comma l
  rw [write, writeArray, hcomma, List.map_map]
  exact reads_array byte? 'B' .byteArray (fun _ _ => rfl)
    (fun v => isWord_intDigits v.toInt (isBareChar_of_mem_singleton rfl))
    (fun v => by simp only [scalar_byte, byte?]) hg vs

theorem reads_write_intArray (l : Layout) (d : ℕ) (vs : List Int32) :
    Reads (write l d (.intArray vs) []) (some (.intArray vs)) := by
  obtain ⟨g, hg, hcomma⟩ := exists_comma l
  rw [write, writeArray, hcomma, List.map_map]
  exact reads_array int? 'I' .intArray (fun _ _ => rfl)
    (fun v => isWord_intDigits v.toInt (fun _ hc => absurd hc List.not_mem_nil))
    (fun v => by simp only [List.append_nil, scalar_int, int?]) hg vs

theorem reads_write_longArray (l : Layout) (d : ℕ) (vs : List Int64) :
    Reads (write l d (.longArray vs) []) (some (.longArray vs)) := by
  obtain ⟨g, hg, hcomma⟩ := exists_comma l
  rw [write, writeArray, hcomma, List.map_map]
  exact reads_array long? 'L' .longArray (fun _ _ => rfl)
    (fun v => isWord_intDigits v.toInt (isBareChar_of_mem_singleton rfl))
    (fun v => by simp only [scalar_long, long?]) hg vs

/-- **The text of a tree is read as `readBack` says**, in either layout and at every depth. -/
theorem reads_write (l : Layout) (t : Tag) : ∀ d, Reads (write l d t []) (readBack t) := by
  induction t using induct with
  | byte v =>
    intro d
    rw [write, readBack, ← scalar_byte]
    exact reads_word (isWord_intDigits v.toInt (isBareChar_of_mem_singleton rfl))
  | short v =>
    intro d
    rw [write, readBack, ← scalar_short]
    exact reads_word (isWord_intDigits v.toInt (isBareChar_of_mem_singleton rfl))
  | int v =>
    intro d
    rw [write, readBack, ← scalar_int, List.append_nil]
    exact reads_word (isWord_number v.toInt)
  | long v =>
    intro d
    rw [write, readBack, ← scalar_long]
    exact reads_word (isWord_intDigits v.toInt (isBareChar_of_mem_singleton rfl))
  | float x =>
    intro d
    rw [write, readBack]
    exact reads_word
      (isWord_numberText BinaryFormat.single_spans x (isBareChar_of_mem_singleton rfl))
  | double x =>
    intro d
    rw [write, readBack]
    exact reads_word
      (isWord_numberText BinaryFormat.double_spans x (isBareChar_of_mem_singleton rfl))
  | string s =>
    intro d
    rw [write, readBack, List.append_nil]
    exact reads_quote s
  | byteArray vs =>
    intro d
    rw [readBack]
    exact reads_write_byteArray l d vs
  | intArray vs =>
    intro d
    rw [readBack]
    exact reads_write_intArray l d vs
  | longArray vs =>
    intro d
    rw [readBack]
    exact reads_write_longArray l d vs
  | list elem items ih => exact fun d => reads_write_list elem fun t ht => ih t ht (d + 1)
  | compound es ih => exact fun d => reads_write_compound fun e he => ih e he (d + 1)

/-! ### Well-formed trees -/

mutual

/-- **A well-formed tree**: every list holds items of the kind it has, no compound has a name twice,
and every binary number has a value. -/
def isWellFormed : Tag → Bool
  | .float x => x.isFinite
  | .double x => x.isFinite
  | .list elem items => areWellFormed elem items
  | .compound es => decide (Assoc.keys es).Nodup && entriesWellFormed es
  | .byte _ | .short _ | .int _ | .long _ | .string _ => true
  | .byteArray _ | .intArray _ | .longArray _ => true

/-- The items are well formed and of one kind. -/
def areWellFormed (elem : Kind) : List Tag → Bool
  | [] => true
  | t :: ts => t.kind == elem && isWellFormed t && areWellFormed elem ts

/-- The values of the entries are well formed. -/
def entriesWellFormed : Entries → Bool
  | [] => true
  | (_, t) :: es => isWellFormed t && entriesWellFormed es

end

theorem isWellFormed_list {elem : Kind} {items : List Tag} :
    (list elem items).isWellFormed = true ↔
      ∀ t ∈ items, t.kind = elem ∧ t.isWellFormed = true := by
  rw [isWellFormed]
  induction items with
  | nil => simp [areWellFormed]
  | cons t ts ih =>
    rw [areWellFormed, List.forall_mem_cons, Bool.and_eq_true, Bool.and_eq_true, beq_iff_eq, ih]

theorem entriesWellFormed_iff {es : Entries} :
    entriesWellFormed es = true ↔ ∀ e ∈ es, e.2.isWellFormed = true := by
  induction es with
  | nil => simp [entriesWellFormed]
  | cons e es ih =>
    obtain ⟨k, t⟩ := e
    rw [entriesWellFormed, List.forall_mem_cons, Bool.and_eq_true, ih]

theorem isWellFormed_compound {es : Entries} :
    (compound es).isWellFormed = true ↔
      (Assoc.keys es).Nodup ∧ ∀ e ∈ es, e.2.isWellFormed = true := by
  rw [isWellFormed, Bool.and_eq_true, decide_eq_true_eq, entriesWellFormed_iff]

/-! ### Trees that are equal member by member -/

theorem kind_eq_of_same {t u : Tag} (h : t.same u = true) : t.kind = u.kind := by
  cases t <;> cases u <;> first | rfl | (simp only [same] at h; cases h)

theorem sameItems_iff {ts us : List Tag} :
    sameItems ts us = true ↔ List.Forall₂ (fun t u => t.same u = true) ts us := by
  induction ts generalizing us with
  | nil => cases us <;> simp [sameItems]
  | cons t ts ih => cases us <;> simp [sameItems, ih]

theorem sameEntries_iff {es fs : Entries} :
    sameEntries es fs = true ↔
      List.Forall₂ (fun e f => e.1 = f.1 ∧ e.2.same f.2 = true) es fs := by
  induction es generalizing fs with
  | nil => cases fs <;> simp [sameEntries]
  | cons e es ih => cases fs <;> simp [sameEntries, ih]

theorem keys_eq_of_sameEntries {es fs : Entries} (h : sameEntries es fs = true) :
    Assoc.keys es = Assoc.keys fs := by
  have hall := sameEntries_iff.mp h
  clear h
  induction hall with
  | nil => rfl
  | cons he _ ih => exact congrArg₂ List.cons he.1 ih

theorem readBackEntries_eq_some {es vs : Entries} :
    readBackEntries es = some vs ↔
      List.Forall₂ (fun e v => e.1 = v.1 ∧ readBack e.2 = some v.2) es vs := by
  induction es generalizing vs with
  | nil =>
    rw [readBackEntries, List.forall₂_nil_left_iff, Option.some.injEq, eq_comm]
  | cons e es ih =>
    obtain ⟨k, t⟩ := e
    simp only [readBackEntries, Option.bind_eq_some_iff, Option.map_eq_some_iff]
    constructor
    · rintro ⟨u, hu, ws, hws, rfl⟩
      exact .cons ⟨rfl, hu⟩ (ih.mp hws)
    · intro h
      cases h with
      | @cons _ v _ ws he hes => exact ⟨v.2, he.2, ws, ih.mpr hes, by rw [show k = v.1 from he.1]⟩

/-- Items are gathered if each is read and all are of one kind. -/
theorem gather_eq_some {elem : Option Kind} {os : List (Option Tag)} {us : List Tag} :
    gather elem os = some us ↔
      os = us.map some ∧ ∃ k, (∀ j ∈ elem, j = k) ∧ ∀ u ∈ us, u.kind = k := by
  induction os generalizing elem us with
  | nil =>
    cases us with
    | nil => simpa [gather] using ⟨elem.getD .untyped, fun j hj => by rw [hj]; rfl⟩
    | cons u us => simp [gather]
  | cons o os ih =>
    simp only [gather, Option.bind_eq_some_iff]
    constructor
    · rintro ⟨t, rfl, ht⟩
      split_ifs at ht with hany
      obtain ⟨ws, hws, rfl⟩ := Option.map_eq_some_iff.mp ht
      -- the rest was gathered for the kind of the first item, which is therefore the kind of all
      obtain ⟨rfl, k, hk, hall⟩ := ih.mp hws
      obtain rfl : t.kind = k := hk _ rfl
      refine ⟨rfl, t.kind, fun j hj => ?_, List.forall_mem_cons.mpr ⟨rfl, hall⟩⟩
      rw [Option.mem_def.mp hj] at hany
      simpa using hany
    · rintro ⟨hos, k, hk, hall⟩
      cases us with
      | nil => cases hos
      | cons u us =>
        obtain ⟨rfl, rfl⟩ := List.cons.inj hos
        obtain ⟨rfl, hus⟩ := List.forall_mem_cons.mp hall
        refine ⟨u, rfl, ?_⟩
        rw [if_neg, ih.mpr ⟨rfl, u.kind, fun j hj => (Option.some.inj hj).symm, hus⟩,
          Option.map_some]
        cases elem with
        | none => exact Bool.false_ne_true
        | some j => simpa using hk j rfl

/-! ### Which trees come back -/

/-- The items of a list come back as soon as each of them does and they are of one kind. -/
theorem same_readBack_list {elem : Kind} {items : List Tag}
    (hkind : ∀ t ∈ items, t.kind = elem)
    (h : ∀ t ∈ items, ∃ u, readBack t = some u ∧ t.same u = true) :
    ∃ u, readBack (.list elem items) = some u ∧ (list elem items).same u = true := by
  have hitems : ∃ us, items.map readBack = us.map some ∧
      List.Forall₂ (fun t u => t.same u = true) items us ∧ ∀ u ∈ us, u.kind = elem := by
    induction items with
    | nil => exact ⟨[], rfl, .nil, fun u hu => absurd hu List.not_mem_nil⟩
    | cons t ts ih =>
      obtain ⟨ht, hts⟩ := List.forall_mem_cons.mp hkind
      obtain ⟨⟨u, hu, hsame⟩, hall⟩ := List.forall_mem_cons.mp h
      obtain ⟨us, hus, hsames, hkinds⟩ := ih hts hall
      exact ⟨u :: us, by rw [List.map_cons, hu, hus, List.map_cons], .cons hsame hsames,
        List.forall_mem_cons.mpr ⟨(kind_eq_of_same hsame).symm.trans ht, hkinds⟩⟩
  obtain ⟨us, hus, hall, hkinds⟩ := hitems
  have hgather : gather none (items.map readBack) = some us :=
    gather_eq_some.mpr ⟨hus, elem, ⟨fun _ hj => absurd hj (Option.not_mem_none _), hkinds⟩⟩
  refine ⟨listOf us, by rw [readBack, readBackItems_eq_map, hgather, Option.map_some], ?_⟩
  rw [listOf, same, Bool.and_eq_true, sameItems_iff]
  refine ⟨?_, hall⟩
  -- the kind of a list that is read is that of its first item
  cases hall with
  | nil => rfl
  | cons hsame _ =>
    rw [List.head?_cons, Option.map_some, Option.getD_some, hkinds _ (List.mem_cons_self ..)]
    simp

/-- The entries of a compound come back as soon as each of them does and the names differ. -/
theorem same_readBack_compound {es : Entries} (hkeys : (Assoc.keys es).Nodup)
    (h : ∀ e ∈ es, ∃ u, readBack e.2 = some u ∧ e.2.same u = true) :
    ∃ u, readBack (.compound es) = some u ∧ (compound es).same u = true := by
  have hentries : ∃ vs, readBackEntries es = some vs ∧ sameEntries es vs = true := by
    clear hkeys
    induction es with
    | nil => exact ⟨[], rfl, rfl⟩
    | cons e es ih =>
      obtain ⟨⟨u, hu, hsame⟩, hes⟩ := List.forall_mem_cons.mp h
      obtain ⟨vs, hvs, hall⟩ := ih hes
      refine ⟨(e.1, u) :: vs, ?_, ?_⟩
      · rw [readBackEntries, hu, Option.bind_some, hvs, Option.map_some]
      · rw [sameEntries, beq_self_eq_true, hsame, hall]
        rfl
  obtain ⟨vs, hvs, hall⟩ := hentries
  refine ⟨.compound vs, ?_, by rw [same, hall]⟩
  rw [readBack, hvs, Option.map_some, ofEntries,
    Assoc.ofList_of_nodup (keys_eq_of_sameEntries hall ▸ hkeys)]

theorem exists_same_of_isWellFormed (t : Tag) (h : t.isWellFormed = true) :
    ∃ u, readBack t = some u ∧ t.same u = true := by
  induction t using induct with
  | float x =>
    rw [isWellFormed] at h
    exact ⟨.float x, by rw [readBack, scalar_float, if_pos h], by rw [same, Binary.same_self h]⟩
  | double x =>
    rw [isWellFormed] at h
    exact ⟨.double x, by rw [readBack, scalar_double, if_pos h], by rw [same, Binary.same_self h]⟩
  | list elem items ih =>
    have hall := isWellFormed_list.mp h
    exact same_readBack_list (fun t ht => (hall t ht).1) fun t ht => ih t ht (hall t ht).2
  | compound es ih =>
    obtain ⟨hkeys, hall⟩ := isWellFormed_compound.mp h
    exact same_readBack_compound hkeys fun e he => ih e he (hall e he)
  | _ => exact ⟨_, rfl, by simp only [same, beq_self_eq_true]⟩

theorem isWellFormed_items {items us : List Tag} {k : Kind}
    (ih : ∀ t ∈ items, ∀ {u}, readBack t = some u → t.same u = true → t.isWellFormed = true)
    (hmap : items.map readBack = us.map some) (hkind : ∀ u ∈ us, u.kind = k)
    (hsame : List.Forall₂ (fun t u => t.same u = true) items us) :
    ∀ t ∈ items, t.kind = k ∧ t.isWellFormed = true := by
  induction hsame with
  | nil => exact fun t ht => absurd ht List.not_mem_nil
  | cons ht _ ihs =>
    obtain ⟨hread, hreads⟩ := List.cons.inj hmap
    obtain ⟨hk, hks⟩ := List.forall_mem_cons.mp hkind
    obtain ⟨iht, ihts⟩ := List.forall_mem_cons.mp ih
    exact List.forall_mem_cons.mpr
      ⟨⟨(kind_eq_of_same ht).trans hk, iht hread ht⟩, ihs ihts hreads hks⟩

theorem keys_of_readBackEntries {es vs : Entries}
    (h : List.Forall₂ (fun e v => e.1 = v.1 ∧ readBack e.2 = some v.2) es vs) :
    Assoc.keys es = Assoc.keys vs := by
  induction h with
  | nil => rfl
  | cons he _ ih => exact congrArg₂ List.cons he.1 ih

theorem isWellFormed_entries {es vs : Entries}
    (ih : ∀ e ∈ es, ∀ {u}, readBack e.2 = some u → e.2.same u = true → e.2.isWellFormed = true)
    (hback : List.Forall₂ (fun e v => e.1 = v.1 ∧ readBack e.2 = some v.2) es vs)
    (hsame : List.Forall₂ (fun e v => e.1 = v.1 ∧ e.2.same v.2 = true) es vs) :
    ∀ e ∈ es, e.2.isWellFormed = true := by
  induction hback with
  | nil => exact fun e he => absurd he List.not_mem_nil
  | cons he _ ihs =>
    obtain ⟨iht, ihts⟩ := List.forall_mem_cons.mp ih
    cases hsame with
    | cons hs hss => exact List.forall_mem_cons.mpr ⟨iht he.2 hs.2, ihs ihts hss⟩

theorem isWellFormed_of_same (t : Tag) {u : Tag} (hread : readBack t = some u)
    (hsame : t.same u = true) : t.isWellFormed = true := by
  induction t using induct generalizing u with
  | float x =>
    -- a number without a value is read as a text, which equals no number
    rw [readBack, scalar_float, Option.some.injEq] at hread
    rw [isWellFormed]
    by_contra hx
    rw [if_neg hx] at hread
    subst hread
    simp only [same] at hsame
    cases hsame
  | double x =>
    rw [readBack, scalar_double, Option.some.injEq] at hread
    rw [isWellFormed]
    by_contra hx
    rw [if_neg hx] at hread
    subst hread
    simp only [same] at hsame
    cases hsame
  | list elem items ih =>
    rw [readBack, readBackItems_eq_map, Option.map_eq_some_iff] at hread
    obtain ⟨us, hus, rfl⟩ := hread
    obtain ⟨hmap, k, -, hkind⟩ := gather_eq_some.mp hus
    rw [listOf, same, Bool.and_eq_true, sameItems_iff] at hsame
    obtain ⟨helem, hsame⟩ := hsame
    have hall := isWellFormed_items ih hmap hkind hsame
    have hk : ∀ t ∈ items, k = elem := by
      cases hsame with
      | nil => exact fun t ht => absurd ht List.not_mem_nil
      | cons _ _ =>
        intro _ _
        rw [← hkind _ (List.mem_cons_self ..)]
        exact (beq_iff_eq.mp helem).symm
    exact isWellFormed_list.mpr fun t ht => hk t ht ▸ hall t ht
  | compound es ih =>
    rw [readBack, Option.map_eq_some_iff] at hread
    obtain ⟨vs, hvs, rfl⟩ := hread
    rw [ofEntries, same] at hsame
    -- the names of a map are distinct, so they were distinct from the start and none was replaced
    have hkeys : (Assoc.keys es).Nodup := by
      rw [keys_eq_of_sameEntries hsame]
      exact Assoc.nodup_keys_ofList vs
    have hback := readBackEntries_eq_some.mp hvs
    rw [Assoc.ofList_of_nodup (keys_of_readBackEntries hback ▸ hkeys), sameEntries_iff] at hsame
    exact isWellFormed_compound.mpr ⟨hkeys, isWellFormed_entries ih hback hsame⟩
  | _ => rfl

/-- **Exactly the well-formed trees come back.** -/
theorem same_readBack_iff (t : Tag) :
    (∃ u, readBack t = some u ∧ t.same u = true) ↔ t.isWellFormed = true :=
  ⟨fun ⟨_, hread, hsame⟩ => isWellFormed_of_same t hread hsame, exists_same_of_isWellFormed t⟩

/-- The text of a tree, read from its start to its end. -/
theorem parse_render (l : Layout) (t : Tag) : (parse (t.render l)).toOption = readBack t :=
  (reads_write l t 0).parse

/-- The entries that the text of a compound is read as. -/
theorem parseCompound_render (l : Layout) {es vs : Entries}
    (h : readBack (compound es) = some (compound vs)) :
    parseCompound ((compound es).render l) = .ok vs := by
  have hblank : isBlank ((compound es).render l) = false := by
    rw [isBlank, render, String.toList_ofList, List.all_eq_false]
    refine ⟨'\x7b', ?_, by decide⟩
    cases es <;> simp [write]
  rw [parseCompound, hblank, eq_ok_of_toOption ((parse_render l _).trans h)]
  rfl

/-- **A well-formed tree is read back from both of its texts**, as one and the same tree. -/
theorem exists_parse_render_same {t : Tag} (h : t.isWellFormed = true) :
    ∃ u, t.same u = true ∧ ∀ l, parse (t.render l) = .ok u := by
  obtain ⟨u, hread, hsame⟩ := exists_same_of_isWellFormed t h
  exact ⟨u, hsame, fun l => eq_ok_of_toOption ((parse_render l t).trans hread)⟩

/-- A compound with a name and a text that need quotes, a list of lists and an empty list. -/
theorem exists_parse_render_same_nested :
    ∃ u, (compound [("a b", .list .list [.list .int [.int 1, .int (-2)], .list .string []]),
        ("c", .string "\"\\"), ("d", .longArray [3])]).same u = true ∧
      ∀ l, parse ((compound
        [("a b", .list .list [.list .int [.int 1, .int (-2)], .list .string []]),
          ("c", .string "\"\\"), ("d", .longArray [3])]).render l) = .ok u :=
  exists_parse_render_same (by decide)

end Statuary.Tag
