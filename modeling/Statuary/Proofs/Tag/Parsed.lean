import Statuary.Proofs.Tag.RoundTrip

/-!
# What is read is well formed

A tree that comes out of the reader is well formed (`Statuary.Tag.isWellFormed_of_parse`), so it
could be written and read again as often as one likes. A number beyond its width is a text and no
infinity, items are taken only if they are of the kind of those before, and entries are made a map.
An empty list has nothing to take a kind from and stays without one
(`Statuary.Tag.emptiesUntyped_of_parse`). The two together (`Statuary.Tag.WellRead`) are what the
readers keep; the proof follows them with the number of steps they have left.
-/

namespace Statuary.Tag

/-! ### Trees as they are read -/

mutual

/-- No empty list has a kind for its items. -/
def emptiesUntyped : Tag → Bool
  | .list elem items => (!items.isEmpty || elem == .untyped) && itemsUntyped items
  | .compound es => entriesUntyped es
  | .byte _ | .short _ | .int _ | .long _ | .float _ | .double _ | .string _ => true
  | .byteArray _ | .intArray _ | .longArray _ => true

/-- No empty list inside the items has a kind. -/
def itemsUntyped : List Tag → Bool
  | [] => true
  | t :: ts => emptiesUntyped t && itemsUntyped ts

/-- No empty list inside the values has a kind. -/
def entriesUntyped : Entries → Bool
  | [] => true
  | (_, t) :: es => emptiesUntyped t && entriesUntyped es

end

theorem emptiesUntyped_list {elem : Kind} {items : List Tag} :
    (list elem items).emptiesUntyped = true ↔
      (items = [] → elem = .untyped) ∧ ∀ t ∈ items, t.emptiesUntyped = true := by
  have hitems : itemsUntyped items = true ↔ ∀ t ∈ items, t.emptiesUntyped = true := by
    induction items with
    | nil => exact ⟨fun _ _ ht => absurd ht List.not_mem_nil, fun _ => rfl⟩
    | cons t ts ih => rw [itemsUntyped, Bool.and_eq_true, ih, List.forall_mem_cons]
  rw [emptiesUntyped, Bool.and_eq_true, hitems]
  cases items <;> simp

theorem emptiesUntyped_compound {es : Entries} :
    (compound es).emptiesUntyped = true ↔ ∀ e ∈ es, e.2.emptiesUntyped = true := by
  rw [emptiesUntyped]
  induction es with
  | nil => exact ⟨fun _ _ ht => absurd ht List.not_mem_nil, fun _ => rfl⟩
  | cons e es ih => rw [entriesUntyped, Bool.and_eq_true, ih, List.forall_mem_cons]

/-- **A tree as a reader makes it.** -/
structure WellRead (t : Tag) : Prop where
  /-- It can be written and read again. -/
  isWellFormed : t.isWellFormed = true
  /-- Its empty lists have no kind. -/
  emptiesUntyped : t.emptiesUntyped = true

theorem wellRead_list {elem : Kind} {items : List Tag} (hne : items ≠ [])
    (h : ∀ t ∈ items, t.kind = elem ∧ t.WellRead) : (list elem items).WellRead where
  isWellFormed := isWellFormed_list.mpr fun t ht => ⟨(h t ht).1, (h t ht).2.isWellFormed⟩
  emptiesUntyped :=
    emptiesUntyped_list.mpr ⟨fun hnil => absurd hnil hne, fun t ht => (h t ht).2.emptiesUntyped⟩

/-- The entries of a map that is made of tags as they are read. -/
theorem wellRead_ofEntries {es : Entries} (h : ∀ e ∈ es, e.2.WellRead) :
    (ofEntries es).WellRead where
  isWellFormed := isWellFormed_compound.mpr
    ⟨Assoc.nodup_keys_ofList es, fun e he => (h e (Assoc.mem_ofList he)).isWellFormed⟩
  emptiesUntyped :=
    emptiesUntyped_compound.mpr fun e he => (h e (Assoc.mem_ofList he)).emptiesUntyped

/-! ### Words -/

theorem wellRead_of_suffixed? {body : List Char} {letter : Char} {t : Tag}
    (h : suffixed? body letter = some t) : t.WellRead := by
  rw [suffixed?] at h
  split at h
  · obtain ⟨v, -, rfl⟩ := Option.map_eq_some_iff.mp h
    exact ⟨rfl, rfl⟩
  · obtain ⟨v, -, rfl⟩ := Option.map_eq_some_iff.mp h
    exact ⟨rfl, rfl⟩
  · obtain ⟨v, -, rfl⟩ := Option.map_eq_some_iff.mp h
    exact ⟨rfl, rfl⟩
  · obtain ⟨x, hx, rfl⟩ := Option.map_eq_some_iff.mp h
    exact ⟨(Option.filter_eq_some_iff.mp hx).2, rfl⟩
  · obtain ⟨x, hx, rfl⟩ := Option.map_eq_some_iff.mp h
    exact ⟨(Option.filter_eq_some_iff.mp hx).2, rfl⟩
  · cases h

theorem wellRead_of_unsuffixed? {word : List Char} {t : Tag} (h : unsuffixed? word = some t) :
    t.WellRead := by
  rw [unsuffixed?] at h
  split_ifs at h
  · obtain ⟨v, -, rfl⟩ := Option.map_eq_some_iff.mp h
    exact ⟨rfl, rfl⟩
  · obtain ⟨x, hx, rfl⟩ := Option.map_eq_some_iff.mp h
    exact ⟨(Option.filter_eq_some_iff.mp hx).2, rfl⟩

theorem wellRead_of_truth? {word : List Char} {t : Tag} (h : truth? word = some t) :
    t.WellRead := by
  rw [truth?] at h
  split at h <;> cases h <;> exact ⟨rfl, rfl⟩

/-- A word never stands for a number without a value. -/
theorem wellRead_scalar (word : List Char) : (scalar word).WellRead := by
  rw [scalar]
  cases htruth : truth? word with
  | some t => exact wellRead_of_truth? htruth
  | none =>
    cases hlast : word.getLast? with
    | none => exact ⟨rfl, rfl⟩
    | some letter =>
      change ((suffixed? word.dropLast letter <|> unsuffixed? word).getD _).WellRead
      cases hsuffix : suffixed? word.dropLast letter with
      | some t => exact wellRead_of_suffixed? hsuffix
      | none =>
        cases hplain : unsuffixed? word with
        | some t => exact wellRead_of_unsuffixed? hplain
        | none => exact ⟨rfl, rfl⟩

/-! ### The readers -/

/-- What the readers give with `n` steps is as it should be. -/
structure ReadsWell (n : ℕ) : Prop where
  value : ∀ {cs t rest}, readValue n cs = .ok (t, rest) → t.WellRead
  compound : ∀ {cs t rest}, readCompound n cs = .ok (t, rest) → t.WellRead
  entries : ∀ {cs es rest}, readEntries n cs = .ok (es, rest) → ∀ e ∈ es, e.2.WellRead
  bracket : ∀ {cs t rest}, readBracket n cs = .ok (t, rest) → t.WellRead
  items : ∀ {elem cs items rest}, readItems n elem cs = .ok (items, rest) →
    ∃ k, (∀ j ∈ elem, j = k) ∧ ∀ t ∈ items, t.kind = k ∧ t.WellRead

theorem readsWell_zero : ReadsWell 0 where
  value h := by cases h
  compound h := by cases h
  entries h := by cases h
  bracket h := by cases h
  items h := by cases h

theorem ReadsWell.readValue_succ {n : ℕ} (ih : ReadsWell n) {cs rest : List Char} {t : Tag}
    (h : readValue (n + 1) cs = .ok (t, rest)) : t.WellRead := by
  rw [readValue] at h
  split at h
  · cases h
  split_ifs at h
  · exact ih.compound h
  · exact ih.bracket h
  · obtain ⟨_, -, he⟩ := map_eq_ok.mp h
    cases he
    exact ⟨rfl, rfl⟩
  · split at h
    · cases h
    · cases h
      exact wellRead_scalar _

theorem ReadsWell.readCompound_succ {n : ℕ} (ih : ReadsWell n) {cs rest : List Char} {t : Tag}
    (h : readCompound (n + 1) cs = .ok (t, rest)) : t.WellRead := by
  rw [readCompound] at h
  split at h
  · cases h
    exact ⟨rfl, rfl⟩
  · obtain ⟨⟨es, r⟩, hes, he⟩ := map_eq_ok.mp h
    cases he
    exact wellRead_ofEntries (ih.entries hes)

theorem ReadsWell.readEntries_succ {n : ℕ} (ih : ReadsWell n) {cs rest : List Char} {es : Entries}
    (h : readEntries (n + 1) cs = .ok (es, rest)) : ∀ e ∈ es, e.2.WellRead := by
  rw [readEntries] at h
  obtain ⟨⟨name, cs₁⟩, -, h⟩ := bind_eq_ok.mp h
  obtain ⟨cs₂, -, h⟩ := bind_eq_ok.mp h
  obtain ⟨⟨value, cs₃⟩, hvalue, h⟩ := bind_eq_ok.mp h
  dsimp only at h
  split at h
  · obtain ⟨⟨es', r⟩, hes, he⟩ := map_eq_ok.mp h
    cases he
    exact List.forall_mem_cons.mpr ⟨ih.value hvalue, ih.entries hes⟩
  · cases h
    exact List.forall_mem_cons.mpr ⟨ih.value hvalue, fun _ hm => absurd hm List.not_mem_nil⟩
  · cases h

theorem ReadsWell.readBracket_succ {n : ℕ} (ih : ReadsWell n) {cs rest : List Char} {t : Tag}
    (h : readBracket (n + 1) cs = .ok (t, rest)) : t.WellRead := by
  rw [readBracket.eq_def] at h
  dsimp only at h
  split at h
  · obtain ⟨_, -, he⟩ := map_eq_ok.mp h
    cases he
    exact ⟨rfl, rfl⟩
  · obtain ⟨_, -, he⟩ := map_eq_ok.mp h
    cases he
    exact ⟨rfl, rfl⟩
  · obtain ⟨_, -, he⟩ := map_eq_ok.mp h
    cases he
    exact ⟨rfl, rfl⟩
  · split at h
    · cases h
      exact ⟨rfl, rfl⟩
    · obtain ⟨⟨items, r⟩, hitems, he⟩ := map_eq_ok.mp h
      cases he
      -- nothing asked for the kind `k`; it is that of the first item, which the list takes
      obtain ⟨k, -, hall⟩ := ih.items hitems
      cases items with
      | nil => exact ⟨rfl, rfl⟩
      | cons u us =>
        have hk : u.kind = k := (hall u (List.mem_cons_self ..)).1
        rw [List.head?_cons, Option.map_some, Option.getD_some, hk]
        exact wellRead_list (List.cons_ne_nil _ _) hall

theorem ReadsWell.readItems_succ {n : ℕ} (ih : ReadsWell n) {elem : Option Kind}
    {cs rest : List Char} {items : List Tag} (h : readItems (n + 1) elem cs = .ok (items, rest)) :
    ∃ k, (∀ j ∈ elem, j = k) ∧ ∀ t ∈ items, t.kind = k ∧ t.WellRead := by
  rw [readItems] at h
  obtain ⟨⟨item, cs₁⟩, hitem, h⟩ := bind_eq_ok.mp h
  dsimp only at h
  split_ifs at h with hany
  have helem : ∀ j ∈ elem, j = item.kind := by
    intro j hj
    rw [Option.mem_def.mp hj] at hany
    simpa using hany
  refine ⟨item.kind, helem, ?_⟩
  -- the items further on are read for the kind of this one
  split at h
  · obtain ⟨⟨items', r⟩, hitems, he⟩ := map_eq_ok.mp h
    cases he
    obtain ⟨k, hk, hall⟩ := ih.items hitems
    obtain rfl : item.kind = k := hk _ rfl
    exact List.forall_mem_cons.mpr ⟨⟨rfl, ih.value hitem⟩, hall⟩
  · cases h
    exact List.forall_mem_cons.mpr ⟨⟨rfl, ih.value hitem⟩, fun _ hm => absurd hm List.not_mem_nil⟩
  · cases h

theorem readsWell (n : ℕ) : ReadsWell n := by
  induction n with
  | zero => exact readsWell_zero
  | succ n ih =>
    exact ⟨ih.readValue_succ, ih.readCompound_succ, ih.readEntries_succ, ih.readBracket_succ,
      ih.readItems_succ⟩

theorem wellRead_of_parse {s : String} {t : Tag} (h : parse s = .ok t) : t.WellRead := by
  rw [parse, mapError_eq_ok, readAll] at h
  obtain ⟨⟨u, rest⟩, hread, h⟩ := bind_eq_ok.mp h
  dsimp only at h
  split at h
  · cases h
    exact (readsWell _).value hread
  · cases h

/-- **What is read is well formed.** -/
theorem isWellFormed_of_parse {s : String} {t : Tag} (h : parse s = .ok t) :
    t.isWellFormed = true :=
  (wellRead_of_parse h).isWellFormed

/-- **What is read has no empty list of a kind.** -/
theorem emptiesUntyped_of_parse {s : String} {t : Tag} (h : parse s = .ok t) :
    t.emptiesUntyped = true :=
  (wellRead_of_parse h).emptiesUntyped

theorem wellRead_of_parseCompound {s : String} {es : Entries} (h : parseCompound s = .ok es) :
    (compound es).WellRead := by
  rw [parseCompound] at h
  split_ifs at h
  · cases h
    exact ⟨rfl, rfl⟩
  · split at h
    · cases h
    · rename_i hparse
      cases h
      exact wellRead_of_parse hparse
    · cases h

theorem isWellFormed_of_parseCompound {s : String} {es : Entries} (h : parseCompound s = .ok es) :
    (compound es).isWellFormed = true :=
  (wellRead_of_parseCompound h).isWellFormed

end Statuary.Tag
