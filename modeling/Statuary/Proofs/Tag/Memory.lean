import Statuary.Proofs.Ends
import Statuary.Proofs.Tag.Union

/-!
# Trees in memory that may share places

In memory a list and a compound have a **place**, and what stands in an entry is either a tag
without tags inside or the place of one with tags inside (`Statuary.Word`). Copying reads some
places and fills new ones, and merging changes the compound in one place while it goes through the
entries of another (`Statuary.Memory.clone`, `Statuary.Memory.merge`). Neither need come to an end,
for nothing keeps a compound from being inside itself. So they take a number of steps, and it is
said of them where they come to an end (`Statuary.Ends`).

What can go wrong is that two places which should be two are one. So a tree in memory comes with
**the places that it takes up** (`Statuary.Memory.Stored`), as often as it does. Two facts are all
that is ever used of it: the tree stands where it stood if its places are left alone
(`Statuary.Memory.Stored.frame`), and its places are there (`Statuary.Memory.Stored.lt_length`), so
that nothing put behind them can touch it.

A copy of a tree is the same tree in new places, each of which it takes up once, whatever the tree
shares (`Statuary.Memory.clone_spec`). There is room for every well-formed tree
(`Statuary.Memory.exists_isCopy`).
-/

namespace Statuary

/-- What stands in an entry of a compound or in a list. -/
inductive Word where
  /-- A tag without tags inside. -/
  | leaf (t : Tag)
  /-- The place of a list or a compound. -/
  | place (a : ℕ)

/-- What stands in a place. -/
inductive Cell where
  /-- A list. -/
  | list (elem : Kind) (items : List Word)
  /-- A compound. -/
  | compound (c : Table Word)

/-- The places, one after the other. -/
abbrev Memory := List Cell

namespace Memory

/-! ### What is done in memory -/

/-- The place of a compound, and the compound in it. -/
def compound? (m : Memory) : Word → Option (ℕ × Table Word)
  | .leaf _ => none
  | .place a =>
    match m[a]? with
    | some (.compound c) => some (a, c)
    | _ => none

mutual

/-- **A copy** of what a word stands for, in new places. -/
def clone (m : Memory) (w : Word) : ℕ → Option (Memory × Word)
  | 0 => none
  | n + 1 =>
    match w with
    | .leaf t => some (m, .leaf t)
    | .place a =>
      match m[a]? with
      | some (.list elem items) => do
        let (m, items) ← cloneItems m items n
        some (m ++ [.list elem items], .place m.length)
      | some (.compound c) => do
        let (m, es) ← cloneEntries m c.entries n
        some (m ++ [.compound (.ofEntries es)], .place m.length)
      | none => none

/-- Copies of items. -/
def cloneItems (m : Memory) (ws : List Word) : ℕ → Option (Memory × List Word)
  | 0 => none
  | n + 1 =>
    match ws with
    | [] => some (m, [])
    | w :: ws => do
      let (m, w) ← clone m w n
      let (m, ws) ← cloneItems m ws n
      some (m, w :: ws)

/-- Copies of entries. -/
def cloneEntries (m : Memory) (es : List (String × Word)) :
    ℕ → Option (Memory × List (String × Word))
  | 0 => none
  | n + 1 =>
    match es with
    | [] => some (m, [])
    | (k, w) :: es => do
      let (m, w) ← clone m w n
      let (m, es) ← cloneEntries m es n
      some (m, (k, w) :: es)

end

mutual

/-- **Merges** the compound in the place `b` into the one in the place `a`. -/
def merge (m : Memory) (a b : ℕ) : ℕ → Option Memory
  | 0 => none
  | n + 1 => do
    let (_, src) ← m.compound? (.place b)
    mergeEntries m a src.entries n
termination_by structural n => n

/-- Merges entries, one after the other. -/
def mergeEntries (m : Memory) (a : ℕ) (es : List (String × Word)) : ℕ → Option Memory
  | 0 => none
  | n + 1 =>
    match es with
    | [] => some m
    | (k, w) :: es => do
      let m ← mergeEntry m a k w n
      mergeEntries m a es n
termination_by structural n => n

/-- Merges one entry: a copy is added where the name is missing, and where both have compounds they
are merged. -/
def mergeEntry (m : Memory) (a : ℕ) (k : String) (w : Word) : ℕ → Option Memory
  | 0 => none
  | n + 1 => do
    let (_, dst) ← m.compound? (.place a)
    match dst.get? k with
    | none =>
      let (m, w) ← m.clone w n
      some (m.set a (.compound (dst.put k w)))
    | some cur =>
      match m.compound? cur, m.compound? w with
      | some (d, _), some (e, _) => merge m d e n
      | _, _ => some m
termination_by structural n => n

end

/-! ### Trees in memory -/

/-- A word, the tree that it stands for, and the places that the tree takes up. -/
structure Part where
  /-- The word. -/
  word : Word
  /-- The places. -/
  places : List ℕ
  /-- The tree. -/
  tag : Tag

/-- Parts under names. -/
abbrev Parts := List (String × Part)

/-- The words. -/
def words (ps : Parts) : List (String × Word) :=
  ps.map fun p => (p.1, p.2.word)

/-- The trees. -/
def tags (ps : Parts) : Entries :=
  ps.map fun p => (p.1, p.2.tag)

/-- The places that all the trees take up. -/
def places (ps : Parts) : List ℕ :=
  ps.flatMap (·.2.places)

/-- **A tree stands in memory.** -/
inductive Stored (m : Memory) : Part → Prop
  /-- A tag without tags inside takes up no place. -/
  | leaf (t : Tag) (h : t.isLeaf = true) : Stored m ⟨.leaf t, [], t⟩
  /-- A list takes up its own place and those of its items. -/
  | list {a : ℕ} {elem : Kind} {ps : List Part} (h : m[a]? = some (.list elem (ps.map (·.word))))
    (hps : ∀ p ∈ ps, Stored m p) :
    Stored m ⟨.place a, a :: ps.flatMap (·.places), .list elem (ps.map (·.tag))⟩
  /-- A compound takes up its own place and those of its values. Its index is in step. -/
  | compound {a : ℕ} {c : Table Word} {ps : Parts} (h : m[a]? = some (.compound c))
    (hstep : c.InStep) (hentries : c.entries = words ps) (hps : ∀ p ∈ ps, Stored m p.2) :
    Stored m ⟨.place a, a :: places ps, .compound (tags ps)⟩

theorem lookup_words (k : String) (ps : Parts) :
    (words ps).lookup k = (ps.lookup k).map (·.word) :=
  Assoc.lookup_map (fun p : Part => p.word) k ps

theorem lookup_tags (k : String) (ps : Parts) : (tags ps).lookup k = (ps.lookup k).map (·.tag) :=
  Assoc.lookup_map (fun p : Part => p.tag) k ps

theorem keys_words (ps : Parts) : Assoc.keys (words ps) = Assoc.keys ps := by
  rw [words, Assoc.keys, List.map_map]
  rfl

theorem keys_tags (ps : Parts) : Assoc.keys (tags ps) = Assoc.keys ps := by
  rw [tags, Assoc.keys, List.map_map]
  rfl

theorem mem_places {ps : Parts} {x : ℕ} : x ∈ places ps ↔ ∃ p ∈ ps, x ∈ p.2.places :=
  List.mem_flatMap

variable {m m' : Memory} {p : Part}

/-- **A tree stands where it stood** if its places are left alone. -/
theorem Stored.frame (h : m.Stored p) (hsame : ∀ x ∈ p.places, m'[x]? = m[x]?) : m'.Stored p := by
  induction h with
  | leaf t ht => exact .leaf t ht
  | list h _ ih =>
    obtain ⟨ha, hsame⟩ := List.forall_mem_cons.mp hsame
    exact .list (ha.trans h) fun p hp =>
      ih p hp fun x hx => hsame x (List.mem_flatMap.mpr ⟨p, hp, hx⟩)
  | compound h hstep hentries _ ih =>
    obtain ⟨ha, hsame⟩ := List.forall_mem_cons.mp hsame
    exact .compound (ha.trans h) hstep hentries fun p hp =>
      ih p hp fun x hx => hsame x (mem_places.mpr ⟨p, hp, hx⟩)

/-- The places that a tree takes up are there. -/
theorem Stored.lt_length (h : m.Stored p) : ∀ x ∈ p.places, x < m.length := by
  induction h with
  | leaf => exact fun x hx => absurd hx List.not_mem_nil
  | list h _ ih =>
    refine List.forall_mem_cons.mpr ⟨(List.getElem?_eq_some_iff.mp h).1, fun x hx => ?_⟩
    obtain ⟨p, hp, hx⟩ := List.mem_flatMap.mp hx
    exact ih p hp x hx
  | compound h _ _ _ ih =>
    refine List.forall_mem_cons.mpr ⟨(List.getElem?_eq_some_iff.mp h).1, fun x hx => ?_⟩
    obtain ⟨p, hp, hx⟩ := mem_places.mp hx
    exact ih p hp x hx

/-- Where there is no compound in the tree, there is none in memory. -/
theorem Stored.compound?_eq_none (h : m.Stored p) (hkind : p.tag.kind ≠ .compound) :
    m.compound? p.word = none := by
  cases h with
  | leaf => rfl
  | list h => rw [compound?, h]
  | compound => exact absurd rfl hkind

/-! ### A compound, laid open -/

/-- A compound in memory and the parts that are its values. -/
structure Laid (m : Memory) (a : ℕ) (c : Table Word) (ps : Parts) : Prop where
  cell : m[a]? = some (.compound c)
  inStep : c.InStep
  entries : c.entries = words ps
  stored : ∀ p ∈ ps, m.Stored p.2

theorem Stored.exists_laid {A : Entries} (h : m.Stored p) (hA : p.tag = .compound A) :
    ∃ a c ps, m.Laid a c ps ∧ p = ⟨.place a, a :: places ps, .compound (tags ps)⟩ := by
  cases h with
  | leaf t ht =>
    cases hA
    cases ht
  | list => cases hA
  | compound h hstep hentries hps => exact ⟨_, _, _, ⟨h, hstep, hentries, hps⟩, rfl⟩

theorem Stored.exists_laid_of_kind (h : m.Stored p) (hkind : p.tag.kind = .compound) :
    ∃ a c ps, m.Laid a c ps ∧ p = ⟨.place a, a :: places ps, .compound (tags ps)⟩ := by
  obtain ⟨A, hA⟩ := Tag.exists_compound_of_kind hkind
  exact h.exists_laid hA

namespace Laid

variable {a : ℕ} {c : Table Word} {ps : Parts} (h : m.Laid a c ps)

include h

theorem toStored : m.Stored ⟨.place a, a :: places ps, .compound (tags ps)⟩ :=
  .compound h.cell h.inStep h.entries h.stored

theorem compound?_eq : m.compound? (.place a) = some (a, c) := by
  rw [compound?, h.cell]

theorem get?_eq (k : String) : c.get? k = (ps.lookup k).map (·.word) := by
  rw [h.inStep.get?_eq, h.entries, lookup_words]

theorem names_eq : c.names = Assoc.keys ps := by
  rw [Table.names, h.entries, keys_words]

theorem nodup_keys : (Assoc.keys ps).Nodup :=
  h.names_eq ▸ h.inStep.nodup

theorem lt_length : a < m.length :=
  (List.getElem?_eq_some_iff.mp h.cell).1

end Laid

/-- A compound that has been written entry by entry. -/
theorem laid_ofEntries {a : ℕ} (ps : Parts)
    (h : m[a]? = some (.compound (.ofEntries (words ps)))) (hkeys : (Assoc.keys ps).Nodup)
    (hps : ∀ p ∈ ps, m.Stored p.2) : m.Laid a (.ofEntries (words ps)) ps :=
  ⟨h, Table.inStep_ofEntries _,
    (Table.entries_ofEntries _).trans (Assoc.ofList_of_nodup (keys_words ps ▸ hkeys)), hps⟩

/-! ### Copies -/

/-- What stands in a place does not change when more is put behind it. -/
theorem getElem?_of_isPrefix (h : m <+: m') {x : ℕ} (hx : x < m.length) : m'[x]? = m[x]? := by
  obtain ⟨more, rfl⟩ := h
  exact List.getElem?_append_left hx

theorem Stored.of_isPrefix (h : m.Stored p) (hm : m <+: m') : m'.Stored p :=
  h.frame fun x hx => getElem?_of_isPrefix hm (h.lt_length x hx)

/-- **A tree is a copy**: it stands in new places, each of which it takes up once. -/
structure IsCopy (m m' : Memory) (q : Part) (t : Tag) : Prop where
  more : m <+: m'
  stored : m'.Stored q
  tag : q.tag = t
  nodup : q.places.Nodup
  fresh : ∀ x ∈ q.places, m.length ≤ x

/-- Trees are copies, under the names of what they are copies of. -/
structure AreCopies (m m' : Memory) (qs : Parts) (es : Entries) : Prop where
  more : m <+: m'
  stored : ∀ q ∈ qs, m'.Stored q.2
  tags : tags qs = es
  nodup : (places qs).Nodup
  fresh : ∀ x ∈ places qs, m.length ≤ x

theorem IsCopy.leaf (m : Memory) {t : Tag} (ht : t.isLeaf = true) :
    IsCopy m m ⟨.leaf t, [], t⟩ t :=
  ⟨List.prefix_rfl, .leaf t ht, rfl, List.nodup_nil, fun _ hx => absurd hx List.not_mem_nil⟩

theorem AreCopies.nil (m : Memory) : AreCopies m m [] [] :=
  ⟨List.prefix_rfl, fun _ hq => absurd hq List.not_mem_nil, rfl, List.nodup_nil,
    fun _ hx => absurd hx List.not_mem_nil⟩

/-- Copies that stand behind a copy. -/
theorem AreCopies.cons {m'' : Memory} {q : Part} {qs : Parts} {t : Tag} {es : Entries} (k : String)
    (h : IsCopy m m' q t) (hs : AreCopies m' m'' qs es) :
    AreCopies m m'' ((k, q) :: qs) ((k, t) :: es) where
  more := h.more.trans hs.more
  stored := List.forall_mem_cons.mpr ⟨h.stored.of_isPrefix hs.more, hs.stored⟩
  tags := by
    rw [← h.tag, ← hs.tags]
    rfl
  nodup := by
    rw [places, List.flatMap_cons, List.nodup_append]
    refine ⟨h.nodup, hs.nodup, fun x hx y hy hxy => ?_⟩
    have hlt := h.stored.lt_length x hx
    have hle := hs.fresh y hy
    omega
  fresh x hx := by
    rw [places, List.flatMap_cons, List.mem_append] at hx
    exact hx.elim (h.fresh x) fun hx => h.more.length_le.trans (hs.fresh x hx)

/-- The word of a tree is copied, wherever its places are as they are in `m`. -/
def Copyable (m : Memory) (p : Part) : Prop :=
  ∀ {m₁ : Memory}, (∀ x ∈ p.places, m₁[x]? = m[x]?) →
    ∃ m' q, Ends (m₁.clone p.word) (m', q.word) ∧ IsCopy m₁ m' q p.tag

theorem cloneEntries_spec {ps : Parts} (hstored : ∀ p ∈ ps, m.Stored p.2)
    (hcopy : ∀ p ∈ ps, m.Copyable p.2) : ∀ {m₁ : Memory},
      (∀ p ∈ ps, ∀ x ∈ p.2.places, m₁[x]? = m[x]?) →
      ∃ m' qs, Ends (m₁.cloneEntries (words ps)) (m', words qs) ∧
        AreCopies m₁ m' qs (tags ps) := by
  induction ps with
  | nil =>
    intro m₁ _
    exact ⟨m₁, [], .of_succ fun n => rfl, .nil m₁⟩
  | cons p ps ih =>
    intro m₁ hsame
    obtain ⟨hp, hstored⟩ := List.forall_mem_cons.mp hstored
    obtain ⟨hcp, hcopy⟩ := List.forall_mem_cons.mp hcopy
    obtain ⟨hpsame, hsame⟩ := List.forall_mem_cons.mp hsame
    obtain ⟨m₂, q, hq, copy⟩ := hcp hpsame
    -- the places of the others are as they were, for the copy stands behind them
    have hsame₂ : ∀ p ∈ ps, ∀ x ∈ p.2.places, m₂[x]? = m[x]? := by
      intro p hp x hx
      have hlt : x < m₁.length := ((hstored p hp).frame (hsame p hp)).lt_length x hx
      rw [getElem?_of_isPrefix copy.more hlt, hsame p hp x hx]
    obtain ⟨m₃, qs, hqs, copies⟩ := ih hstored hcopy hsame₂
    refine ⟨m₃, (p.1, q) :: qs, hq.step₂ hqs fun n hqn hqsn => ?_, copies.cons p.1 copy⟩
    change m₁.cloneEntries ((p.1, p.2.word) :: words ps) (n + 1) = _
    rw [cloneEntries, hqn]
    change (m₂.cloneEntries _ n).bind _ = _
    rw [hqsn]
    rfl

/-- Items are copied as entries are. -/
theorem cloneItems_eq (m : Memory) (ws : List Word) (n : ℕ) : m.cloneItems ws n =
    (m.cloneEntries (ws.map (Prod.mk "")) n).map fun r => (r.1, r.2.map (·.2)) := by
  induction n generalizing m ws with
  | zero => rw [cloneItems, cloneEntries, Option.map_none]
  | succ n ih =>
    cases ws with
    | nil => rfl
    | cons w ws =>
      rw [cloneItems, List.map_cons, cloneEntries]
      cases m.clone w n with
      | none => rfl
      | some r =>
        change (r.1.cloneItems ws n).bind _ = ((r.1.cloneEntries _ n).bind _).map _
        rw [ih]
        cases r.1.cloneEntries (ws.map (Prod.mk "")) n <;> rfl

namespace AreCopies

variable {qs : Parts} {es : Entries} (h : AreCopies m m' qs es)

include h

/-- The place behind copies is none of theirs. -/
theorem nodup_cons : (m'.length :: places qs).Nodup := by
  refine List.nodup_cons.mpr ⟨fun hmem => ?_, h.nodup⟩
  obtain ⟨q, hq, hx⟩ := mem_places.mp hmem
  exact absurd ((h.stored q hq).lt_length _ hx) (lt_irrefl _)

theorem fresh_cons : ∀ x ∈ m'.length :: places qs, m.length ≤ x :=
  List.forall_mem_cons.mpr ⟨h.more.length_le, h.fresh⟩

/-- The list of copies is a copy of the list. -/
theorem list (elem : Kind) : IsCopy m (m' ++ [.list elem ((words qs).map (·.2))])
    ⟨.place m'.length, m'.length :: places qs, .list elem (es.map (·.2))⟩
    (.list elem (es.map (·.2))) where
  more := h.more.trans (List.prefix_append ..)
  stored := by
    have hwords : (words qs).map (·.2) = (qs.map (·.2)).map (·.word) := by
      rw [words, List.map_map, List.map_map]
      rfl
    have htags : (qs.map (·.2)).map (·.tag) = es.map (·.2) := by
      rw [← h.tags, Memory.tags, List.map_map, List.map_map]
      rfl
    have hcell : (m' ++ [Cell.list elem ((words qs).map (·.2))])[m'.length]? =
        some (.list elem ((qs.map (·.2)).map (·.word))) := by simp [hwords]
    have hitems : ∀ p ∈ qs.map (·.2),
        Stored (m' ++ [Cell.list elem ((words qs).map (·.2))]) p := by
      intro p hp
      obtain ⟨q, hq, rfl⟩ := List.mem_map.mp hp
      exact (h.stored q hq).of_isPrefix (List.prefix_append ..)
    have hstored := Stored.list hcell hitems
    rwa [htags, List.flatMap_map] at hstored
  tag := rfl
  nodup := h.nodup_cons
  fresh := h.fresh_cons

/-- The compound of copies is a copy of the compound. -/
theorem compound (hnodup : (Assoc.keys es).Nodup) :
    IsCopy m (m' ++ [.compound (.ofEntries (words qs))])
      ⟨.place m'.length, m'.length :: places qs, .compound es⟩ (.compound es) where
  more := h.more.trans (List.prefix_append ..)
  stored := by
    have hkeys : (Assoc.keys qs).Nodup := by rwa [← keys_tags, h.tags]
    have hlaid : Laid (m' ++ [.compound (.ofEntries (words qs))]) m'.length
        (.ofEntries (words qs)) qs :=
      laid_ofEntries qs (by simp) hkeys fun q hq =>
        (h.stored q hq).of_isPrefix (List.prefix_append ..)
    exact h.tags ▸ hlaid.toStored
  tag := rfl
  nodup := h.nodup_cons
  fresh := h.fresh_cons

end AreCopies

/-- **Copying a tree** that stands in memory. -/
theorem clone_spec (h : m.Stored p) : m.Copyable p := by
  induction h with
  | leaf t ht =>
    intro m₁ _
    exact ⟨m₁, _, .of_succ fun n => rfl, .leaf m₁ ht⟩
  | @list a elem ps h hps ih =>
    intro m₁ hsame
    obtain ⟨ha, hinside⟩ := List.forall_mem_cons.mp hsame
    -- items are parts without a name
    have hstored : ∀ p ∈ ps.map (Prod.mk ""), m.Stored p.2 := by simpa using hps
    obtain ⟨m₂, qs, hqs, copies⟩ := cloneEntries_spec hstored
      (by simpa using fun p hp => @ih p hp)
      (by simpa using fun p hp x hx => hinside x (List.mem_flatMap.mpr ⟨p, hp, hx⟩))
    have hwords : words (ps.map (Prod.mk "")) = (ps.map (·.word)).map (Prod.mk "") := by
      rw [words, List.map_map, List.map_map]
      rfl
    have htags : (tags (ps.map (Prod.mk ""))).map (·.2) = ps.map (·.tag) := by
      rw [tags, List.map_map, List.map_map]
      rfl
    refine ⟨_, _, hqs.step fun n hn => ?_, htags ▸ copies.list elem⟩
    rw [clone]
    dsimp only
    rw [ha, h]
    change (m₁.cloneItems _ n).bind _ = _
    rw [cloneItems_eq, ← hwords, hn]
    rfl
  | @compound a c ps h hstep hentries hps ih =>
    intro m₁ hsame
    obtain ⟨ha, hinside⟩ := List.forall_mem_cons.mp hsame
    obtain ⟨m₂, qs, hqs, copies⟩ := cloneEntries_spec hps (fun p hp => @ih p hp)
      fun p hp x hx => hinside x (mem_places.mpr ⟨p, hp, hx⟩)
    have hlaid : m.Laid a c ps := ⟨h, hstep, hentries, hps⟩
    refine ⟨_, _, hqs.step fun n hn => ?_, copies.compound (keys_tags ps ▸ hlaid.nodup_keys)⟩
    rw [clone]
    dsimp only
    rw [ha, h]
    change (m₁.cloneEntries c.entries n).bind _ = _
    rw [hentries, hn]
    rfl

/-! ### Putting trees in memory -/

theorem exists_areCopies {es : Entries} (h : ∀ e ∈ es, ∀ m, ∃ m' q, IsCopy m m' q e.2) :
    ∀ m, ∃ m' qs, AreCopies m m' qs es := by
  induction es with
  | nil => exact fun m => ⟨m, [], .nil m⟩
  | cons e es ih =>
    intro m
    obtain ⟨he, hes⟩ := List.forall_mem_cons.mp h
    obtain ⟨m₁, q, copy⟩ := he m
    obtain ⟨m₂, qs, copies⟩ := ih hes m₁
    exact ⟨m₂, _, copies.cons e.1 copy⟩

/-- **There is room for every well-formed tree.** -/
theorem exists_isCopy {t : Tag} (h : t.isWellFormed = true) : ∀ m, ∃ m' q, IsCopy m m' q t := by
  induction t using Tag.induct with
  | list elem items ih =>
    intro m
    have hitems : ∀ e ∈ items.map (Prod.mk ""), ∀ m, ∃ m' q, IsCopy m m' q e.2 := by
      simpa using fun t ht => ih t ht (Tag.isWellFormed_list.mp h t ht).2
    obtain ⟨m', qs, copies⟩ := exists_areCopies hitems m
    have hmap : (items.map (Prod.mk "")).map (·.2) = items := by simp
    exact ⟨_, _, hmap ▸ copies.list elem⟩
  | compound es ih =>
    intro m
    obtain ⟨hnodup, hes⟩ := Tag.isWellFormed_compound.mp h
    obtain ⟨m', qs, copies⟩ := exists_areCopies (fun e he => ih e he (hes e he)) m
    exact ⟨_, _, copies.compound hnodup⟩
  | _ => exact fun m => ⟨m, _, .leaf m rfl⟩

end Memory

end Statuary
