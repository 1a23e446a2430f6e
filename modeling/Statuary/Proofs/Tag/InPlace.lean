import Mathlib.Data.List.Basic
import Statuary.Proofs.Tag.Memory

/-!
# Merging in place

The left compound is changed while the right one is gone through. What is written into the left tree
would show in the right one if they shared a place, and twice in the left one if that shared places
with itself. So the left tree must take up **each of its places once** and none of those of the
right one. Then merging comes to an end, the left compound has become the union, and every place
outside the left tree is left alone (`Statuary.Memory.merge_spec`): the right tree above all. The
right tree may share what it likes, for what is taken from it is a copy.

A tree that grows takes up new places only (`Statuary.Memory.Grows`). This is what the induction
carries: a tree somewhere inside grows, so the tree around it does, and both stay apart from what is
still to be merged. The copies are made of trees as they stood at the start, so it is said of each
of them where its places are now (`Statuary.Memory.Mergeable`).

The very place that is read may be written as well where there is nothing to write: a compound that
has all the names of the other in all compounds that both have is left as it is, wherever the trees
stand (`Statuary.Memory.merge_of_covers`). A second merging and the merging of a compound into
itself are of this kind. What merging does to any two well-formed compounds that stand apart is
`Statuary.Memory.merge_isUnion`.
-/

namespace Statuary

namespace Memory

variable {m m' : Memory} {p : Part}

/-! ### Trees that grow -/

/-- **A tree grows** from the places `F` to the places `F'`: it takes up new places only, and no
other place is changed. -/
structure Grows (m : Memory) (F : List ℕ) (m' : Memory) (F' : List ℕ) : Prop where
  length_le : m.length ≤ m'.length
  others : ∀ x < m.length, x ∉ F → m'[x]? = m[x]?
  places : ∀ x ∈ F', x ∈ F ∨ m.length ≤ x

theorem Grows.refl (m : Memory) (F : List ℕ) : Grows m F m F :=
  ⟨le_rfl, fun _ _ _ => rfl, fun _ hx => .inl hx⟩

theorem Grows.trans {m'' : Memory} {F F' F'' : List ℕ} (h : Grows m F m' F')
    (h' : Grows m' F' m'' F'') : Grows m F m'' F'' where
  length_le := h.length_le.trans h'.length_le
  others x hx hF := by
    have hF' : x ∉ F' := fun hmem => (h.places x hmem).elim hF fun hle => absurd hx hle.not_gt
    rw [h'.others x (hx.trans_le h.length_le) hF', h.others x hx hF]
  places x hx := by
    rcases h'.places x hx with hx | hx
    · exact h.places x hx
    · exact .inr (h.length_le.trans hx)

/-- What is in no place of the tree that grows is left alone. -/
theorem Stored.same_of_grows {F F' : List ℕ} (h : m.Stored p) (hgrows : Grows m F m' F')
    (hsep : F.Disjoint p.places) : ∀ x ∈ p.places, m'[x]? = m[x]? :=
  fun x hx => hgrows.others x (h.lt_length x hx) fun hF => hsep hF hx

/-- What was apart from the tree stays apart from it. -/
theorem Stored.disjoint_of_grows {F F' : List ℕ} (h : m.Stored p) (hgrows : Grows m F m' F')
    (hsep : F.Disjoint p.places) : F'.Disjoint p.places := by
  intro x hF' hx
  rcases hgrows.places x hF' with hF | hle
  · exact hsep hF hx
  · exact absurd (h.lt_length x hx) hle.not_gt

/-- Each place is taken up once also after one of three parts has grown. -/
theorem nodup_of_grows {n : ℕ} {P Q Q' R : List ℕ} (h : (P ++ (Q ++ R)).Nodup) (hQ' : Q'.Nodup)
    (hplaces : ∀ x ∈ Q', x ∈ Q ∨ n ≤ x) (hlt : ∀ x ∈ P ++ R, x < n) : (P ++ (Q' ++ R)).Nodup := by
  simp only [List.nodup_append, List.mem_append] at h hlt ⊢
  grind

/-! ### Parts that are added and replaced -/

section

variable {pre post ps : Parts} {k : String} {q : Part}

theorem places_split (pre : Parts) (k : String) (q : Part) (post : Parts) :
    places (pre ++ (k, q) :: post) = places pre ++ (q.places ++ places post) := by
  simp [places]

theorem tags_added (q : Part) (hk : k ∉ Assoc.keys ps) :
    tags (ps ++ [(k, q)]) = Assoc.put k q.tag (tags ps) := by
  rw [Assoc.put_of_notMem _ (keys_tags ps ▸ hk), tags, tags, List.map_append]
  rfl

theorem tags_replaced (q' : Part) (hkeys : (Assoc.keys (pre ++ (k, q) :: post)).Nodup) :
    tags (pre ++ (k, q') :: post) = Assoc.put k q'.tag (tags (pre ++ (k, q) :: post)) := by
  rw [Assoc.keys, List.map_append, List.nodup_append] at hkeys
  have hnew : k ∉ Assoc.keys (tags pre) :=
    keys_tags pre ▸ fun hmem => hkeys.2.2 k hmem k List.mem_cons_self rfl
  simp only [tags, List.map_append, List.map_cons]
  exact (Assoc.put_append_self _ _ hnew _).symm

/-- A name is put at the end of a compound. -/
theorem Laid.added {a : ℕ} {c : Table Word} (h : m.Laid a c ps) (hk : k ∉ Assoc.keys ps)
    (hcell : m'[a]? = some (.compound (c.put k q.word))) (hold : ∀ p ∈ ps, m'.Stored p.2)
    (hq : m'.Stored q) : m'.Laid a (c.put k q.word) (ps ++ [(k, q)]) := by
  refine ⟨hcell, h.inStep.put k _, ?_,
    List.forall_mem_append.mpr ⟨hold, List.forall_mem_singleton.mpr hq⟩⟩
  rw [h.inStep.entries_put, h.entries, Assoc.put_of_notMem _ (keys_words ps ▸ hk), words, words,
    List.map_append]
  rfl

/-- Another tree stands where the word under a name leads to. -/
theorem Laid.replaced {a : ℕ} {c : Table Word} (h : m.Laid a c (pre ++ (k, q) :: post)) {q' : Part}
    (hword : q'.word = q.word) (hstored : m'.Stored q')
    (hsame : ∀ x ∈ a :: places pre ++ places post, m'[x]? = m[x]?) :
    m'.Laid a c (pre ++ (k, q') :: post) := by
  have hbeside : ∀ p ∈ pre ++ post, m'.Stored p.2 := by
    intro p hp
    have hmem : p ∈ pre ++ (k, q) :: post := by grind
    refine (h.stored p hmem).frame fun x hx => hsame x ?_
    rcases List.mem_append.mp hp with hp | hp
    · exact List.mem_append_left _ (List.mem_cons_of_mem _ (mem_places.mpr ⟨p, hp, hx⟩))
    · exact List.mem_append_right _ (mem_places.mpr ⟨p, hp, hx⟩)
  obtain ⟨hpre, hpost⟩ := List.forall_mem_append.mp hbeside
  refine ⟨(hsame a (by simp)).trans h.cell, h.inStep, ?_,
    List.forall_mem_append.mpr ⟨hpre, List.forall_mem_cons.mpr ⟨hstored, hpost⟩⟩⟩
  rw [h.entries, words, words, List.map_append, List.map_append, List.map_cons, List.map_cons,
    hword]

end

/-! ### A compound that becomes another one -/

/-- **The compound in a place has become another one**, and its tree has grown. -/
structure Becomes (m : Memory) (a : ℕ) (F : List ℕ) (m' : Memory) (F' : List ℕ) (A : Entries) :
    Prop where
  stored : m'.Stored ⟨.place a, F', .compound A⟩
  nodup : F'.Nodup
  grows : Grows m F m' F'

namespace Laid

variable {a : ℕ} {c : Table Word} {ps : Parts} (h : m.Laid a c ps)
  (hnodup : (a :: places ps).Nodup)

include h hnodup

/-- A name is added at the end, with a copy. -/
theorem exists_becomes_add {m₁ : Memory} {q : Part} {t : Tag} (hcopy : IsCopy m m₁ q t)
    {k : String} (hk : ps.lookup k = none) : ∃ F, Becomes m a (a :: places ps)
      (m₁.set a (.compound (c.put k q.word))) F (Assoc.put k t (tags ps)) := by
  have hnew : k ∉ Assoc.keys ps := Assoc.lookup_eq_none_iff.mp hk
  have hlt := h.lt_length
  have hlt₁ : a < m₁.length := hlt.trans_le hcopy.more.length_le
  have hsame : ∀ x < m.length, x ≠ a →
      (m₁.set a (.compound (c.put k q.word)))[x]? = m[x]? := fun x hx hne => by
    rw [List.getElem?_set_ne hne.symm, getElem?_of_isPrefix hcopy.more hx]
  -- the values stand elsewhere in the compound, and the copy stands behind it
  have hold : ∀ p ∈ ps, Stored (m₁.set a (.compound (c.put k q.word))) p.2 := fun p hp =>
    (h.stored p hp).frame fun x hx => hsame x ((h.stored p hp).lt_length x hx) fun he =>
      (List.nodup_cons.mp hnodup).1 (mem_places.mpr ⟨p, hp, he ▸ hx⟩)
  have hcopied : Stored (m₁.set a (.compound (c.put k q.word))) q :=
    hcopy.stored.frame fun x hx => by
      have hle := hcopy.fresh x hx
      rw [List.getElem?_set_ne (by omega)]
  have hlaid := h.added hnew (List.getElem?_set_self hlt₁) hold hcopied
  have htags : tags (ps ++ [(k, q)]) = Assoc.put k t (tags ps) := hcopy.tag ▸ tags_added q hnew
  have hplaces : a :: places (ps ++ [(k, q)]) = (a :: places ps) ++ q.places := by
    simp [places]
  refine ⟨a :: places (ps ++ [(k, q)]), htags ▸ hlaid.toStored, ?_, ?_, ?_, ?_⟩
  · rw [hplaces, List.nodup_append]
    refine ⟨hnodup, hcopy.nodup, fun x hx y hy hxy => ?_⟩
    have hltx := h.toStored.lt_length x hx
    have hle := hcopy.fresh y hy
    omega
  · rw [List.length_set]
    exact hcopy.more.length_le
  · exact fun x hx hF => hsame x hx fun he => hF (he ▸ List.mem_cons_self)
  · intro x hx
    rw [hplaces, List.mem_append] at hx
    exact hx.imp_right (hcopy.fresh x)

/-- The tree under a name grows where it stands. -/
theorem exists_becomes_replace {pre post : Parts} {k : String} {q : Part} (q' : Part)
    (hps : ps = pre ++ (k, q) :: post) (hword : q'.word = q.word) (hstored : m'.Stored q')
    (hnodup' : q'.places.Nodup) (hgrows : Grows m q.places m' q'.places) :
    ∃ F, Becomes m a (a :: places ps) m' F (Assoc.put k q'.tag (tags ps)) := by
  subst hps
  have hlt : ∀ x ∈ a :: places (pre ++ (k, q) :: post), x < m.length := h.toStored.lt_length
  rw [places_split] at hnodup hlt ⊢
  -- what is beside the tree that grows is left alone
  have hsame : ∀ x ∈ a :: places pre ++ places post, m'[x]? = m[x]? := by
    intro x hx
    refine hgrows.others x (hlt x ?_) fun hq => ?_
    · grind
    · grind [List.nodup_cons, List.nodup_append]
  have hlaid := h.replaced hword hstored hsame
  have htags := tags_replaced q' h.nodup_keys
  refine ⟨a :: places (pre ++ (k, q') :: post), htags ▸ hlaid.toStored, ?_, hgrows.length_le,
    ?_, ?_⟩
  · rw [places_split]
    exact nodup_of_grows (P := a :: places pre) hnodup hnodup' hgrows.places
      fun x hx => hlt x (by grind)
  · exact fun x hx hF => hgrows.others x hx fun hq => hF (by simp [hq])
  · intro x hx
    have hplaces := hgrows.places x
    rw [places_split] at hx
    grind

end Laid

/-! ### One entry -/

namespace Laid

variable {a : ℕ} {c : Table Word} {ps : Parts} {k : String} (h : m.Laid a c ps)

include h

/-- A copy is added where the name is missing. -/
theorem mergeEntry_of_none (hk : ps.lookup k = none) (w : Word) (n : ℕ) :
    m.mergeEntry a k w (n + 1) =
      (m.clone w n).map fun r => r.1.set a (.compound (c.put k r.2)) := by
  have hnone : c.get? k = none := by rw [h.get?_eq, hk]; rfl
  rw [mergeEntry, h.compound?_eq]
  dsimp only [Option.bind_eq_bind, Option.bind_some]
  rw [hnone]
  cases m.clone w n <;> rfl

/-- Nothing is done where not both have compounds. -/
theorem mergeEntry_of_kind_ne {s : Part} (hk : ps.lookup k = some s) (hp : m.Stored p)
    (hkind : s.tag.kind ≠ .compound ∨ p.tag.kind ≠ .compound) (n : ℕ) :
    m.mergeEntry a k p.word (n + 1) = some m := by
  have hsome : c.get? k = some s.word := by rw [h.get?_eq, hk]; rfl
  have hs : m.Stored s := h.stored _ (Assoc.mem_of_lookup hk)
  rw [mergeEntry, h.compound?_eq]
  dsimp only [Option.bind_eq_bind, Option.bind_some]
  rw [hsome]
  dsimp only
  rcases hkind with hkind | hkind
  · rw [hs.compound?_eq_none hkind]
  · rw [hp.compound?_eq_none hkind]
    cases m.compound? s.word <;> rfl

/-- Where both have compounds, one is merged into the other. -/
theorem mergeEntry_compound {s : Part} (hk : ps.lookup k = some s) {d e : ℕ} {cd ce : Table Word}
    {pd pe : Parts} (hs : s.word = .place d) (hd : m.Laid d cd pd) (he : m.Laid e ce pe) (n : ℕ) :
    m.mergeEntry a k (.place e) (n + 1) = m.merge d e n := by
  have hsome : c.get? k = some (.place d) := by rw [h.get?_eq, hk, ← hs]; rfl
  rw [mergeEntry, h.compound?_eq]
  dsimp only [Option.bind_eq_bind, Option.bind_some]
  rw [hsome]
  dsimp only
  rw [hd.compound?_eq, he.compound?_eq]

end Laid

/-! ### Merging apart from one another -/

/-- The compound is merged into any tree that stands apart from it, wherever its places are as they
are in `m`. -/
def Mergeable (m : Memory) (p : Part) : Prop :=
  ∀ {B : Entries}, p.tag = .compound B → ∀ {m₁ : Memory}, (∀ x ∈ p.places, m₁[x]? = m[x]?) →
    ∀ {a : ℕ} {F : List ℕ} {A : Entries}, m₁.Stored ⟨.place a, F, .compound A⟩ → F.Nodup →
      F.Disjoint p.places → ∃ b m' F', p.word = .place b ∧ Ends (m₁.merge a b) m' ∧
        Becomes m₁ a F m' F' (Tag.mergeEntries A B)

/-- **Merging one entry.** -/
theorem mergeEntry_spec (hp : m.Stored p) (hmerge : m.Mergeable p) {m₁ : Memory}
    (hsame : ∀ x ∈ p.places, m₁[x]? = m[x]?) {a : ℕ} {F : List ℕ} {A : Entries}
    (ha : m₁.Stored ⟨.place a, F, .compound A⟩) (hF : F.Nodup) (hsep : F.Disjoint p.places)
    (k : String) : ∃ m' F', Ends (m₁.mergeEntry a k p.word) m' ∧
      Becomes m₁ a F m' F' (Tag.mergeEntry A k p.tag) := by
  obtain ⟨_, c, ps, hlaid, heq⟩ := ha.exists_laid rfl
  cases heq
  have hlookup := lookup_tags k ps
  cases hk : ps.lookup k with
  | none =>
    obtain ⟨m₂, q, hq, hcopy⟩ := clone_spec hp hsame
    obtain ⟨F', hbecomes⟩ := hlaid.exists_becomes_add hF hcopy hk
    rw [hk] at hlookup
    rw [Tag.mergeEntry_of_none hlookup]
    refine ⟨_, F', hq.step fun n hn => ?_, hbecomes⟩
    rw [hlaid.mergeEntry_of_none hk, hn]
    rfl
  | some s =>
    have hp₁ : m₁.Stored p := hp.frame hsame
    have hs : m₁.Stored s := hlaid.stored _ (Assoc.mem_of_lookup hk)
    rw [hk] at hlookup
    by_cases hkind : s.tag.kind ≠ .compound ∨ p.tag.kind ≠ .compound
    · rw [Tag.mergeEntry_of_kind_ne hlookup hkind]
      exact ⟨m₁, _, .of_succ (hlaid.mergeEntry_of_kind_ne hk hp₁ hkind), ha, hF, .refl ..⟩
    · obtain ⟨hsk, hpk⟩ := not_or.mp hkind
      obtain ⟨d, cd, pd, hd, rfl⟩ := hs.exists_laid_of_kind (not_not.mp hsk)
      obtain ⟨e, ce, pe, he, rfl⟩ := hp₁.exists_laid_of_kind (not_not.mp hpk)
      obtain ⟨pre, post, hsplit, -⟩ := List.lookup_eq_some_iff.mp hk
      -- the inner tree is a part of the one that must be apart from itself and from the other
      have hnodup : (d :: places pd).Nodup := by
        rw [hsplit, places_split] at hF
        exact (List.nodup_append.mp (List.nodup_append.mp (List.nodup_cons.mp hF).2).2.1).1
      have hapart : (d :: places pd).Disjoint (e :: places pe) := fun x hx => hsep
        (List.mem_cons_of_mem _ (mem_places.mpr ⟨_, Assoc.mem_of_lookup hk, hx⟩))
      obtain ⟨_, m', G, hword, hmerged, hbecomes⟩ := hmerge rfl hsame hs hnodup hapart
      cases hword
      obtain ⟨F', hbecomes'⟩ := hlaid.exists_becomes_replace hF
        ⟨.place d, G, .compound (Tag.mergeEntries (tags pd) (tags pe))⟩ hsplit rfl
        hbecomes.stored hbecomes.nodup hbecomes.grows
      rw [Tag.mergeEntry_compound hlookup]
      refine ⟨m', F', hmerged.step fun n hn => ?_, hbecomes'⟩
      rw [hlaid.mergeEntry_compound hk rfl hd he, hn]

/-- **Merging entries.** -/
theorem mergeEntries_spec {qs : Parts} (hqs : ∀ q ∈ qs, m.Stored q.2)
    (hmerge : ∀ q ∈ qs, m.Mergeable q.2) {m₁ : Memory}
    (hsame : ∀ x ∈ places qs, m₁[x]? = m[x]?) {a : ℕ} {F : List ℕ} {A : Entries}
    (ha : m₁.Stored ⟨.place a, F, .compound A⟩) (hF : F.Nodup) (hsep : F.Disjoint (places qs)) :
    ∃ m' F', Ends (m₁.mergeEntries a (words qs)) m' ∧
      Becomes m₁ a F m' F' (Tag.mergeEntries A (tags qs)) := by
  induction qs generalizing m₁ F A with
  | nil =>
    exact ⟨m₁, F, .of_succ fun n => rfl, ha, hF, .refl ..⟩
  | cons q qs ih =>
    obtain ⟨hq, hqs⟩ := List.forall_mem_cons.mp hqs
    obtain ⟨hmq, hmerge⟩ := List.forall_mem_cons.mp hmerge
    rw [places, List.flatMap_cons] at hsame hsep
    obtain ⟨hsameq, hsame⟩ := List.forall_mem_append.mp hsame
    obtain ⟨hsepq, hsep⟩ := List.disjoint_append_right.mp hsep
    obtain ⟨m₂, F₂, hfirst, hbecomes⟩ := mergeEntry_spec hq hmq hsameq ha hF hsepq q.1
    -- what is still to be merged is as it was, and apart from the tree that has grown
    have hqs₁ : ∀ p ∈ qs, m₁.Stored p.2 := fun p hp =>
      (hqs p hp).frame fun x hx => hsame x (mem_places.mpr ⟨p, hp, hx⟩)
    have hsame₂ : ∀ x ∈ places qs, m₂[x]? = m[x]? := fun x hx => by
      obtain ⟨p, hp, hxp⟩ := mem_places.mp hx
      rw [← hsame x hx]
      exact (hqs₁ p hp).same_of_grows hbecomes.grows
        (fun y hy hyp => hsep hy (mem_places.mpr ⟨p, hp, hyp⟩)) x hxp
    have hsep₂ : F₂.Disjoint (places qs) := fun x hx hxq => by
      obtain ⟨p, hp, hxp⟩ := mem_places.mp hxq
      exact (hqs₁ p hp).disjoint_of_grows hbecomes.grows
        (fun y hy hyp => hsep hy (mem_places.mpr ⟨p, hp, hyp⟩)) hx hxp
    obtain ⟨m₃, F₃, hrest, hbecomes'⟩ :=
      ih hqs hmerge hsame₂ hbecomes.stored hbecomes.nodup hsep₂
    refine ⟨m₃, F₃, hfirst.step₂ hrest fun n hn hn' => ?_, hbecomes'.stored, hbecomes'.nodup,
      hbecomes.grows.trans hbecomes'.grows⟩
    change m₁.mergeEntries a ((q.1, q.2.word) :: words qs) (n + 1) = _
    rw [mergeEntries, hn]
    exact hn'

theorem mergeable (hp : m.Stored p) : m.Mergeable p := by
  induction hp with
  | leaf t ht =>
    intro B hB
    cases hB
    cases ht
  | list =>
    intro B hB
    cases hB
  | @compound b c qs h hstep hentries hqs ih =>
    intro B hB m₁ hsame a F A ha hF hsep
    cases hB
    obtain ⟨hb, hsame⟩ := List.forall_mem_cons.mp hsame
    obtain ⟨m', F', hmerged, hbecomes⟩ := mergeEntries_spec hqs (fun q hq => @ih q hq) hsame ha hF
      fun x hx hxq => hsep hx (List.mem_cons_of_mem _ hxq)
    have hcompound : m₁.compound? (.place b) = some (b, c) := by rw [compound?, hb, h]
    refine ⟨b, m', F', rfl, hmerged.step fun n hn => ?_, hbecomes⟩
    rw [merge, hcompound, ← hn, ← hentries]
    rfl

/-- **Merging** a compound into another one, which takes up each of its places once and none of
those of the first. -/
theorem merge_spec {a b : ℕ} {F G : List ℕ} {A B : Entries}
    (ha : m.Stored ⟨.place a, F, .compound A⟩) (hF : F.Nodup)
    (hb : m.Stored ⟨.place b, G, .compound B⟩) (hsep : F.Disjoint G) :
    ∃ m' F', Ends (m.merge a b) m' ∧ Becomes m a F m' F' (Tag.mergeEntries A B) := by
  obtain ⟨_, m', F', hword, hmerged, hbecomes⟩ :=
    mergeable hb rfl (fun _ _ => rfl) ha hF hsep
  cases hword
  exact ⟨m', F', hmerged, hbecomes⟩

/-! ### Where there is nothing to write -/

theorem mergeEntries_of_forall {a : ℕ} {es : List (String × Word)}
    (h : ∀ e ∈ es, Ends (m.mergeEntry a e.1 e.2) m) : Ends (m.mergeEntries a es) m := by
  induction es with
  | nil => exact .of_succ fun n => rfl
  | cons e es ih =>
    obtain ⟨he, hes⟩ := List.forall_mem_cons.mp h
    obtain ⟨k, w⟩ := e
    refine he.step₂ (ih hes) fun n hn hn' => ?_
    rw [mergeEntries, hn]
    exact hn'

/-- **Where nothing is lacking, nothing is written**, wherever the trees stand. -/
theorem merge_of_covers (hp : m.Stored p) : ∀ {b : ℕ}, p.word = .place b →
    ∀ {q : Part} {a : ℕ} {A : Entries}, m.Stored q → q.word = .place a → q.tag = .compound A →
      p.tag.kind = .compound → q.tag.Covers p.tag → Ends (m.merge a b) m := by
  induction hp with
  | leaf t ht => exact fun hb => by cases hb
  | list => exact fun _ _ _ _ _ _ _ hkind => by cases hkind
  | @compound b c bs h hstep hentries hbs ih =>
    intro _ hb q a A hq ha hA _ hcovers
    cases hb
    obtain ⟨_, ca, as, hlaid, rfl⟩ := hq.exists_laid hA
    cases ha
    have hb : m.Laid b c bs := ⟨h, hstep, hentries, hbs⟩
    have hentry : ∀ e ∈ words bs, Ends (m.mergeEntry a e.1 e.2) m := by
      intro e he
      obtain ⟨p, hp, rfl⟩ := List.mem_map.mp he
      have hkeys : p.1 ∈ Assoc.keys (tags as) := hcovers [] _ _ rfl rfl
        (keys_tags bs ▸ List.mem_map_of_mem hp)
      rw [keys_tags] at hkeys
      obtain ⟨s, hs⟩ := Option.isSome_iff_exists.mp (Assoc.isSome_lookup_iff.mpr hkeys)
      have hsstored := hlaid.stored _ (Assoc.mem_of_lookup hs)
      have hpstored := hbs p hp
      by_cases hkind : s.tag.kind ≠ .compound ∨ p.2.tag.kind ≠ .compound
      · exact .of_succ (hlaid.mergeEntry_of_kind_ne hs hpstored hkind)
      · obtain ⟨hsk, hpk⟩ := not_or.mp hkind
        have hpk := not_not.mp hpk
        obtain ⟨d, cd, pd, hd, hseq⟩ := hsstored.exists_laid_of_kind (not_not.mp hsk)
        obtain ⟨e, ce, pe, he, hpeq⟩ := hpstored.exists_laid_of_kind hpk
        have hinner : s.tag.Covers p.2.tag := by
          refine hcovers.lookup (k := p.1) ?_ ?_
          · rw [lookup_tags, hs]
            rfl
          · rw [lookup_tags, Assoc.lookup_of_mem hb.nodup_keys hp]
            rfl
        have hmerge := ih p hp (congrArg Part.word hpeq) hsstored (congrArg Part.word hseq)
          (congrArg Part.tag hseq) hpk hinner
        refine hmerge.step fun n hn => ?_
        rw [congrArg Part.word hpeq, hlaid.mergeEntry_compound hs (congrArg Part.word hseq) hd he,
          hn]
    refine (mergeEntries_of_forall hentry).step fun n hn => ?_
    rw [merge, hb.compound?_eq, ← hn, ← hentries]
    rfl

/-! ### What merging does -/

/-- **Two compounds stand apart in memory**: the left one takes up each of its places once and none
of those of the right one. -/
structure Apart (m : Memory) (a : ℕ) (F : List ℕ) (A : Entries) (b : ℕ) (G : List ℕ)
    (B : Entries) : Prop where
  left : m.Stored ⟨.place a, F, .compound A⟩
  nodup : F.Nodup
  right : m.Stored ⟨.place b, G, .compound B⟩
  disjoint : F.Disjoint G

theorem exists_apart {A B : Entries} (hA : (Tag.compound A).isWellFormed = true)
    (hB : (Tag.compound B).isWellFormed = true) : ∃ m a F b G, Apart m a F A b G B := by
  obtain ⟨m₁, q, copy⟩ := exists_isCopy hA []
  obtain ⟨a, c, ps, hlaid, rfl⟩ := copy.stored.exists_laid copy.tag
  obtain ⟨m₂, r, copy'⟩ := exists_isCopy hB m₁
  obtain ⟨b, c', qs, hlaid', rfl⟩ := copy'.stored.exists_laid copy'.tag
  have hleft := hlaid.toStored
  have hright := hlaid'.toStored
  rw [show tags ps = A from Tag.compound.inj copy.tag] at hleft
  rw [show tags qs = B from Tag.compound.inj copy'.tag] at hright
  refine ⟨m₂, a, _, b, _, hleft.of_isPrefix copy'.more, copy.nodup, hright, fun x hx hx' => ?_⟩
  exact absurd (hleft.lt_length x hx) (copy'.fresh x hx').not_gt

/-- **Merging is a left-biased union, in place.** Merging one well-formed compound into another
makes the union of the two. Doing it a second time changes nothing, and neither does merging a
compound into itself. There is room for two such compounds apart in memory, and wherever they stand
apart, merging comes to an end with the union in the place of the left one. Every place outside the
left one is as it was, so that the right one is unchanged, and the two stand apart again. Nothing at
all is written by a second merging or by the merging of a compound into itself. -/
theorem merge_isUnion {A B : Entries} (hA : (Tag.compound A).isWellFormed = true)
    (hB : (Tag.compound B).isWellFormed = true) :
    ∃ C, C = Tag.merge A (some (.compound B)) ∧
      Tag.IsUnion (.compound A) (.compound B) (.compound C) ∧
      Tag.merge C (some (.compound B)) = C ∧ Tag.merge A (some (.compound A)) = A ∧
      (∃ m a F b G, Apart m a F A b G B) ∧
      ∀ m a F b G, Apart m a F A b G B → ∃ m' F', Ends (m.merge a b) m' ∧
        Apart m' a F' C b G B ∧ (∀ x < m.length, x ∉ F → m'[x]? = m[x]?) ∧
        Ends (m'.merge a b) m' ∧ Ends (m.merge a a) m := by
  have hA' := Tag.hasMaps_of_isWellFormed hA
  have hB' := Tag.hasMaps_of_isWellFormed hB
  have hcovers := Tag.covers_mergeEntries A hB'
  refine ⟨Tag.mergeEntries A B, rfl, Tag.isUnion_mergeEntries A hB',
    Tag.mergeEntries_of_covers _ hB' rfl hcovers,
    Tag.mergeEntries_of_covers _ hA' rfl (.refl _), exists_apart hA hB, ?_⟩
  intro m a F b G h
  obtain ⟨m', F', hmerge, hbecomes⟩ := merge_spec h.left h.nodup h.right h.disjoint
  have hright := h.right.frame (h.right.same_of_grows hbecomes.grows h.disjoint)
  have hapart : Apart m' a F' (Tag.mergeEntries A B) b G B :=
    ⟨hbecomes.stored, hbecomes.nodup, hright,
      h.right.disjoint_of_grows hbecomes.grows h.disjoint⟩
  refine ⟨m', F', hmerge, hapart, hbecomes.grows.others, ?_, ?_⟩
  · exact merge_of_covers hright rfl hbecomes.stored rfl rfl rfl hcovers
  · exact merge_of_covers h.left rfl h.left rfl rfl rfl (.refl _)

/-- A right compound that has one compound under three names, and a left one that has a compound of
its own under the first of them. -/
theorem merge_isUnion_shared : ∃ m m' : Memory,
    m[3]? = some (.compound (.ofEntries [("p", .place 2), ("q", .place 2), ("r", .place 2)])) ∧
      Ends (m.merge 1 3) m' ∧
      (∃ F, m'.Stored ⟨.place 1, F, .compound
        [("p", .compound [("x", .byte 1), ("y", .int 4)]), ("q", .int 2),
          ("r", .compound [("x", .int 3), ("y", .int 4)])]⟩) ∧
      Ends (m'.merge 1 3) m' := by
  let m : Memory := [.compound (.ofEntries [("x", .leaf (.byte 1))]),
    .compound (.ofEntries [("p", .place 0), ("q", .leaf (.int 2))]),
    .compound (.ofEntries [("x", .leaf (.int 3)), ("y", .leaf (.int 4))]),
    .compound (.ofEntries [("p", .place 2), ("q", .place 2), ("r", .place 2)])]
  have h₀ : m.Stored ⟨.place 0, [0], .compound [("x", .byte 1)]⟩ :=
    (laid_ofEntries [("x", ⟨.leaf (.byte 1), [], .byte 1⟩)] rfl (by decide)
      (List.forall_mem_singleton.mpr (.leaf _ rfl))).toStored
  have h₁ := (laid_ofEntries (m := m) (a := 1)
    [("p", ⟨.place 0, [0], .compound [("x", .byte 1)]⟩), ("q", ⟨.leaf (.int 2), [], .int 2⟩)]
    rfl (by decide)
    (List.forall_mem_cons.mpr ⟨h₀, List.forall_mem_singleton.mpr (.leaf _ rfl)⟩)).toStored
  have h₂ : m.Stored ⟨.place 2, [2], .compound [("x", .int 3), ("y", .int 4)]⟩ :=
    (laid_ofEntries [("x", ⟨.leaf (.int 3), [], .int 3⟩), ("y", ⟨.leaf (.int 4), [], .int 4⟩)]
      rfl (by decide)
      (List.forall_mem_cons.mpr
        ⟨.leaf _ rfl, List.forall_mem_singleton.mpr (.leaf _ rfl)⟩)).toStored
  have h₃ := (laid_ofEntries (m := m) (a := 3)
    (["p", "q", "r"].map (·, ⟨.place 2, [2], .compound [("x", .int 3), ("y", .int 4)]⟩))
    rfl (by decide) (by simp [h₂])).toStored
  obtain ⟨C, hC, -, -, -, -, hmemory⟩ := merge_isUnion
    (A := [("p", .compound [("x", .byte 1)]), ("q", .int 2)])
    (B := ["p", "q", "r"].map (·, .compound [("x", .int 3), ("y", .int 4)])) rfl rfl
  obtain ⟨m', F', hmerge, hapart, -, hagain, -⟩ :=
    hmemory m 1 _ 3 _ ⟨h₁, by decide, h₃, by simp [places]⟩
  subst hC
  exact ⟨m, m', rfl, hmerge, ⟨F', hapart.left⟩, hagain⟩

end Memory

end Statuary
