import Statuary.Proofs.Tag.Node
import Statuary.Proofs.Tag.RoundTrip

/-!
# Merging is a union of trees

Merging one compound into another writes what the other lacks, and goes on in the compounds that
both have under one name. What comes out is told by **paths of names** (`Statuary.Tag.at?`): which
tag stands at the end of a path is decided by what the two have there (`Statuary.Tag.IsUnion`). The
left one wins wherever it has something, and what it lacks comes from the right one with all that is
below it, unless the left one has a tag on the way that is no compound; then nothing can be added
there.

All of this is one equation for a single name (`Statuary.Tag.lookup_mergeEntries`), followed along a
path: merging commutes with going down to compounds that both have
(`Statuary.Tag.at?_mergeEntries`). It needs that the right one has no name twice, for a second entry
with a name would be merged into the first.

What there is to do in a merging is to write what the left one lacks. So there is nothing to do
where the left one has all the names of the right one, in all compounds that both have
(`Statuary.Tag.Covers`): a tree has its own names, and a union has those of the right one
(`Statuary.Tag.covers_mergeEntries`).
-/

namespace Statuary.Tag

/-! ### Paths of names -/

/-- The tag at the end of a path of names. -/
def at? (t : Tag) (path : List String) : Option Tag :=
  t.follow? (path.map .key)

@[simp] theorem at?_nil (t : Tag) : t.at? [] = some t := rfl

theorem at?_compound_cons (es : Entries) (k : String) (p : List String) :
    (compound es).at? (k :: p) = (es.lookup k).bind (·.at? p) := rfl

theorem at?_append (t : Tag) (p q : List String) : t.at? (p ++ q) = (t.at? p).bind (·.at? q) := by
  rw [at?, List.map_append, follow?, List.foldlM_append]
  rfl

theorem exists_compound_of_kind {t : Tag} (h : t.kind = .compound) : ∃ es, t = compound es := by
  cases t with
  | compound es => exact ⟨es, rfl⟩
  | _ => cases h

/-- Only compounds have something under a name. -/
theorem exists_compound_of_at?_cons {t u : Tag} {k : String} {p : List String}
    (h : t.at? (k :: p) = some u) : ∃ es, t = compound es := by
  cases t with
  | compound es => exact ⟨es, rfl⟩
  | _ => cases h

/-- A path that leads to a compound leads through compounds. -/
theorem exists_compound_of_at? {t : Tag} {p : List String} {X : Entries}
    (h : t.at? p = some (compound X)) : ∃ es, t = compound es := by
  cases p with
  | nil => exact ⟨X, Option.some.inj h⟩
  | cons k p => exact exists_compound_of_at?_cons h

/-- No compound at the end of a path has a name twice. -/
def HasMaps (t : Tag) : Prop :=
  ∀ p es, t.at? p = some (compound es) → (Assoc.keys es).Nodup

theorem HasMaps.lookup {es : Entries} (h : (compound es).HasMaps) {k : String} {t : Tag}
    (ht : es.lookup k = some t) : t.HasMaps := by
  intro p fs hp
  refine h (k :: p) fs ?_
  rw [at?_compound_cons, ht]
  exact hp

theorem HasMaps.nodup {es : Entries} (h : (compound es).HasMaps) : (Assoc.keys es).Nodup :=
  h [] es rfl

theorem hasMaps_of_isWellFormed {t : Tag} (h : t.isWellFormed = true) : t.HasMaps := by
  intro p
  induction p generalizing t with
  | nil =>
    intro es hes
    cases hes
    exact (isWellFormed_compound.mp h).1
  | cons k p ih =>
    intro es hes
    obtain ⟨fs, rfl⟩ := exists_compound_of_at?_cons hes
    rw [at?_compound_cons, Option.bind_eq_some_iff] at hes
    obtain ⟨u, hu, hes⟩ := hes
    exact ih ((isWellFormed_compound.mp h).2 _ (Assoc.mem_of_lookup hu)) es hes

/-! ### One name -/

/-- What stands under a name in a union. -/
def join : Option Tag → Option Tag → Option Tag
  | some (.compound X), some (.compound Y) => some (.compound (mergeEntries X Y))
  | some t, _ => some t
  | none, u => u

@[simp] theorem join_none (o : Option Tag) : join o none = o := by
  rcases o with _ | t
  · rfl
  · cases t <;> rfl

theorem join_of_kind_ne {t : Tag} (h : t.kind ≠ .compound) (o : Option Tag) :
    join (some t) o = some t := by
  cases t with
  | compound => exact absurd rfl h
  | _ => rfl

theorem join_some_of_kind_ne (s : Tag) {t : Tag} (h : t.kind ≠ .compound) :
    join (some s) (some t) = some s := by
  cases t with
  | compound => exact absurd rfl h
  | _ => cases s <;> rfl

theorem mergeEntry_of_none {es : Entries} {k : String} (hk : es.lookup k = none) (t : Tag) :
    mergeEntry es k t = Assoc.put k t es := by
  by_cases ht : t.kind = .compound
  · obtain ⟨Y, rfl⟩ := exists_compound_of_kind ht
    rw [mergeEntry, hk]
  · rw [Node.mergeEntry_of_kind_ne es k ht, hk]
    rfl

theorem mergeEntry_compound {es X : Entries} {k : String} (hk : es.lookup k = some (compound X))
    (Y : Entries) :
    mergeEntry es k (compound Y) = Assoc.put k (compound (mergeEntries X Y)) es := by
  rw [mergeEntry, hk]

/-- Nothing is done where not both have compounds. -/
theorem mergeEntry_of_kind_ne {es : Entries} {k : String} {s t : Tag} (hk : es.lookup k = some s)
    (h : s.kind ≠ .compound ∨ t.kind ≠ .compound) : mergeEntry es k t = es := by
  by_cases ht : t.kind = .compound
  · obtain ⟨Y, rfl⟩ := exists_compound_of_kind ht
    exact Node.mergeEntry_compound_of_kind_ne hk (h.resolve_right (not_not_intro rfl))
  · rw [Node.mergeEntry_of_kind_ne es k ht, hk]
    rfl

/-- Merging an entry writes what stands under its name in the union. -/
theorem exists_mergeEntry_eq_put (es : Entries) (k : String) (t : Tag) :
    ∃ u, join (es.lookup k) (some t) = some u ∧ mergeEntry es k t = Assoc.put k u es := by
  cases hk : es.lookup k with
  | none => exact ⟨t, rfl, mergeEntry_of_none hk t⟩
  | some s =>
    by_cases h : s.kind ≠ .compound ∨ t.kind ≠ .compound
    · refine ⟨s, ?_, (mergeEntry_of_kind_ne hk h).trans (Assoc.put_self hk).symm⟩
      exact h.elim (join_of_kind_ne · _) (join_some_of_kind_ne s)
    · obtain ⟨hs, ht⟩ := not_or.mp h
      obtain ⟨X, rfl⟩ := exists_compound_of_kind (not_not.mp hs)
      obtain ⟨Y, rfl⟩ := exists_compound_of_kind (not_not.mp ht)
      exact ⟨_, rfl, mergeEntry_compound hk Y⟩

theorem keys_mergeEntries (A B : Entries) :
    Assoc.keys (mergeEntries A B) = (Assoc.keys B).foldl Assoc.addKey (Assoc.keys A) := by
  induction B generalizing A with
  | nil => rfl
  | cons e B ih =>
    obtain ⟨k, t⟩ := e
    obtain ⟨u, -, hmerge⟩ := exists_mergeEntry_eq_put A k t
    rw [mergeEntries, ih, hmerge, Assoc.keys_put_eq_addKey]
    rfl

/-- **What stands under a name** in a union. -/
theorem lookup_mergeEntries (A : Entries) {B : Entries} (hB : (Assoc.keys B).Nodup) (j : String) :
    (mergeEntries A B).lookup j = join (A.lookup j) (B.lookup j) := by
  induction B generalizing A with
  | nil => rw [mergeEntries, List.lookup_nil, join_none]
  | cons e B ih =>
    obtain ⟨k, t⟩ := e
    obtain ⟨hk, hB⟩ := List.nodup_cons.mp hB
    obtain ⟨u, hjoin, hmerge⟩ := exists_mergeEntry_eq_put A k t
    rw [mergeEntries, ih _ hB, hmerge, Assoc.lookup_put, List.lookup_cons]
    by_cases hj : j = k
    · rw [if_pos hj, hj, Assoc.lookup_eq_none_iff.mpr hk, beq_self_eq_true, hjoin, join_none]
    · rw [if_neg hj, beq_eq_false_iff_ne.mpr hj]

/-! ### Along a path -/

variable {A B : Entries}

/-- One step down in a union. -/
theorem at?_mergeEntries_cons (hB : (compound B).HasMaps) (k : String) (p : List String) :
    (compound (mergeEntries A B)).at? (k :: p) =
      (join (A.lookup k) (B.lookup k)).bind (·.at? p) := by
  rw [at?_compound_cons, lookup_mergeEntries A hB.nodup]

/-- **Merging commutes with going down** to compounds that both have. -/
theorem at?_mergeEntries (hB : (compound B).HasMaps) {p : List String} {X Y : Entries}
    (hX : (compound A).at? p = some (compound X)) (hY : (compound B).at? p = some (compound Y)) :
    (compound (mergeEntries A B)).at? p = some (compound (mergeEntries X Y)) := by
  induction p generalizing A B with
  | nil =>
    cases hX
    cases hY
    rfl
  | cons k p ih =>
    rw [at?_compound_cons, Option.bind_eq_some_iff] at hX hY
    obtain ⟨s, hs, hX⟩ := hX
    obtain ⟨t, ht, hY⟩ := hY
    obtain ⟨S, rfl⟩ := exists_compound_of_at? hX
    obtain ⟨T, rfl⟩ := exists_compound_of_at? hY
    rw [at?_mergeEntries_cons hB, hs, ht]
    exact ih (hB.lookup ht) hX hY

/-- What the left one has stays, compounds that both have apart. -/
theorem at?_mergeEntries_of_some (hB : (compound B).HasMaps) {p : List String} {t : Tag}
    (ht : (compound A).at? p = some t)
    (h : t.kind ≠ .compound ∨ ∀ Y, (compound B).at? p ≠ some (compound Y)) :
    (compound (mergeEntries A B)).at? p = some t := by
  induction p generalizing A B with
  | nil =>
    cases ht
    rcases h with h | h
    · exact absurd rfl h
    · exact absurd rfl (h B)
  | cons k p ih =>
    rw [at?_compound_cons, Option.bind_eq_some_iff] at ht
    obtain ⟨s, hs, ht⟩ := ht
    rw [at?_mergeEntries_cons hB, hs]
    by_cases hboth : ∃ S T, s = compound S ∧ B.lookup k = some (compound T)
    · obtain ⟨S, T, rfl, hT⟩ := hboth
      rw [hT]
      refine ih (hB.lookup hT) ht (h.imp_right fun h Y hY => h Y ?_)
      rw [at?_compound_cons, hT]
      exact hY
    · have hjoin : join (some s) (B.lookup k) = some s := by
        by_cases hkind : s.kind = .compound
        · obtain ⟨S, rfl⟩ := exists_compound_of_kind hkind
          cases hk : B.lookup k with
          | none => rfl
          | some u =>
            refine join_some_of_kind_ne _ fun hu => hboth ?_
            obtain ⟨T, rfl⟩ := exists_compound_of_kind hu
            exact ⟨S, T, rfl, hk⟩
        · exact join_of_kind_ne hkind _
      rw [hjoin]
      exact ht

/-- What the left one lacks comes from the right one, below compounds that both have. -/
theorem at?_mergeEntries_of_none (hB : (compound B).HasMaps) {p : List String} {k : String}
    {X Y : Entries} (hX : (compound A).at? p = some (compound X))
    (hY : (compound B).at? p = some (compound Y)) (hk : X.lookup k = none) (q : List String) :
    (compound (mergeEntries A B)).at? (p ++ k :: q) = (compound B).at? (p ++ k :: q) := by
  have hYmaps : (compound Y).HasMaps := by
    intro r es hr
    refine hB (p ++ r) es ?_
    rw [at?_append, hY]
    exact hr
  rw [at?_append, at?_append, at?_mergeEntries hB hX hY, hY]
  change (compound _).at? (k :: q) = (compound Y).at? (k :: q)
  rw [at?_mergeEntries_cons hYmaps, hk]
  rfl

/-! ### The union of two trees -/

/-- **The left-biased union of two trees**, told by paths of names. -/
structure IsUnion (a b c : Tag) : Prop where
  /-- Where both have compounds, the names of the left one come first, and of the right one those
  that the left one lacks. -/
  keys : ∀ p X Y, a.at? p = some (compound X) → b.at? p = some (compound Y) →
    ∃ Z, c.at? p = some (compound Z) ∧
      Assoc.keys Z = Assoc.keys X ++ (Assoc.keys Y).filter (· ∉ Assoc.keys X)
  /-- What the left one has stays as it is if it is no compound, or if the right one has none there.
  -/
  kept : ∀ p t, a.at? p = some t →
    t.kind ≠ .compound ∨ (∀ Y, b.at? p ≠ some (compound Y)) → c.at? p = some t
  /-- What the left one lacks is as in the right one, if the longest part of the path on which the
  left one has something leads to compounds in both. -/
  added : ∀ p q X Y, a.at? p = none → q <+: p → a.at? q = some (compound X) →
    (∀ r, r <+: p → (a.at? r).isSome → r <+: q) → b.at? q = some (compound Y) →
    c.at? p = b.at? p

/-- **Merging is the union.** -/
theorem isUnion_mergeEntries (A : Entries) {B : Entries} (hB : (compound B).HasMaps) :
    IsUnion (compound A) (compound B) (compound (mergeEntries A B)) where
  keys p X Y hX hY := by
    refine ⟨_, at?_mergeEntries hB hX hY, ?_⟩
    rw [keys_mergeEntries, Assoc.foldl_addKey (hB p Y hY)]
  kept p t ht h := at?_mergeEntries_of_some hB ht h
  added p q X Y hp hq hX hlongest hY := by
    obtain ⟨rest, rfl⟩ := hq
    cases rest with
    | nil =>
      rw [List.append_nil, hX] at hp
      cases hp
    | cons k rest =>
      refine at?_mergeEntries_of_none hB hX hY ?_ rest
      -- one more name would lead further than the longest part
      cases hk : X.lookup k with
      | none => rfl
      | some t =>
        have hfurther : (compound A).at? (q ++ [k]) = some t := by
          rw [at?_append, hX]
          change (compound X).at? [k] = some t
          rw [at?_compound_cons, hk]
          rfl
        have hle := (hlongest (q ++ [k]) ⟨rest, by simp⟩ (by rw [hfurther]; rfl)).length_le
        rw [List.length_append, List.length_singleton] at hle
        omega

/-- Wherever both have compounds, the first has all the names of the second. -/
def Covers (a b : Tag) : Prop :=
  ∀ p X Y, a.at? p = some (compound X) → b.at? p = some (compound Y) →
    Assoc.keys Y ⊆ Assoc.keys X

theorem Covers.refl (a : Tag) : a.Covers a := by
  intro p X Y hX hY
  obtain rfl := compound.inj (Option.some.inj (hX.symm.trans hY))
  exact List.Subset.refl _

theorem Covers.lookup (h : (compound A).Covers (compound B)) {k : String} {s t : Tag}
    (hs : A.lookup k = some s) (ht : B.lookup k = some t) : s.Covers t := by
  intro p X Y hX hY
  refine h (k :: p) X Y ?_ ?_
  · rw [at?_compound_cons, hs]
    exact hX
  · rw [at?_compound_cons, ht]
    exact hY

/-- **A union has all the names** of the right one. -/
theorem covers_mergeEntries (A : Entries) {B : Entries} (hB : (compound B).HasMaps) :
    (compound (mergeEntries A B)).Covers (compound B) := by
  intro p
  induction p generalizing A B with
  | nil =>
    intro Z Y hZ hY k hk
    cases hZ
    cases hY
    rw [keys_mergeEntries, Assoc.foldl_addKey hB.nodup, List.mem_append]
    by_cases hA : k ∈ Assoc.keys A
    · exact .inl hA
    · exact .inr (List.mem_filter.mpr ⟨hk, by simpa using hA⟩)
  | cons k p ih =>
    intro Z Y hZ hY
    rw [at?_compound_cons, Option.bind_eq_some_iff] at hY
    obtain ⟨t, ht, hY⟩ := hY
    obtain ⟨T, rfl⟩ := exists_compound_of_at? hY
    rw [at?_mergeEntries_cons hB, ht, Option.bind_eq_some_iff] at hZ
    obtain ⟨u, hu, hZ⟩ := hZ
    obtain ⟨U, rfl⟩ := exists_compound_of_at? hZ
    cases hs : A.lookup k with
    | none =>
      rw [hs] at hu
      cases hu
      exact Covers.refl _ p Z Y hZ hY
    | some s =>
      rw [hs] at hu
      cases s with
      | compound S =>
        cases hu
        exact ih S (hB.lookup ht) Z Y hZ hY
      | _ => cases hu

theorem mergeEntries_of_forall {A es : Entries} (h : ∀ e ∈ es, mergeEntry A e.1 e.2 = A) :
    mergeEntries A es = A := by
  induction es with
  | nil => rfl
  | cons e es ih =>
    obtain ⟨he, hes⟩ := List.forall_mem_cons.mp h
    obtain ⟨k, t⟩ := e
    rw [mergeEntries, he]
    exact ih hes

/-- **Where nothing is lacking, nothing changes.** -/
theorem mergeEntries_of_covers (b : Tag) (hb : b.HasMaps) : ∀ {A B : Entries}, b = compound B →
    (compound A).Covers (compound B) → mergeEntries A B = A := by
  induction b using induct with
  | compound es ih =>
    intro A B hB hcovers
    cases hB
    -- each of the entries writes what stands there already
    have hentry : ∀ e ∈ es, mergeEntry A e.1 e.2 = A := by
      intro e he
      have ht : es.lookup e.1 = some e.2 := Assoc.lookup_of_mem hb.nodup he
      have hk : e.1 ∈ Assoc.keys A := hcovers [] A es rfl rfl (List.mem_map_of_mem he)
      obtain ⟨s, hs⟩ := Option.isSome_iff_exists.mp (Assoc.isSome_lookup_iff.mpr hk)
      obtain ⟨u, hjoin, hmerge⟩ := exists_mergeEntry_eq_put A e.1 e.2
      rw [hs] at hjoin
      have hsame : u = s := by
        by_cases hs' : s.kind = .compound
        · by_cases ht' : e.2.kind = .compound
          · obtain ⟨S, rfl⟩ := exists_compound_of_kind hs'
            obtain ⟨T, hT⟩ := exists_compound_of_kind ht'
            rw [hT] at hjoin
            cases hjoin
            rw [ih e he (hb.lookup ht) hT (hT ▸ hcovers.lookup hs ht)]
          · rw [join_some_of_kind_ne s ht'] at hjoin
            exact (Option.some.inj hjoin).symm
        · rw [join_of_kind_ne hs'] at hjoin
          exact (Option.some.inj hjoin).symm
      rw [hmerge, hsame, Assoc.put_self hs]
    exact mergeEntries_of_forall hentry
  | _ =>
    intro A B hB
    cases hB

end Statuary.Tag
