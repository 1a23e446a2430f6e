import Statuary.Proofs.Tag.Table
import Statuary.Tag.Edit

/-!
# Trees in memory

A tree in memory (`Statuary.Node`) has a table with an index where a tag has the entries of a
compound. **Forgetting the indices gives the tag** (`Statuary.Node.tag`), and copying and merging
trees are, seen through it, what they are for tags (`Statuary.Node.clone_spec`,
`Statuary.Node.becomes_mergeTable`).

For this every index in the tree must be in step, and the copies that are put in must be good too;
so the invariant is one of the whole tree (`Statuary.Node.Sound`). What a tree keeps is said by
places: `Statuary.Node.Grows` lets a place be lost, and demands of any other that what was there is
there still, with its names in their positions and its kind of items. An operation below the root
loses places below the root, so the set of lost places is a parameter that goes down with the
recursion.
-/

namespace Statuary

/-- A tag without tags inside. -/
def Tag.isLeaf : Tag → Bool
  | .list .. => false
  | .compound _ => false
  | _ => true

theorem Tag.kind_ne_of_isLeaf {t : Tag} (h : t.isLeaf = true) : t.kind ≠ .compound := by
  cases t with
  | compound => cases h
  | _ => nofun

/-- **A tree in memory**: a compound is a table with an index. -/
inductive Node where
  /-- A tag without tags inside. -/
  | leaf (t : Tag) (h : t.isLeaf = true)
  /-- A list with the kind of its items. -/
  | list (elem : Kind) (items : List Node)
  /-- A compound. -/
  | compound (c : Table Node)

namespace Node

/-- The kind of a tree. -/
def kind : Node → Kind
  | leaf t _ => t.kind
  | list .. => .list
  | compound _ => .compound

mutual

/-- **The tag that a tree in memory is**, its indices forgotten. -/
def tag : Node → Tag
  | leaf t _ => t
  | list elem items => .list elem (tagItems items)
  | compound ⟨entries, _⟩ => .compound (tagEntries entries)

/-- The items of a list as tags. -/
def tagItems : List Node → List Tag
  | [] => []
  | n :: ns => tag n :: tagItems ns

/-- The entries of a compound as tags. -/
def tagEntries : List (String × Node) → Entries
  | [] => []
  | (k, n) :: es => (k, tag n) :: tagEntries es

end

mutual

/-- A copy of a tree. The index of a compound is made anew, entry by entry. -/
def clone : Node → Node
  | leaf t h => leaf t h
  | list elem items => list elem (cloneItems items)
  | compound ⟨entries, _⟩ => compound (.ofEntries (cloneEntries entries))

/-- Copies of items. -/
def cloneItems : List Node → List Node
  | [] => []
  | n :: ns => clone n :: cloneItems ns

/-- Copies of entries. -/
def cloneEntries : List (String × Node) → List (String × Node)
  | [] => []
  | (k, n) :: es => (k, clone n) :: cloneEntries es

end

mutual

/-- Writes copies of the entries that a table lacks, and merges the compounds that both have. -/
def mergeTable (c : Table Node) : List (String × Node) → Table Node
  | [] => c
  | (k, n) :: es => mergeTable (mergeNode c k n) es

/-- Merges one entry. A compound that is there is changed where it is. -/
def mergeNode (c : Table Node) (k : String) : Node → Table Node
  | compound ⟨entries, index⟩ =>
    match c.get? k with
    | none => c.put k (clone (compound ⟨entries, index⟩))
    | some (compound inner) => c.replace k (compound (mergeTable inner entries))
    | some _ => c
  | n =>
    match c.get? k with
    | none => c.put k (clone n)
    | some _ => c

end

/-! ### Everywhere in a tree -/

mutual

/-- Something holds of every compound and something of every list in a tree. -/
def Everywhere (P : Table Node → Prop) (Q : Kind → List Node → Prop) : Node → Prop
  | leaf .. => True
  | list elem items => Q elem items ∧ EverywhereItems P Q items
  | compound ⟨entries, index⟩ => P ⟨entries, index⟩ ∧ EverywhereEntries P Q entries

/-- The same in each of the items of a list. -/
def EverywhereItems (P : Table Node → Prop) (Q : Kind → List Node → Prop) : List Node → Prop
  | [] => True
  | n :: ns => Everywhere P Q n ∧ EverywhereItems P Q ns

/-- The same in each of the entries of a compound. -/
def EverywhereEntries (P : Table Node → Prop) (Q : Kind → List Node → Prop) :
    List (String × Node) → Prop
  | [] => True
  | (_, n) :: es => Everywhere P Q n ∧ EverywhereEntries P Q es

end

section

variable {P P' : Table Node → Prop} {Q Q' : Kind → List Node → Prop}

theorem everywhereItems_iff {ns : List Node} :
    EverywhereItems P Q ns ↔ ∀ n ∈ ns, n.Everywhere P Q := by
  induction ns with
  | nil => exact ⟨fun _ _ hn => absurd hn List.not_mem_nil, fun _ => trivial⟩
  | cons n ns ih => rw [EverywhereItems, ih, List.forall_mem_cons]

theorem everywhereEntries_iff {es : List (String × Node)} :
    EverywhereEntries P Q es ↔ ∀ e ∈ es, e.2.Everywhere P Q := by
  induction es with
  | nil => exact ⟨fun _ _ hn => absurd hn List.not_mem_nil, fun _ => trivial⟩
  | cons e es ih =>
    obtain ⟨k, n⟩ := e
    rw [EverywhereEntries, ih, List.forall_mem_cons]

theorem everywhere_list {elem : Kind} {items : List Node} :
    (list elem items).Everywhere P Q ↔ Q elem items ∧ ∀ n ∈ items, n.Everywhere P Q := by
  rw [Everywhere, everywhereItems_iff]

theorem everywhere_compound {c : Table Node} :
    (compound c).Everywhere P Q ↔ P c ∧ ∀ e ∈ c.entries, e.2.Everywhere P Q := by
  cases c
  rw [Everywhere, everywhereEntries_iff]

mutual

theorem Everywhere.imp (hP : ∀ c, P c → P' c) (hQ : ∀ elem items, Q elem items → Q' elem items) :
    ∀ n : Node, n.Everywhere P Q → n.Everywhere P' Q'
  | leaf .. => fun _ => trivial
  | list _ items => fun h => ⟨hQ _ _ h.1, everywhereItems_imp hP hQ items h.2⟩
  | compound ⟨entries, _⟩ => fun h => ⟨hP _ h.1, everywhereEntries_imp hP hQ entries h.2⟩

theorem everywhereItems_imp (hP : ∀ c, P c → P' c)
    (hQ : ∀ elem items, Q elem items → Q' elem items) :
    ∀ ns : List Node, EverywhereItems P Q ns → EverywhereItems P' Q' ns
  | [] => fun _ => trivial
  | n :: ns => fun h => ⟨Everywhere.imp hP hQ n h.1, everywhereItems_imp hP hQ ns h.2⟩

theorem everywhereEntries_imp (hP : ∀ c, P c → P' c)
    (hQ : ∀ elem items, Q elem items → Q' elem items) :
    ∀ es : List (String × Node), EverywhereEntries P Q es → EverywhereEntries P' Q' es
  | [] => fun _ => trivial
  | (_, n) :: es => fun h => ⟨Everywhere.imp hP hQ n h.1, everywhereEntries_imp hP hQ es h.2⟩

end

end

/-- All items are of the kind of the list. -/
def OfOneKind (elem : Kind) (items : List Node) : Prop :=
  ∀ n ∈ items, n.kind = elem

/-- **A sound tree**: every index is in step, and every list is of one kind. -/
def Sound (n : Node) : Prop :=
  n.Everywhere Table.InStep OfOneKind

theorem sound_list {elem : Kind} {items : List Node} :
    (list elem items).Sound ↔ OfOneKind elem items ∧ ∀ n ∈ items, n.Sound :=
  everywhere_list

theorem sound_compound {c : Table Node} :
    (compound c).Sound ↔ c.InStep ∧ ∀ e ∈ c.entries, e.2.Sound :=
  everywhere_compound

section

variable {c : Table Node}

theorem sound_of_get? (h : (compound c).Sound) {k : String} {n : Node} (hn : c.get? k = some n) :
    n.Sound := by
  obtain ⟨hstep, hentries⟩ := sound_compound.mp h
  exact hentries (k, n) ((hstep.get?_eq_some_iff k n).mp hn)

theorem sound_put (h : (compound c).Sound) (k : String) {n : Node} (hn : n.Sound) :
    (compound (c.put k n)).Sound := by
  obtain ⟨hstep, hentries⟩ := sound_compound.mp h
  refine sound_compound.mpr ⟨hstep.put k n, fun e he => ?_⟩
  rw [hstep.entries_put] at he
  rcases Assoc.mem_put he with rfl | he
  · exact hn
  · exact hentries e he

theorem sound_replace (h : (compound c).Sound) {k : String} {m n : Node} (hm : c.get? k = some m)
    (hn : n.Sound) : (compound (c.replace k n)).Sound := by
  obtain ⟨hstep, hentries⟩ := sound_compound.mp h
  refine sound_compound.mpr ⟨hstep.replace k n, fun e he => ?_⟩
  rw [hstep.entries_replace hm] at he
  rcases Assoc.mem_put he with rfl | he
  · exact hn
  · exact hentries e he

theorem sound_empty (indexed : Bool) : (compound (.empty indexed)).Sound :=
  sound_compound.mpr ⟨Table.inStep_empty indexed, fun _ he => absurd he List.not_mem_nil⟩

end

/-! ### The tags of trees -/

theorem tagItems_eq (ns : List Node) : tagItems ns = ns.map tag := by
  induction ns with
  | nil => rfl
  | cons n ns ih => rw [tagItems, ih, List.map_cons]

theorem tagEntries_eq (es : List (String × Node)) :
    tagEntries es = es.map fun e => (e.1, e.2.tag) := by
  induction es with
  | nil => rfl
  | cons e es ih =>
    obtain ⟨k, n⟩ := e
    rw [tagEntries, ih, List.map_cons]

theorem tag_compound (c : Table Node) : (compound c).tag = .compound (tagEntries c.entries) := by
  cases c
  rfl

theorem kind_tag (n : Node) : n.tag.kind = n.kind := by
  cases n with
  | leaf => rfl
  | list => rfl
  | compound c => rw [tag_compound]; rfl

theorem tagEntries_put (k : String) (n : Node) (es : List (String × Node)) :
    tagEntries (Assoc.put k n es) = Assoc.put k n.tag (tagEntries es) := by
  induction es with
  | nil => rfl
  | cons e es ih =>
    obtain ⟨j, m⟩ := e
    rw [Assoc.put, tagEntries, Assoc.put]
    split_ifs
    · rw [tagEntries]
    · rw [tagEntries, ih]

/-- What is found under a name in the tag of a compound. -/
theorem lookup_tagEntries {c : Table Node} (h : c.InStep) (k : String) :
    (tagEntries c.entries).lookup k = (c.get? k).map tag := by
  rw [h.get?_eq]
  generalize c.entries = es
  induction es with
  | nil => rfl
  | cons e es ih =>
    obtain ⟨j, m⟩ := e
    rw [tagEntries, List.lookup_cons, List.lookup_cons]
    cases k == j
    · exact ih
    · rfl

theorem keys_tagEntries (es : List (String × Node)) :
    Assoc.keys (tagEntries es) = Assoc.keys es := by
  rw [tagEntries_eq, Assoc.keys, Assoc.keys, List.map_map]
  rfl

theorem ofOneKind_iff {elem : Kind} {items : List Node} :
    OfOneKind elem items ↔ ∀ t ∈ tagItems items, t.kind = elem := by
  rw [tagItems_eq, List.forall_mem_map, OfOneKind]
  exact forall₂_congr fun n _ => by rw [kind_tag]

/-! ### Copies -/

theorem sound_ofEntries {es : List (String × Node)} (h : ∀ e ∈ es, e.2.Sound) :
    (compound (.ofEntries es)).Sound := by
  refine sound_compound.mpr ⟨Table.inStep_ofEntries es, fun e he => ?_⟩
  rw [Table.entries_ofEntries] at he
  exact h e (Assoc.mem_ofList he)

theorem tag_ofEntries {es : List (String × Node)} (h : (Assoc.keys es).Nodup) :
    (compound (.ofEntries es)).tag = .compound (tagEntries es) := by
  rw [tag_compound, Table.entries_ofEntries, Assoc.ofList_of_nodup h]

mutual

/-- **A copy is the same tag**, and sound. -/
theorem clone_spec : ∀ n : Node, n.Sound → n.clone.Sound ∧ n.clone.tag = n.tag
  | leaf _ _ => fun h => ⟨h, rfl⟩
  | list elem items => fun h => by
    obtain ⟨hkind, hitems⟩ := sound_list.mp h
    obtain ⟨hsound, htags⟩ := cloneItems_spec items hitems
    rw [clone, tag, tag, htags]
    rw [ofOneKind_iff, ← htags, ← ofOneKind_iff] at hkind
    exact ⟨sound_list.mpr ⟨hkind, hsound⟩, rfl⟩
  | compound ⟨entries, index⟩ => fun h => by
    obtain ⟨hstep, hentries⟩ := sound_compound.mp h
    obtain ⟨hsound, htags⟩ := cloneEntries_spec entries hentries
    have hnodup : (Assoc.keys (cloneEntries entries)).Nodup := by
      rw [← keys_tagEntries, htags, keys_tagEntries]
      exact hstep.nodup
    rw [clone, tag_ofEntries hnodup, htags]
    exact ⟨sound_ofEntries hsound, rfl⟩

theorem cloneItems_spec : ∀ ns : List Node, (∀ n ∈ ns, n.Sound) →
    (∀ n ∈ cloneItems ns, n.Sound) ∧ tagItems (cloneItems ns) = tagItems ns
  | [] => fun h => ⟨h, rfl⟩
  | n :: ns => fun h => by
    obtain ⟨hn, hns⟩ := List.forall_mem_cons.mp h
    obtain ⟨hclone, htag⟩ := clone_spec n hn
    obtain ⟨hclones, htags⟩ := cloneItems_spec ns hns
    rw [cloneItems, tagItems, tagItems, htag, htags]
    exact ⟨List.forall_mem_cons.mpr ⟨hclone, hclones⟩, rfl⟩

theorem cloneEntries_spec : ∀ es : List (String × Node), (∀ e ∈ es, e.2.Sound) →
    (∀ e ∈ cloneEntries es, e.2.Sound) ∧ tagEntries (cloneEntries es) = tagEntries es
  | [] => fun h => ⟨h, rfl⟩
  | (_, n) :: es => fun h => by
    obtain ⟨hn, hes⟩ := List.forall_mem_cons.mp h
    obtain ⟨hclone, htag⟩ := clone_spec n hn
    obtain ⟨hclones, htags⟩ := cloneEntries_spec es hes
    rw [cloneEntries, tagEntries, tagEntries, htag, htags]
    exact ⟨List.forall_mem_cons.mpr ⟨hclone, hclones⟩, rfl⟩

end

/-! ### Places in a tree -/

/-- The tree one step down. -/
def child? : Node → PathStep → Option Node
  | compound c, .key name => c.get? name
  | list _ items, .index i => items[i]?
  | _, _ => none

/-- The tree with the tree one step down replaced. -/
def withChild : Node → PathStep → Node → Node
  | compound c, .key name, n => compound (c.replace name n)
  | list elem items, .index i, n => list elem (items.set i n)
  | other, _, _ => other

/-- A tree one step down is an entry of a compound or an item of a list. -/
theorem child?_eq_some {n c : Node} {s : PathStep} (h : n.child? s = some c) :
    (∃ t k, n = compound t ∧ s = .key k ∧ t.get? k = some c) ∨
      ∃ elem items i, n = list elem items ∧ s = .index i ∧ items[i]? = some c := by
  match n, s with
  | compound t, .key k => exact .inl ⟨t, k, rfl, rfl, h⟩
  | list elem items, .index i => exact .inr ⟨elem, items, i, rfl, rfl, h⟩
  | compound _, .index _ => cases h
  | list .., .key _ => cases h
  | leaf .., .key _ => cases h
  | leaf .., .index _ => cases h

/-- The tree at the end of a path. -/
def follow? (n : Node) (path : List PathStep) : Option Node :=
  path.foldlM child? n

theorem follow?_cons (n : Node) (s : PathStep) (path : List PathStep) :
    n.follow? (s :: path) = (n.child? s).bind (·.follow? path) := rfl

/-- **What may become of a tree at a place**: a leaf stays as it is, a list that has items keeps its
kind, and the names of a compound stay at their positions. -/
def Persists : Node → Node → Prop
  | leaf t _, leaf u _ => u = t
  | list elem items, list elem' items' =>
    (items ≠ [] → elem' = elem) ∧ items.length ≤ items'.length
  | compound c, compound d => c.names <+: d.names
  | _, _ => False

theorem Persists.refl (n : Node) : n.Persists n := by
  cases n with
  | leaf => exact rfl
  | list => exact ⟨fun _ => rfl, Nat.le_refl _⟩
  | compound => exact List.prefix_refl _

theorem Persists.trans {a b c : Node} (h : a.Persists b) (h' : b.Persists c) : a.Persists c := by
  cases a <;> cases b <;> cases c <;> try contradiction
  · exact Eq.trans h' h
  · -- a list that has items still has them in between
    refine ⟨fun hne => (h'.1 fun hnil => hne ?_).trans (h.1 hne), Nat.le_trans h.2 h'.2⟩
    have hle := h.2
    rw [hnil] at hle
    exact List.eq_nil_of_length_eq_zero (Nat.le_zero.mp hle)
  · exact List.IsPrefix.trans h h'

theorem Persists.kind_eq {a b : Node} (h : a.Persists b) : b.kind = a.kind := by
  cases a <;> cases b <;> try contradiction
  · exact congrArg Tag.kind h
  · rfl
  · rfl

/-- **A tree grows into another**: what is at a place stays there and persists, unless the place is
one of those that are lost. -/
def Grows (lost : List PathStep → Prop) (n n' : Node) : Prop :=
  ∀ path m, ¬ lost path → n.follow? path = some m →
    ∃ m', n'.follow? path = some m' ∧ m.Persists m'

theorem Grows.refl (lost : List PathStep → Prop) (n : Node) : n.Grows lost n :=
  fun _ m _ hm => ⟨m, hm, .refl m⟩

theorem Grows.trans {lost : List PathStep → Prop} {a b c : Node} (h : a.Grows lost b)
    (h' : b.Grows lost c) : a.Grows lost c := by
  intro path m hlost hm
  obtain ⟨m', hm', hpersists⟩ := h path m hlost hm
  obtain ⟨m'', hm'', hpersists'⟩ := h' path m' hlost hm'
  exact ⟨m'', hm'', hpersists.trans hpersists'⟩

/-- A tree grows if it persists itself and its children grow. -/
theorem Grows.of_children {lost : List PathStep → Prop} {n n' : Node} (h : n.Persists n')
    (hchild : ∀ s c, n.child? s = some c →
      ∃ c', n'.child? s = some c' ∧ c.Grows (fun path => lost (s :: path)) c') :
    n.Grows lost n' := by
  intro path m hlost hm
  cases path with
  | nil =>
    cases hm
    exact ⟨n', rfl, h⟩
  | cons s path =>
    rw [follow?_cons, Option.bind_eq_some_iff] at hm
    obtain ⟨c, hc, hm⟩ := hm
    obtain ⟨c', hc', hgrows⟩ := hchild s c hc
    obtain ⟨m', hm', hpersists⟩ := hgrows path m hlost hm
    refine ⟨m', ?_, hpersists⟩
    rw [follow?_cons, hc']
    exact hm'

section

variable {lost : List PathStep → Prop} {c d : Table Node}

theorem grows_compound (hnames : c.names <+: d.names)
    (h : ∀ k n, c.get? k = some n →
      ∃ n', d.get? k = some n' ∧ n.Grows (fun path => lost (.key k :: path)) n') :
    (compound c).Grows lost (compound d) := by
  refine Grows.of_children hnames fun s n hn => ?_
  cases s with
  | key k => exact h k n hn
  | index i => cases hn

/-- Writing a name loses what was under the name. -/
theorem grows_put (hstep : c.InStep) (k : String) (n : Node) :
    (compound c).Grows (fun path => [.key k] <+: path) (compound (c.put k n)) := by
  refine grows_compound (hstep.names_put k n) fun j m hm => ?_
  rw [hstep.get?_put]
  split_ifs with hj
  · -- everything under the name is lost, so nothing is asked of the new value
    exact ⟨n, rfl, fun path _ hlost => absurd ⟨path, by rw [hj]; rfl⟩ hlost⟩
  · exact ⟨m, hm, .refl _ m⟩

/-- Writing a new name loses nothing. -/
theorem grows_put_new (hstep : c.InStep) {k : String} (hk : c.get? k = none) (n : Node) :
    (compound c).Grows lost (compound (c.put k n)) := by
  refine grows_compound (hstep.names_put k n) fun j m hm => ?_
  have hj : j ≠ k := fun hj => by
    rw [hj, hk] at hm
    cases hm
  rw [hstep.get?_put, if_neg hj]
  exact ⟨m, hm, .refl _ m⟩

end

/-- A tree grows where a child of it grows. -/
theorem grows_withChild {lost : List PathStep → Prop} {n c c' : Node} {s : PathStep}
    (h : n.Sound) (hc : n.child? s = some c) (hgrows : c.Grows (fun path => lost (s :: path)) c') :
    n.Grows lost (n.withChild s c') := by
  obtain ⟨t, k, rfl, rfl, hc⟩ | ⟨elem, items, i, rfl, rfl, hi⟩ := child?_eq_some hc
  · obtain ⟨hstep, -⟩ := sound_compound.mp h
    refine grows_compound (Table.names_replace t k c' ▸ List.prefix_refl _) fun j m hm => ?_
    rw [hstep.get?_replace hc]
    split_ifs with hj
    · subst hj
      obtain rfl := Option.some.inj (hc.symm.trans hm)
      exact ⟨c', rfl, hgrows⟩
    · exact ⟨m, hm, .refl _ m⟩
  · refine Grows.of_children ⟨fun _ => rfl, Nat.le_of_eq (List.length_set ..).symm⟩ fun s m hm => ?_
    cases s with
    | key => cases hm
    | index j =>
      have hj : items[j]? = some m := hm
      change ∃ m', (items.set i c')[j]? = some m' ∧ _
      rw [List.getElem?_set]
      split_ifs with hij hlt
      · subst hij
        obtain rfl := Option.some.inj (hi.symm.trans hj)
        exact ⟨c', rfl, hgrows⟩
      · exact absurd (List.getElem?_eq_some_iff.mp hi).1 hlt
      · exact ⟨m, hj, .refl _ m⟩

/-! ### What an operation makes of a tree -/

/-- **A tree becomes another one**, which is sound and is the given tag. -/
structure Becomes (lost : List PathStep → Prop) (n n' : Node) (t : Tag) : Prop where
  sound : n'.Sound
  tag : n'.tag = t
  grows : n.Grows lost n'

/-- A compound that is left as it is. -/
theorem becomes_self {lost : List PathStep → Prop} {c : Table Node} (h : (compound c).Sound) :
    Becomes lost (compound c) (compound c) (.compound (tagEntries c.entries)) :=
  ⟨h, tag_compound c, .refl lost _⟩

/-- Writing a new name. -/
theorem becomes_put_new (lost : List PathStep → Prop) {c : Table Node} (h : (compound c).Sound)
    {k : String} (hk : c.get? k = none) {n : Node} (hn : n.Sound) :
    Becomes lost (compound c) (compound (c.put k n))
      (.compound (Assoc.put k n.tag (tagEntries c.entries))) := by
  obtain ⟨hstep, -⟩ := sound_compound.mp h
  refine ⟨sound_put h k hn, ?_, grows_put_new hstep hk n⟩
  rw [tag_compound, hstep.entries_put, tagEntries_put]

/-- Writing a copy under a new name. -/
theorem becomes_put_clone (lost : List PathStep → Prop) {c : Table Node} (h : (compound c).Sound)
    {k : String} (hk : c.get? k = none) {n : Node} (hn : n.Sound) :
    Becomes lost (compound c) (compound (c.put k n.clone))
      (.compound (Assoc.put k n.tag (tagEntries c.entries))) := by
  obtain ⟨hclone, htag⟩ := clone_spec n hn
  rw [← htag]
  exact becomes_put_new lost h hk hclone

theorem mergeNode_of_kind_ne (c : Table Node) (k : String) {n : Node} (hkind : n.kind ≠ .compound) :
    mergeNode c k n = (c.get? k).elim (c.put k n.clone) fun _ => c := by
  cases n with
  | leaf | list =>
    unfold mergeNode
    cases c.get? k <;> rfl
  | compound => exact absurd rfl hkind

theorem mergeEntry_of_kind_ne (es : Entries) (k : String) {t : Tag} (hkind : t.kind ≠ .compound) :
    Tag.mergeEntry es k t = (es.lookup k).elim (Assoc.put k t es) fun _ => es := by
  cases t with
  | compound => exact absurd rfl hkind
  | _ =>
    unfold Tag.mergeEntry
    cases es.lookup k <;> rfl

/-- Merging an entry that is no compound adds it if it is missing. -/
theorem becomes_mergeNode_of_kind_ne (lost : List PathStep → Prop) {c : Table Node}
    (h : (compound c).Sound) (k : String) {n : Node} (hn : n.Sound) (hkind : n.kind ≠ .compound) :
    Becomes lost (compound c) (compound (mergeNode c k n))
      (.compound (Tag.mergeEntry (tagEntries c.entries) k n.tag)) := by
  have htag : n.tag.kind ≠ .compound := by rwa [kind_tag]
  rw [mergeNode_of_kind_ne c k hkind, mergeEntry_of_kind_ne _ k htag,
    lookup_tagEntries (sound_compound.mp h).1]
  cases hk : c.get? k with
  | none => exact becomes_put_clone lost h hk hn
  | some m => exact becomes_self h

/-- Merging a compound keeps what is there and is no compound. -/
theorem mergeEntry_compound_of_kind_ne {dst src : Entries} {k : String} {t : Tag}
    (hk : dst.lookup k = some t) (ht : t.kind ≠ .compound) :
    Tag.mergeEntry dst k (.compound src) = dst := by
  rw [Tag.mergeEntry, hk]
  cases t with
  | compound => exact absurd rfl ht
  | _ => rfl

mutual

/-- **Merging entries** into a compound. -/
theorem becomes_mergeTable : ∀ (es : List (String × Node)) (lost : List PathStep → Prop)
    (c : Table Node), (compound c).Sound → (∀ e ∈ es, e.2.Sound) →
      Becomes lost (compound c) (compound (mergeTable c es))
        (.compound (Tag.mergeEntries (tagEntries c.entries) (tagEntries es)))
  | [], _, c => fun h _ => becomes_self h
  | (k, n) :: es, lost, c => fun h hes => by
    obtain ⟨hn, hes⟩ := List.forall_mem_cons.mp hes
    have hfirst := becomes_mergeNode n lost k c h hn
    have hrest := becomes_mergeTable es lost (mergeNode c k n) hfirst.sound hes
    -- the first entry makes the tag that the others are merged into
    have htag := hfirst.tag
    rw [tag_compound] at htag
    rw [mergeTable, tagEntries, Tag.mergeEntries, ← Tag.compound.inj htag]
    exact ⟨hrest.sound, hrest.tag, hfirst.grows.trans hrest.grows⟩

theorem becomes_mergeNode : ∀ (n : Node) (lost : List PathStep → Prop) (k : String)
    (c : Table Node), (compound c).Sound → n.Sound →
      Becomes lost (compound c) (compound (mergeNode c k n))
        (.compound (Tag.mergeEntry (tagEntries c.entries) k n.tag))
  | leaf _ ht, lost, k, _ => fun h hn =>
    becomes_mergeNode_of_kind_ne lost h k hn (Tag.kind_ne_of_isLeaf ht)
  | list .., lost, k, _ => fun h hn => becomes_mergeNode_of_kind_ne lost h k hn nofun
  | compound ⟨entries, index⟩, lost, k, c => fun h hn => by
    obtain ⟨hstep, -⟩ := sound_compound.mp h
    have hlookup := lookup_tagEntries hstep k
    rw [mergeNode]
    cases hk : c.get? k with
    | none =>
      have hnew := becomes_put_clone lost h hk hn
      rw [hk] at hlookup
      rw [tag, Tag.mergeEntry, hlookup]
      exact hnew
    | some m =>
      rw [hk] at hlookup
      cases m with
      | leaf t ht =>
        rw [tag, mergeEntry_compound_of_kind_ne hlookup (Tag.kind_ne_of_isLeaf ht)]
        exact becomes_self h
      | list elem items =>
        rw [tag, mergeEntry_compound_of_kind_ne hlookup nofun]
        exact becomes_self h
      | compound inner =>
        -- the compound that is there is merged where it stands; the lost places go down with it
        have hinner := becomes_mergeTable entries (fun path => lost (.key k :: path)) inner
          (sound_of_get? h hk) (sound_compound.mp hn).2
        rw [Option.map_some, tag_compound] at hlookup
        refine ⟨sound_replace h hk hinner.sound, ?_,
          grows_withChild (s := .key k) h hk hinner.grows⟩
        have htag := hinner.tag
        rw [tag_compound] at htag
        rw [tag_compound, hstep.entries_replace hk, tagEntries_put, tag_compound, htag, tag,
          Tag.mergeEntry, hlookup]

end

end Node

end Statuary
