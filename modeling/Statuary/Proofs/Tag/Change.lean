import Statuary.Proofs.Tag.Node

/-!
# Changing trees in memory

The operations on one list or compound in memory are **programs with a state**: they read and write
step by step, and one that is refused leaves behind whatever it has written by then; an item is
refused after the list may have taken its kind. The edit of a tag gives a new tag or none, and there
is nothing half done about it.

That the two agree (`Statuary.Change.matches_run`) is therefore also a statement about refusals: the
node is as it was. A list that takes the kind of an item has the right kind for it, so the refusal
comes only where nothing was taken. At the end of a path the same holds of the tree around
(`Statuary.matches_changeAt`), by induction on the path.
-/

namespace Statuary

/-! ### Programs that may be refused -/

/-- What an operation leaves behind: a state, and why it was refused if it was. -/
abbrev Effect (σ : Type) := EStateM.Result EditError σ Unit

namespace Effect

variable {σ τ α : Type}

/-- The effect of a program on a part of a state is one on the state. -/
def lift (f : σ → τ) : EStateM.Result EditError σ α → Effect τ
  | .ok _ s => .ok () (f s)
  | .error e s => .error e (f s)

/-- The state that is left behind. -/
def state : Effect σ → σ
  | .ok _ s => s
  | .error _ s => s

/-- Why the operation was refused. -/
def refusal? : Effect σ → Option EditError
  | .ok .. => none
  | .error e _ => some e

end Effect

namespace Node

/-- The kind that a list takes when `t` comes next, and its items. -/
def adopt (t : Node) (l : Kind × List Node) : Kind × List Node :=
  if l.1 = .untyped ∧ l.2.isEmpty then (t.kind, l.2) else l

/-- Adds an item to the end of a list. An empty list without a kind takes that of the item before
the kinds are compared. -/
def appendItem (t : Option Node) : EStateM EditError (Kind × List Node) Unit := do
  let some t := t | throw .appendNothing
  modify (adopt t)
  if t.kind = (← get).1 then modify fun l => (l.1, l.2 ++ [t])
  else throw (.appendKind t.kind (← get).1)

/-- An item of the right kind is added. -/
theorem appendItem_of_eq {t : Node} {l : Kind × List Node} (h : t.kind = (adopt t l).1) :
    (appendItem (some t)).run l = .ok () ((adopt t l).1, (adopt t l).2 ++ [t]) := by
  change (if t.kind = (adopt t l).1 then (modify fun l => (l.1, l.2 ++ [t])) else
    get >>= fun l => throw (.appendKind t.kind l.1) :
      EStateM EditError (Kind × List Node) Unit).run (adopt t l) = _
  rw [if_pos h]
  rfl

/-- An item of the wrong kind is refused, and then no kind was taken. -/
theorem appendItem_of_ne {t : Node} {l : Kind × List Node} (h : t.kind ≠ (adopt t l).1) :
    (appendItem (some t)).run l = .error (.appendKind t.kind (adopt t l).1) l := by
  -- a list that takes the kind of the item would not refuse it
  have hadopt : adopt t l = l := by
    rw [adopt] at h ⊢
    split_ifs at h ⊢ with hopen
    · exact absurd rfl h
    · rfl
  change (if t.kind = (adopt t l).1 then (modify fun l => (l.1, l.2 ++ [t])) else
    get >>= fun l => throw (.appendKind t.kind l.1) :
      EStateM EditError (Kind × List Node) Unit).run (adopt t l) = _
  rw [if_neg h, hadopt]
  rfl

end Node

/-- Merges another compound into a table, if there is one. -/
def Table.mergeFrom (c : Table Node) : Option Node → Table Node
  | some (.compound src) => Node.mergeTable c src.entries
  | _ => c

/-! ### Operations on one node -/

/-- The operations on lists and compounds, apart from their operands. -/
inductive Change where
  /-- Adds the operand to the end of a list. -/
  | append
  /-- Maps a name of a compound to the operand. -/
  | set (name : String)
  /-- Maps a new name of a compound to the operand. -/
  | add (name : String)
  /-- Maps a name of a compound to the operand unless it is there. -/
  | setDefault (name : String)
  /-- Merges the operand into a compound. -/
  | merge

namespace Change

/-- The edit of a tag with an operand. -/
def edit (operand : Option Tag) : Change → Edit
  | append => .append operand
  | set name => .set name operand
  | add name => .add name operand
  | setDefault name => .setDefault name operand
  | merge => .merge operand

/-- **What an operation does** to the list or compound it is applied to; nothing if that is of the
wrong kind. -/
def run (operand : Option Node) : Change → Node → Option (Effect Node)
  | append, .list elem items =>
    some (Effect.lift (fun l => .list l.1 l.2) ((Node.appendItem operand).run (elem, items)))
  | set name, .compound c => some (Effect.lift .compound ((Table.set name operand).run c))
  | add name, .compound c => some (Effect.lift .compound ((Table.add name operand).run c))
  | setDefault name, .compound c =>
    some (Effect.lift .compound ((Table.setDefault name operand).run c))
  | merge, .compound c => some (.ok () (.compound (c.mergeFrom operand)))
  | _, _ => none

/-- The places below a node that an operation on it loses: writing a name drops what was there. -/
def lost : Change → List PathStep → Prop
  | set name, path => [.key name] <+: path
  | _, _ => False

end Change

/-- **The operation on a node is the edit of its tag**: neither is possible, both are refused and
the node is as it was, or both are done. -/
inductive Matches (lost : List PathStep → Prop) (n : Node) :
    Option (Effect Node) → Option (Except EditError Tag) → Prop
  /-- The node is of the wrong kind. -/
  | missing : Matches lost n none none
  /-- The operation is refused. -/
  | refused (e : EditError) : Matches lost n (some (.error e n)) (some (.error e))
  /-- The operation is done. -/
  | done {n' : Node} {t : Tag} (h : n.Becomes lost n' t) :
      Matches lost n (some (.ok () n')) (some (.ok t))

theorem Node.adopt_eq (t : Node) (elem : Kind) (items : List Node) :
    adopt t (elem, items) = (Tag.elemFor elem (tagItems items) t.tag, items) := by
  have hempty : (tagItems items).isEmpty = items.isEmpty := by
    rw [tagItems_eq, List.isEmpty_map]
  rw [adopt, Tag.elemFor, hempty, kind_tag]
  split_ifs <;> rfl

namespace Change

variable {c : Table Node} {operand : Option Node}

/-- Adding an item to a list of its kind. -/
theorem becomes_append {elem : Kind} {items : List Node} (hn : (Node.list elem items).Sound)
    {t : Node} (ht : t.Sound) (hkind : t.kind = Tag.elemFor elem (Node.tagItems items) t.tag) :
    Node.Becomes append.lost (.list elem items)
      (.list (Tag.elemFor elem (Node.tagItems items) t.tag) (items ++ [t]))
      (.list (Tag.elemFor elem (Node.tagItems items) t.tag) (Node.tagItems items ++ [t.tag])) := by
  obtain ⟨hkinds, hitems⟩ := Node.sound_list.mp hn
  -- a list with items takes no other kind
  have helem : items ≠ [] → Tag.elemFor elem (Node.tagItems items) t.tag = elem := by
    intro hne
    rw [Tag.elemFor, Node.tagItems_eq, List.isEmpty_map, if_neg]
    exact fun hopen => hne (List.isEmpty_iff.mp hopen.2)
  refine ⟨Node.sound_list.mpr ⟨?_, ?_⟩, ?_, ?_⟩
  · refine List.forall_mem_append.mpr ⟨fun m hm => ?_, List.forall_mem_singleton.mpr hkind⟩
    rw [helem (List.ne_nil_of_mem hm)]
    exact hkinds m hm
  · exact List.forall_mem_append.mpr ⟨hitems, List.forall_mem_singleton.mpr ht⟩
  · rw [Node.tag, Node.tagItems_eq, Node.tagItems_eq, List.map_append]
    rfl
  · refine .of_children ⟨helem, by simp⟩ fun s m hm => ?_
    cases s with
    | key => cases hm
    | index i =>
      have hlt := (List.getElem?_eq_some_iff.mp hm).1
      exact ⟨m, (List.getElem?_append_left hlt).trans hm, .refl _ m⟩

theorem matches_append {elem : Kind} {items : List Node} (hn : (Node.list elem items).Sound)
    (hoperand : ∀ t ∈ operand, t.Sound) :
    Matches append.lost (.list elem items) (append.run operand (.list elem items))
      ((append.edit (operand.map Node.tag)).apply (Node.list elem items).tag) := by
  cases operand with
  | none => exact .refused _
  | some t =>
    have ht := hoperand t rfl
    rw [run, edit, Node.tag, Edit.apply, Option.map_some, Tag.append, Node.kind_tag]
    by_cases hkind : t.kind = Tag.elemFor elem (Node.tagItems items) t.tag
    · rw [if_pos hkind, Node.appendItem_of_eq (Node.adopt_eq t elem items ▸ hkind), Node.adopt_eq]
      exact .done (becomes_append hn ht hkind)
    · rw [if_neg hkind, Node.appendItem_of_ne (Node.adopt_eq t elem items ▸ hkind), Node.adopt_eq]
      exact .refused _

theorem matches_set (hn : (Node.compound c).Sound) (hoperand : ∀ t ∈ operand, t.Sound)
    (name : String) :
    Matches (set name).lost (.compound c) ((set name).run operand (.compound c))
      (((set name).edit (operand.map Node.tag)).apply (Node.compound c).tag) := by
  obtain ⟨hstep, -⟩ := Node.sound_compound.mp hn
  rw [run, edit, Node.tag_compound, Edit.apply]
  cases operand with
  | none => exact .refused _
  | some t =>
    rw [Table.set_some]
    refine .done ⟨Node.sound_put hn name (hoperand t rfl), ?_, Node.grows_put hstep name t⟩
    rw [Node.tag_compound, hstep.entries_put, Node.tagEntries_put]

theorem matches_add (hn : (Node.compound c).Sound) (hoperand : ∀ t ∈ operand, t.Sound)
    (name : String) :
    Matches (add name).lost (.compound c) ((add name).run operand (.compound c))
      (((add name).edit (operand.map Node.tag)).apply (Node.compound c).tag) := by
  obtain ⟨hstep, -⟩ := Node.sound_compound.mp hn
  have hlookup := Node.lookup_tagEntries hstep name
  have hposition := hstep.isSome_position? name
  rw [run, edit, Node.tag_compound, Edit.apply, Tag.add, Assoc.has, hlookup]
  cases hname : c.get? name with
  | some m =>
    rw [hname] at hposition
    rw [Table.add_of_isSome hposition]
    exact .refused _
  | none =>
    rw [hname, Option.isSome_none, Option.isSome_eq_false_iff, Option.isNone_iff_eq_none]
      at hposition
    rw [Table.add_of_none hposition, Option.map_none, Option.isSome_none, if_neg Bool.false_ne_true]
    cases operand with
    | none => exact .refused _
    | some t =>
      rw [Table.set_some]
      exact .done (Node.becomes_put_new _ hn hname (hoperand t rfl))

theorem matches_setDefault (hn : (Node.compound c).Sound) (hoperand : ∀ t ∈ operand, t.Sound)
    (name : String) :
    Matches (setDefault name).lost (.compound c) ((setDefault name).run operand (.compound c))
      (((setDefault name).edit (operand.map Node.tag)).apply (Node.compound c).tag) := by
  obtain ⟨hstep, -⟩ := Node.sound_compound.mp hn
  have hlookup := Node.lookup_tagEntries hstep name
  rw [run, edit, Node.tag_compound, Edit.apply]
  unfold Tag.setDefault
  rw [hlookup]
  cases hname : c.get? name with
  | some m =>
    rw [Table.setDefault_of_some hname]
    exact .done (Node.becomes_self hn)
  | none =>
    cases operand with
    | none =>
      rw [Table.setDefault_none hname]
      exact .refused _
    | some t =>
      rw [Table.setDefault_some hname]
      exact .done (Node.becomes_put_new _ hn hname (hoperand t rfl))

theorem matches_merge (hn : (Node.compound c).Sound) (hoperand : ∀ t ∈ operand, t.Sound) :
    Matches merge.lost (.compound c) (merge.run operand (.compound c))
      ((merge.edit (operand.map Node.tag)).apply (Node.compound c).tag) := by
  rw [run, edit, Node.tag_compound, Edit.apply]
  have hsame : Matches merge.lost (.compound c) (some (.ok () (.compound c)))
      (some (.ok (.compound (Node.tagEntries c.entries)))) := .done (Node.becomes_self hn)
  cases operand with
  | none => exact hsame
  | some t =>
    cases t with
    | leaf t ht =>
      cases t with
      | compound => cases ht
      | _ => exact hsame
    | list => exact hsame
    | compound src =>
      rw [Option.map_some, Node.tag_compound]
      exact .done (Node.becomes_mergeTable src.entries _ c hn
        (Node.sound_compound.mp (hoperand _ rfl)).2)

/-- **An operation on a sound node is the edit of its tag.** -/
theorem matches_run (op : Change) {n : Node} (hn : n.Sound) (hoperand : ∀ t ∈ operand, t.Sound) :
    Matches op.lost n (op.run operand n) ((op.edit (operand.map Node.tag)).apply n.tag) := by
  cases n with
  | leaf t ht => cases op <;> cases t <;> first | exact .missing | cases ht
  | list elem items =>
    cases op with
    | append => exact matches_append hn hoperand
    | _ => exact .missing
  | compound c =>
    cases op with
    | append => exact Node.tag_compound c ▸ .missing
    | set name => exact matches_set hn hoperand name
    | add name => exact matches_add hn hoperand name
    | setDefault name => exact matches_setDefault hn hoperand name
    | merge => exact matches_merge hn hoperand

end Change

/-! ### Operations at the end of a path -/

namespace Node

variable {n c c' : Node} {s : PathStep}

theorem child?_tag (h : n.Sound) (s : PathStep) : n.tag.child? s = (n.child? s).map tag := by
  cases n with
  | leaf t ht => cases t <;> cases s <;> first | rfl | cases ht
  | list elem items =>
    cases s with
    | key => rfl
    | index i =>
      rw [tag, tagItems_eq]
      exact List.getElem?_map
  | compound c =>
    cases s with
    | key k =>
      rw [tag_compound]
      exact lookup_tagEntries (sound_compound.mp h).1 k
    | index => rw [tag_compound]; rfl

theorem sound_of_child? (h : n.Sound) (hc : n.child? s = some c) : c.Sound := by
  obtain ⟨t, k, rfl, rfl, hc⟩ | ⟨elem, items, i, rfl, rfl, hc⟩ := child?_eq_some hc
  · exact sound_of_get? h hc
  · exact (sound_list.mp h).2 c (List.mem_of_getElem? hc)

theorem tag_withChild (h : n.Sound) (hc : n.child? s = some c) (c' : Node) :
    (n.withChild s c').tag = n.tag.withChild s c'.tag := by
  obtain ⟨t, k, rfl, rfl, hc⟩ | ⟨elem, items, i, rfl, rfl, -⟩ := child?_eq_some hc
  · rw [withChild, tag_compound, tag_compound, (sound_compound.mp h).1.entries_replace hc,
      tagEntries_put]
    rfl
  · rw [withChild, tag, tag, tagItems_eq, tagItems_eq, List.map_set]
    rfl

/-- Putting a child where it is changes nothing. -/
theorem withChild_self (h : n.Sound) (hc : n.child? s = some c) : n.withChild s c = n := by
  obtain ⟨t, k, rfl, rfl, hc⟩ | ⟨elem, items, i, rfl, rfl, hc⟩ := child?_eq_some hc
  · rw [withChild, (sound_compound.mp h).1.replace_self hc]
  · obtain ⟨hlt, rfl⟩ := List.getElem?_eq_some_iff.mp hc
    rw [withChild, List.set_getElem_self]

theorem sound_withChild (h : n.Sound) (hc : n.child? s = some c) (hc' : c'.Sound)
    (hkind : c'.kind = c.kind) : (n.withChild s c').Sound := by
  obtain ⟨t, k, rfl, rfl, hc⟩ | ⟨elem, items, i, rfl, rfl, hc⟩ := child?_eq_some hc
  · exact sound_replace h hc hc'
  · obtain ⟨hkinds, hitems⟩ := sound_list.mp h
    have hmem : c ∈ items := List.mem_of_getElem? hc
    refine sound_list.mpr ⟨fun m hm => ?_, fun m hm => ?_⟩
    · rcases List.mem_or_eq_of_mem_set hm with hm | rfl
      · exact hkinds m hm
      · exact hkind.trans (hkinds c hmem)
    · rcases List.mem_or_eq_of_mem_set hm with hm | rfl
      · exact hitems m hm
      · exact hc'

/-- **Changing the node at the end of a path** where it is. What a refused operation leaves there
stays there. -/
def changeAt (f : Node → Option (Effect Node)) : List PathStep → Node → Option (Effect Node)
  | [], n => f n
  | s :: path, n =>
    (n.child? s).bind fun c => (changeAt f path c).map (Effect.lift (n.withChild s))

end Node

/-- The places at the end of a path that are lost there. -/
def lostBelow (path : List PathStep) (lost : List PathStep → Prop) (place : List PathStep) : Prop :=
  ∃ rest, place = path ++ rest ∧ lost rest

theorem lostBelow_cons (s : PathStep) (path : List PathStep) (lost : List PathStep → Prop) :
    (fun place => lostBelow (s :: path) lost (s :: place)) = lostBelow path lost := by
  funext place
  rw [lostBelow, lostBelow]
  simp only [List.cons_append, List.cons.injEq, true_and]

/-- **Changing the node at the end of a path is editing its tag there.** -/
theorem matches_changeAt {lost : List PathStep → Prop} (hroot : ¬ lost [])
    {f : Node → Option (Effect Node)} {e : Edit}
    (hf : ∀ n : Node, n.Sound → Matches lost n (f n) (e.apply n.tag)) :
    ∀ (path : List PathStep) (n : Node), n.Sound →
      Matches (lostBelow path lost) n (n.changeAt f path) (e.applyAt path n.tag)
  | [], n, hn => by
    have hnil : lostBelow [] lost = lost := by
      funext place
      simp [lostBelow]
    rw [hnil]
    exact hf n hn
  | s :: path, n, hn => by
    rw [Node.changeAt, Edit.applyAt, Node.child?_tag hn]
    cases hc : n.child? s with
    | none => exact .missing
    | some c =>
      have hsound := Node.sound_of_child? hn hc
      have hmatches := matches_changeAt hroot hf path c hsound
      rw [Option.bind_some, Option.map_some]
      dsimp only
      generalize c.changeAt f path = effect at hmatches
      generalize e.applyAt path c.tag = result at hmatches
      cases hmatches with
      | missing => exact .missing
      | refused err =>
        rw [Option.map_some, Effect.lift, Node.withChild_self hn hc]
        exact .refused err
      | done hdone =>
        rename_i c' t
        -- the child itself is not lost, so it keeps its kind and a list around it stays of one kind
        have hpath : ¬ lostBelow path lost [] := by
          rintro ⟨rest, hrest, hlost⟩
          obtain ⟨-, rfl⟩ := List.append_eq_nil_iff.mp hrest.symm
          exact hroot hlost
        obtain ⟨m, hm, hpersists⟩ := hdone.grows [] c hpath rfl
        obtain rfl : c' = m := Option.some.inj hm
        refine .done ⟨Node.sound_withChild hn hc hdone.sound hpersists.kind_eq, ?_, ?_⟩
        · rw [Node.tag_withChild hn hc, hdone.tag]
        · exact Node.grows_withChild hn hc (lostBelow_cons s path lost ▸ hdone.grows)

end Statuary
