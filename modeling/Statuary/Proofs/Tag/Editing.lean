import Statuary.Proofs.Tag.Change
import Statuary.Proofs.Tag.Parsed

/-!
# Runs of operations on trees

Someone keeps a forest in memory: trees are started empty or read from texts, nodes are copied, and
the operations are applied anywhere, with copies of other nodes for operands
(`Statuary.Editing.Instruction`). Beside the trees in memory the same instructions are carried out
on tags, where a compound is the list of its entries and a refused instruction makes nothing.

**After every run the trees in memory are the tags** (`Statuary.Editing.wellFormed_run`); each
compound is a map, each list is of one kind, and an instruction is refused exactly if it is refused
for the tags, with the forest as it was. What one instruction does is
`Statuary.Editing.follows_run`, and a run is an induction over it.

A name that is written again is lost with all below it, and only then: the operand is a copy, so the
old value is nowhere else. At every other place the names of a compound stay at their positions, and
a list with items keeps their kind.
-/

namespace Statuary

/-! ### Tags put into memory -/

namespace Node

mutual

/-- **A tag as a tree in memory**: a compound is written entry by entry. -/
def ofTag : Tag → Node
  | .byte v => leaf (.byte v) rfl
  | .short v => leaf (.short v) rfl
  | .int v => leaf (.int v) rfl
  | .long v => leaf (.long v) rfl
  | .float v => leaf (.float v) rfl
  | .double v => leaf (.double v) rfl
  | .string v => leaf (.string v) rfl
  | .byteArray vs => leaf (.byteArray vs) rfl
  | .intArray vs => leaf (.intArray vs) rfl
  | .longArray vs => leaf (.longArray vs) rfl
  | .list elem items => list elem (ofItems items)
  | .compound es => compound (.ofEntries (ofEntries es))

/-- The items of a list in memory. -/
def ofItems : List Tag → List Node
  | [] => []
  | t :: ts => ofTag t :: ofItems ts

/-- The entries of a compound in memory. -/
def ofEntries : Entries → List (String × Node)
  | [] => []
  | (k, t) :: es => (k, ofTag t) :: ofEntries es

end

mutual

/-- A well-formed tag in memory is sound, and is the tag. -/
theorem ofTag_spec : ∀ t : Tag, t.isWellFormed = true → (ofTag t).Sound ∧ (ofTag t).tag = t
  | .byte _ | .short _ | .int _ | .long _ | .float _ | .double _ | .string _ | .byteArray _
  | .intArray _ | .longArray _ => fun _ => ⟨trivial, rfl⟩
  | .list elem items => fun h => by
    have hitems := Tag.isWellFormed_list.mp h
    obtain ⟨hsound, htags⟩ := ofItems_spec items fun t ht => (hitems t ht).2
    rw [ofTag, tag, htags]
    refine ⟨sound_list.mpr ⟨ofOneKind_iff.mpr fun t ht => ?_, hsound⟩, rfl⟩
    rw [htags] at ht
    exact (hitems t ht).1
  | .compound es => fun h => by
    obtain ⟨hnodup, hentries⟩ := Tag.isWellFormed_compound.mp h
    obtain ⟨hsound, htags⟩ := ofEntries_spec es hentries
    rw [← htags, keys_tagEntries] at hnodup
    rw [ofTag, tag_ofEntries hnodup, htags]
    exact ⟨sound_ofEntries hsound, rfl⟩

theorem ofItems_spec : ∀ ts : List Tag, (∀ t ∈ ts, t.isWellFormed = true) →
    (∀ n ∈ ofItems ts, n.Sound) ∧ tagItems (ofItems ts) = ts
  | [] => fun _ => ⟨fun _ hn => absurd hn List.not_mem_nil, rfl⟩
  | t :: ts => fun h => by
    obtain ⟨ht, hts⟩ := List.forall_mem_cons.mp h
    obtain ⟨hsound, htag⟩ := ofTag_spec t ht
    obtain ⟨hsounds, htags⟩ := ofItems_spec ts hts
    rw [ofItems, tagItems, htag, htags]
    exact ⟨List.forall_mem_cons.mpr ⟨hsound, hsounds⟩, rfl⟩

theorem ofEntries_spec : ∀ es : Entries, (∀ e ∈ es, e.2.isWellFormed = true) →
    (∀ e ∈ ofEntries es, e.2.Sound) ∧ tagEntries (ofEntries es) = es
  | [] => fun _ => ⟨fun _ he => absurd he List.not_mem_nil, rfl⟩
  | (_, t) :: es => fun h => by
    obtain ⟨ht, hes⟩ := List.forall_mem_cons.mp h
    obtain ⟨hsound, htag⟩ := ofTag_spec t ht
    obtain ⟨hsounds, htags⟩ := ofEntries_spec es hes
    rw [ofEntries, tagEntries, htag, htags]
    exact ⟨List.forall_mem_cons.mpr ⟨hsound, hsounds⟩, rfl⟩

end

theorem follow?_tag {n : Node} (h : n.Sound) (path : List PathStep) :
    n.tag.follow? path = (n.follow? path).map tag := by
  induction path generalizing n with
  | nil => rfl
  | cons s path ih =>
    change (n.tag.child? s).bind (·.follow? path) = _
    rw [follow?_cons, child?_tag h]
    cases hc : n.child? s with
    | none => rfl
    | some c => exact ih (sound_of_child? h hc)

theorem sound_of_follow? {n m : Node} (h : n.Sound) {path : List PathStep}
    (hm : n.follow? path = some m) : m.Sound := by
  induction path generalizing n with
  | nil =>
    cases hm
    exact h
  | cons s path ih =>
    rw [follow?_cons, Option.bind_eq_some_iff] at hm
    obtain ⟨c, hc, hm⟩ := hm
    exact ih (sound_of_child? h hc) hm

end Node

namespace Editing

/-! ### Instructions -/

/-- **Where a tree comes from.** -/
inductive Origin where
  /-- A compound with nothing in it, with an index or without. -/
  | compound (indexed : Bool)
  /-- A list without items, for items of a kind. -/
  | list (elem : Kind)
  /-- A tag without tags inside. -/
  | leaf (t : Tag) (h : t.isLeaf = true)
  /-- A text that is read. -/
  | text (s : String)

namespace Origin

/-- The tag; there is none if the text cannot be read. -/
def tag? : Origin → Option Tag
  | compound _ => some (.compound [])
  | list elem => some (.list elem [])
  | leaf t _ => some t
  | text s => (Tag.parse s).toOption

/-- The tree in memory. -/
def node? : Origin → Option Node
  | compound indexed => some (.compound (.empty indexed))
  | list elem => some (.list elem [])
  | leaf t h => some (.leaf t h)
  | text s => (Tag.parse s).toOption.map .ofTag

end Origin

/-- A place in a forest: a tree and a path down from its root. -/
structure Place where
  /-- The position of the tree in the forest. -/
  tree : ℕ
  /-- The path in the tree. -/
  path : List PathStep

/-- The tree in memory at a place. -/
def Place.node? (p : Place) (s : List Node) : Option Node :=
  s[p.tree]?.bind (·.follow? p.path)

/-- The tag at a place. -/
def Place.tag? (p : Place) (s : List Tag) : Option Tag :=
  s[p.tree]?.bind (·.follow? p.path)

/-- **An instruction** to someone who keeps a forest. -/
inductive Instruction where
  /-- Takes a new tree into the forest. -/
  | start (o : Origin)
  /-- Takes a copy of what is at a place into the forest. -/
  | clone (p : Place)
  /-- Applies an operation at a place, with a copy of what is at another place for its operand;
  there may be no operand. -/
  | change (p : Place) (op : Change) (operand : Option Place)

namespace Instruction

/-- **What an instruction does to trees in memory.** Where the place does not exist or is of the
wrong kind, it does nothing. -/
def run : Instruction → List Node → Effect (List Node)
  | start o, s => .ok () (s ++ o.node?.toList)
  | clone p, s => .ok () (s ++ ((p.node? s).map .clone).toList)
  | change p op operand, s =>
    let copy := (operand.bind (·.node? s)).map .clone
    (s[p.tree]?.bind (Node.changeAt (op.run copy) p.path)).elim (.ok () s) (.lift (s.set p.tree))

/-- **What an instruction makes of tags.** -/
def edit : Instruction → List Tag → Except EditError (List Tag)
  | start o, s => .ok (s ++ o.tag?.toList)
  | clone p, s => .ok (s ++ (p.tag? s).toList)
  | change p op operand, s =>
    (s[p.tree]?.bind ((op.edit (operand.bind (·.tag? s))).applyAt p.path)).elim (.ok s)
      (.map (s.set p.tree))

/-- The places that an instruction loses: those at and below a name that it writes. -/
def loses : Instruction → Place → Prop
  | change p op _, q => q.tree = p.tree ∧ lostBelow p.path op.lost q.path
  | _, _ => False

end Instruction

/-- The trees in memory after some instructions; a refused one leaves what it leaves behind. -/
def run (is : List Instruction) (s : List Node) : List Node :=
  is.foldl (fun s i => (i.run s).state) s

/-- The tags after some instructions; a refused one makes nothing. -/
def edit (is : List Instruction) (s : List Tag) : List Tag :=
  is.foldl (fun s i => (i.edit s).toOption.getD s) s

/-! ### One instruction -/

/-- What is at a place stays there and persists, unless the place is lost. -/
def Keeps (lost : Place → Prop) (s s' : List Node) : Prop :=
  ∀ p n, ¬ lost p → p.node? s = some n → ∃ n', p.node? s' = some n' ∧ n.Persists n'

/-- **A forest reaches another one**, whose trees are sound and are the given tags. -/
structure Reaches (lost : Place → Prop) (s s' : List Node) (ts : List Tag) : Prop where
  sound : ∀ n ∈ s', n.Sound
  tags : s'.map Node.tag = ts
  keeps : Keeps lost s s'

/-- **The instruction does to the forest what it makes of the tags**: both are refused and the
forest is as it was, or both are done. -/
inductive Follows (lost : Place → Prop) (s : List Node) :
    Effect (List Node) → Except EditError (List Tag) → Prop
  /-- The instruction is refused. -/
  | refused (e : EditError) : Follows lost s (.error e s) (.error e)
  /-- The instruction is done. -/
  | done {s' : List Node} {ts : List Tag} (h : Reaches lost s s' ts) :
      Follows lost s (.ok () s') (.ok ts)

variable {lost : Place → Prop} {s : List Node}

theorem Origin.sound_node? (o : Origin) : ∀ n ∈ o.node?, n.Sound := by
  intro n hn
  cases o with
  | compound indexed =>
    cases hn
    exact Node.sound_empty indexed
  | list elem =>
    cases hn
    exact Node.sound_list.mpr ⟨nofun, nofun⟩
  | leaf =>
    cases hn
    trivial
  | text text =>
    obtain ⟨t, ht, rfl⟩ := Option.map_eq_some_iff.mp hn
    exact (Node.ofTag_spec t (Tag.isWellFormed_of_parse (eq_ok_of_toOption ht))).1

theorem Origin.tag_node? (o : Origin) : o.node?.map Node.tag = o.tag? := by
  cases o with
  | text text =>
    rw [node?, tag?, Option.map_map]
    cases hparse : Tag.parse text with
    | error => rfl
    | ok t => exact congrArg some (Node.ofTag_spec t (Tag.isWellFormed_of_parse hparse)).2
  | _ => rfl

theorem Place.sound_of_node? (hs : ∀ n ∈ s, n.Sound) {p : Place} {n : Node}
    (hn : p.node? s = some n) : n.Sound := by
  obtain ⟨root, hroot, hn⟩ := Option.bind_eq_some_iff.mp hn
  exact Node.sound_of_follow? (hs root (List.mem_of_getElem? hroot)) hn

theorem Place.tag?_map (hs : ∀ n ∈ s, n.Sound) (p : Place) :
    p.tag? (s.map Node.tag) = (p.node? s).map Node.tag := by
  rw [tag?, node?, List.getElem?_map]
  cases hroot : s[p.tree]? with
  | none => rfl
  | some root => exact Node.follow?_tag (hs root (List.mem_of_getElem? hroot)) p.path

/-- A copy of what is at a place is sound and has its tag. -/
theorem Place.copy_spec (hs : ∀ n ∈ s, n.Sound) (p : Option Place) :
    (∀ n ∈ (p.bind (·.node? s)).map Node.clone, n.Sound) ∧
      ((p.bind (·.node? s)).map Node.clone).map Node.tag = p.bind (·.tag? (s.map Node.tag)) := by
  cases p with
  | none => exact ⟨nofun, rfl⟩
  | some p =>
    rw [Option.bind_some, Option.bind_some, tag?_map hs]
    cases hn : p.node? s with
    | none => exact ⟨nofun, rfl⟩
    | some n =>
      obtain ⟨hsound, htag⟩ := Node.clone_spec n (sound_of_node? hs hn)
      exact ⟨fun m hm => Option.some.inj hm ▸ hsound, congrArg some htag⟩

theorem Keeps.refl (lost : Place → Prop) (s : List Node) : Keeps lost s s :=
  fun _ n _ hn => ⟨n, hn, .refl n⟩

theorem Keeps.trans {s₁ s₂ s₃ : List Node} (h : Keeps lost s₁ s₂) (h' : Keeps lost s₂ s₃) :
    Keeps lost s₁ s₃ := by
  intro p n hp hn
  obtain ⟨n', hn', hpersists⟩ := h p n hp hn
  obtain ⟨n'', hn'', hpersists'⟩ := h' p n' hp hn'
  exact ⟨n'', hn'', hpersists.trans hpersists'⟩

theorem Keeps.mono {lost' : Place → Prop} {s' : List Node} (h : Keeps lost s s')
    (hlost : ∀ p, lost p → lost' p) : Keeps lost' s s' :=
  fun p n hp hn => h p n (fun hl => hp (hlost p hl)) hn

theorem keeps_append (t : List Node) : Keeps lost s (s ++ t) := by
  intro p n _ hn
  refine ⟨n, ?_, .refl n⟩
  obtain ⟨root, hroot, hn⟩ := Option.bind_eq_some_iff.mp hn
  have hlt := (List.getElem?_eq_some_iff.mp hroot).1
  rw [Place.node?, List.getElem?_append_left hlt, hroot]
  exact hn

/-- A forest keeps what is in it where a tree of it grows. -/
theorem keeps_set {i : ℕ} {n n' : Node} (hn : s[i]? = some n)
    (hgrows : n.Grows (fun path => lost ⟨i, path⟩) n') : Keeps lost s (s.set i n') := by
  rintro ⟨j, path⟩ m hp hm
  rw [Place.node?, List.getElem?_set]
  split_ifs with hij hlt
  · obtain rfl : i = j := hij
    rw [Place.node?, hn] at hm
    exact hgrows path m hp hm
  · exact absurd (List.getElem?_eq_some_iff.mp hn).1 hlt
  · exact ⟨m, hm, .refl m⟩

/-- Taking a tree into the forest. -/
theorem follows_append (hs : ∀ n ∈ s, n.Sound) {t : Option Node} (ht : ∀ n ∈ t, n.Sound) :
    Follows lost s (.ok () (s ++ t.toList)) (.ok (s.map Node.tag ++ (t.map Node.tag).toList)) := by
  have htags : s.map Node.tag ++ (t.map Node.tag).toList = (s ++ t.toList).map Node.tag := by
    rw [List.map_append, Option.toList_map]
  refine .done ⟨List.forall_mem_append.mpr ⟨hs, fun n hn => ?_⟩, htags.symm, keeps_append _⟩
  exact ht n (Option.mem_toList.mp hn)

/-- Changing one tree of the forest. -/
theorem follows_of_matches (hs : ∀ n ∈ s, n.Sound) {i : ℕ} {root : Node} (hroot : s[i]? = some root)
    {below : List PathStep → Prop} {effect : Option (Effect Node)}
    {result : Option (Except EditError Tag)} (h : Matches below root effect result) :
    Follows (fun q => q.tree = i ∧ below q.path) s
      (effect.elim (.ok () s) (.lift (s.set i)))
      (result.elim (.ok (s.map Node.tag)) (.map ((s.map Node.tag).set i))) := by
  cases h with
  | missing => exact .done ⟨hs, rfl, .refl _ s⟩
  | refused e =>
    -- the tree is put back as it was
    change Follows _ s (.error e (s.set i root)) (.error e)
    obtain ⟨hlt, rfl⟩ := List.getElem?_eq_some_iff.mp hroot
    rw [List.set_getElem_self]
    exact .refused e
  | done hdone =>
    refine .done ⟨fun n hn => ?_, ?_, keeps_set hroot ?_⟩
    · rcases List.mem_or_eq_of_mem_set hn with hn | rfl
      · exact hs n hn
      · exact hdone.sound
    · rw [List.map_set, hdone.tag]
    · exact fun path m hp hm => hdone.grows path m (fun hl => hp ⟨rfl, hl⟩) hm

/-- **An instruction does to a sound forest what it makes of the tags.** -/
theorem follows_run (hs : ∀ n ∈ s, n.Sound) (i : Instruction) :
    Follows i.loses s (i.run s) (i.edit (s.map Node.tag)) := by
  cases i with
  | start o =>
    rw [Instruction.run, Instruction.edit, ← o.tag_node?]
    exact follows_append hs o.sound_node?
  | clone p =>
    obtain ⟨hsound, htag⟩ := Place.copy_spec hs (some p)
    rw [Option.bind_some, Option.bind_some] at htag
    rw [Instruction.run, Instruction.edit, ← htag]
    exact follows_append hs hsound
  | change p op operand =>
    obtain ⟨hsound, htag⟩ := Place.copy_spec hs operand
    rw [Instruction.run, Instruction.edit, ← htag, List.getElem?_map]
    cases hroot : s[p.tree]? with
    | none => exact .done ⟨hs, rfl, .refl _ s⟩
    | some root =>
      -- an operation may lose what is below the node, never the node itself
      have hlost : ¬ op.lost [] := by
        cases op <;> simp [Change.lost]
      exact follows_of_matches hs hroot <| matches_changeAt hlost
        (fun n hn => op.matches_run hn hsound) p.path root (hs root (List.mem_of_getElem? hroot))

/-- The instruction is refused exactly if the edit of the tags is, and then the forest is as it
was. -/
theorem Follows.error_iff {effect : Effect (List Node)} {result : Except EditError (List Tag)}
    (h : Follows lost s effect result) (e : EditError) (s' : List Node) :
    effect = .error e s' ↔ result = .error e ∧ s' = s := by
  cases h with
  | refused e' =>
    constructor
    · rintro ⟨⟩
      exact ⟨rfl, rfl⟩
    · rintro ⟨⟨⟩, rfl⟩
      rfl
  | done => exact ⟨nofun, nofun⟩

/-! ### Runs -/

/-- The places that are lost in a run: those that an instruction loses and is not refused. -/
def lostIn : List Instruction → List Node → Place → Prop
  | [], _, _ => False
  | i :: is, s, p => ((i.run s).refusal? = none ∧ i.loses p) ∨ lostIn is (i.run s).state p

/-- What an instruction leaves behind, refused or done. -/
theorem reaches_step (hs : ∀ n ∈ s, n.Sound) (i : Instruction) :
    Reaches (fun p => (i.run s).refusal? = none ∧ i.loses p) s (i.run s).state
      ((i.edit (s.map Node.tag)).toOption.getD (s.map Node.tag)) := by
  have hfollows := follows_run hs i
  generalize i.run s = effect at hfollows
  generalize i.edit (s.map Node.tag) = result at hfollows
  cases hfollows with
  | refused e => exact ⟨hs, rfl, .refl _ s⟩
  | done h => exact ⟨h.sound, h.tags, h.keeps.mono fun p hp => ⟨rfl, hp⟩⟩

/-- **A run does to a sound forest what it makes of the tags.** -/
theorem reaches_run (hs : ∀ n ∈ s, n.Sound) (is : List Instruction) :
    Reaches (lostIn is s) s (run is s) (edit is (s.map Node.tag)) := by
  induction is generalizing s with
  | nil => exact ⟨hs, rfl, .refl _ s⟩
  | cons i is ih =>
    have hstep := reaches_step hs i
    have hrest := ih hstep.sound
    rw [hstep.tags] at hrest
    refine ⟨hrest.sound, hrest.tags, ?_⟩
    -- what the first instruction loses and what the rest of them lose is lost in the run
    exact (hstep.keeps.mono fun _ => .inl).trans (hrest.keeps.mono fun _ => .inr)

theorem run_append (is more : List Instruction) (s : List Node) :
    run (is ++ more) s = run more (run is s) :=
  List.foldl_append

/-- A compound that is a map: its names are distinct, and what is found under a name is the value of
the one entry with the name. -/
def IsMap (c : Table Node) : Prop :=
  c.names.Nodup ∧ ∀ name v, c.get? name = some v ↔ (name, v) ∈ c.entries

/-- **A well-formed tree**: every compound is a map, and the items of every list are of its kind. -/
def WellFormed (n : Node) : Prop :=
  n.Everywhere IsMap Node.OfOneKind

theorem wellFormed_of_sound {n : Node} (h : n.Sound) : WellFormed n :=
  Node.Everywhere.imp (fun _ hstep => ⟨hstep.nodup, hstep.get?_eq_some_iff⟩) (fun _ _ => id) n h

/-- **Trees stay well formed over every run, and a refusal changes nothing.** The trees in memory are
the tags, an instruction is refused exactly if it is refused for the tags, and what is at a place
that is not lost stays there with its names, their positions and its kind of items. -/
theorem wellFormed_run (is more : List Instruction) :
    (∀ n ∈ run is [], WellFormed n) ∧
    (run is []).map Node.tag = edit is [] ∧
    (∀ (i : Instruction) e s, i.run (run is []) = .error e s ↔
      i.edit (edit is []) = .error e ∧ s = run is []) ∧
    Keeps (lostIn more (run is [])) (run is []) (run (is ++ more) []) := by
  have hreaches := reaches_run (s := []) nofun is
  have htags : (run is []).map Node.tag = edit is [] := hreaches.tags
  refine ⟨fun n hn => wellFormed_of_sound (hreaches.sound n hn), htags, fun i e s => ?_, ?_⟩
  · rw [← htags]
    exact (follows_run hreaches.sound i).error_iff e s
  · rw [run_append]
    exact (reaches_run hreaches.sound more).keeps

/-- A number, a list that holds it, and a compound without an index that holds the list. -/
def threeTrees : List Instruction :=
  [.start (.leaf (.byte 1) rfl), .start (.list .untyped), .start (.compound false),
    .change ⟨1, []⟩ .append (some ⟨0, []⟩), .change ⟨2, []⟩ (.add "a") (some ⟨1, []⟩)]

/-- The list in the compound gets another item, a name is written beside it, and writing nothing
under its own name is refused. -/
def threeMore : List Instruction :=
  [.change ⟨2, [.key "a"]⟩ .append (some ⟨0, []⟩), .change ⟨2, []⟩ (.set "b") (some ⟨1, []⟩),
    .change ⟨2, []⟩ (.set "a") none]

theorem wellFormed_run_threeTrees :
    (∃ n ∈ run threeTrees [], WellFormed n) ∧
    (Instruction.change ⟨2, []⟩ (.add "a") (some ⟨0, []⟩)).run (run threeTrees []) =
      .error (.duplicateKey "a") (run threeTrees []) ∧
    (Instruction.change ⟨1, []⟩ .append (some ⟨2, []⟩)).run (run threeTrees []) =
      .error (.appendKind .compound .byte) (run threeTrees []) ∧
    ∃ n, Place.node? ⟨2, [.key "a"]⟩ (run (threeTrees ++ threeMore) []) = some n ∧
      (Node.list .byte [.leaf (.byte 1) rfl]).Persists n := by
  obtain ⟨hform, -, hrefused, hkeeps⟩ := wellFormed_run threeTrees threeMore
  refine ⟨⟨_, .head .., hform _ (.head ..)⟩, (hrefused _ _ _).mpr ⟨rfl, rfl⟩,
    (hrefused _ _ _).mpr ⟨rfl, rfl⟩, hkeeps ⟨2, [.key "a"]⟩ _ ?_ rfl⟩
  rintro (⟨-, -, _, -, ⟨⟩⟩ | ⟨-, -, rest, rfl, hname⟩ | ⟨⟨⟩, -⟩ | hnone)
  · have hne : ¬ [PathStep.key "b"] <+: [.key "a"] := by decide
    exact hne hname
  · exact hnone

end Editing

end Statuary
