import Statuary.Proofs.Correlation.Effect

/-!
# Summoning a statue

What a whole summoning leaves behind is said here in one statement
(`Statuary.Correlation.IsPlain.exists_summon`): a root and its bones are added to the scene, none of
them is new any more, all have the next number, and nothing else has changed.

The commands that summon the bones come from elsewhere, so all that is known of them is that they
bring in new bones (`Statuary.Correlation.BringsBones`). The one obstacle is that a selector cannot
say *which* new bones: it finds every entity that looks like one. **Only what was brought in just
now is new**, as long as nothing was new before, and this is what keeps statues apart that stand
within each other's reach.

A root may be of a type that bones are made of. Then it is found among the new bones and takes its
own number once more, which changes nothing.
-/

namespace Statuary

variable {P : Type}

/-! ### Scenes that grow -/

namespace Scene

/-- **Identities are given out once**, and only those below the next one. -/
structure IsLawful (s : Scene P) : Prop where
  nodup : s.uids.Nodup
  past : ∀ e ∈ s.entities, e.uid < s.next

/-- Entities are brought into a scene, with identities of their own. -/
structure Brings (s s' : Scene P) (es : List (Entity P)) : Prop where
  entities : s'.entities = s.entities ++ es
  next : s.next ≤ s'.next
  nodup : (es.map (·.uid)).Nodup
  fresh : ∀ e ∈ es, s.next ≤ e.uid ∧ e.uid < s'.next

/-- Earlier and later identities are different. -/
theorem nodup_append {es fs : List (Entity P)} {n : ℕ} (hes : (es.map (·.uid)).Nodup)
    (hfs : (fs.map (·.uid)).Nodup) (hearlier : ∀ e ∈ es, e.uid < n)
    (hlater : ∀ f ∈ fs, n ≤ f.uid) : ((es ++ fs).map (·.uid)).Nodup := by
  rw [List.map_append, List.nodup_append]
  refine ⟨hes, hfs, ?_⟩
  simp only [List.forall_mem_map]
  intro e he f hf heq
  have hbefore := hearlier e he
  have hafter := hlater f hf
  omega

namespace Brings

variable {s s' s'' : Scene P} {es fs : List (Entity P)}

theorem nil (s : Scene P) : s.Brings s [] :=
  ⟨(List.append_nil _).symm, le_rfl, List.nodup_nil, by simp⟩

theorem trans (h : s.Brings s' es) (h' : s'.Brings s'' fs) : s.Brings s'' (es ++ fs) where
  entities := by rw [h'.entities, h.entities, List.append_assoc]
  next := h.next.trans h'.next
  nodup := nodup_append h.nodup h'.nodup (fun e he => (h.fresh e he).2)
    fun f hf => (h'.fresh f hf).1
  fresh := List.forall_mem_append.mpr
    ⟨fun e he => ⟨(h.fresh e he).1, (h.fresh e he).2.trans_le h'.next⟩,
      fun f hf => ⟨h.next.trans (h'.fresh f hf).1, (h'.fresh f hf).2⟩⟩

theorem isLawful (h : s.Brings s' es) (hs : s.IsLawful) : s'.IsLawful where
  nodup := by
    rw [uids, h.entities]
    exact nodup_append hs.nodup h.nodup hs.past fun f hf => (h.fresh f hf).1
  past := by
    rw [h.entities]
    exact List.forall_mem_append.mpr
      ⟨fun e he => (hs.past e he).trans_le h.next, fun e he => (h.fresh e he).2⟩

/-- A change to what was brought in leaves the others alone. -/
theorem entities_change (h : s.Brings s' es) (hs : s.IsLawful) {us : List ℕ}
    (hfresh : ∀ u ∈ us, s.next ≤ u) (hfound : ∀ e ∈ es, e.uid ∈ us) (f : Entity P → Entity P) :
    (s'.change us f).entities = s.entities ++ es.map f := by
  change s'.entities.map _ = _
  rw [h.entities, List.map_append]
  refine congrArg₂ _ ((List.map_congr_left fun e he => if_neg fun hmem => ?_).trans
    (List.map_id _)) (List.map_congr_left fun e he => if_pos (hfound e he))
  exact absurd (hs.past e he) (Nat.not_lt.mpr (hfresh e.uid hmem))

theorem mem_old (h : s.Brings s' es) {e : Entity P} (he : e ∈ s.entities) : e ∈ s'.entities :=
  h.entities ▸ List.mem_append_left es he

theorem mem_new (h : s.Brings s' es) {e : Entity P} (he : e ∈ es) : e ∈ s'.entities :=
  h.entities ▸ List.mem_append_right s.entities he

end Brings

/-- One entity is brought in. -/
theorem brings_add (s : Scene P) (type : String) (place : P) (tags : List String) :
    s.Brings (s.add type place tags) [⟨s.next, type, place, tags⟩] where
  entities := rfl
  next := Nat.le_succ _
  nodup := List.nodup_singleton _
  fresh := by
    rintro e he
    obtain rfl := List.mem_singleton.mp he
    exact ⟨le_rfl, Nat.lt_succ_self _⟩

end Scene

namespace Correlation

/-! ### Members of a statue -/

section Members

variable (p : Correlation) (S : Space P)

/-- A root whose summoning is finished. -/
structure IsRoot (e : Entity P) : Prop where
  type : e.type = p.types.root
  root : p.tags.root ∈ e.tags
  model : p.tags.model ∈ e.tags
  settled : newTag ∉ e.tags

/-- A bone whose summoning is finished. -/
structure IsBone (e : Entity P) : Prop where
  type : S.means p.types.bone e.type = true
  notRoot : p.tags.root ∉ e.tags
  model : p.tags.model ∈ e.tags
  settled : newTag ∉ e.tags

/-- A bone that was summoned just now, by a root at a place. -/
structure IsNewBone (place : P) (e : Entity P) : Prop where
  type : S.means p.types.bone e.type = true
  notRoot : p.tags.root ∉ e.tags
  model : p.tags.model ∈ e.tags
  new : newTag ∈ e.tags
  near : S.near p.distance place e.place = true

/-- **A command only brings in new bones** when a root executes it where it stands. -/
def BringsBones (foreign : Interpretation (Scene P) (Context P)) (command : String) : Prop :=
  ∀ (s : Scene P), ∀ r ∈ s.entities, p.tags.root ∈ r.tags → ∃ bones s',
    (interpretation S foreign).command command ⟨some r.uid, r.place⟩ s = s' ∧
    s.Brings s' bones ∧ s'.scores = s.scores ∧ ∀ b ∈ bones, p.IsNewBone S r.place b

end Members

variable {p : Correlation} {S : Space P} {foreign : Interpretation (Scene P) (Context P)}
  {s : Scene P}

/-- **Commands together bring in new bones** if each of them does. -/
theorem exists_bones {commands : List String} (h : ∀ c ∈ commands, p.BringsBones S foreign c)
    {r : Entity P} (hr : r ∈ s.entities) (hroot : p.tags.root ∈ r.tags) : ∃ bones s',
    (interpretation S foreign).runBody (commands.map .line) ⟨some r.uid, r.place⟩ s = s' ∧
    s.Brings s' bones ∧ s'.scores = s.scores ∧ ∀ b ∈ bones, p.IsNewBone S r.place b := by
  simp only [Interpretation.runBody_lines]
  induction commands generalizing s with
  | nil => exact ⟨[], s, rfl, .nil s, rfl, by simp⟩
  | cons c commands ih =>
    obtain ⟨hc, hrest⟩ := List.forall_mem_cons.mp h
    obtain ⟨bones, s', hs', hbrings, hscores, hbones⟩ := hc s r hr hroot
    obtain ⟨more, s'', hs'', hbrings', hscores', hmore⟩ := ih hrest (hbrings.mem_old hr)
    refine ⟨bones ++ more, s'', ?_, hbrings.trans hbrings', hscores'.trans hscores,
      List.forall_mem_append.mpr ⟨hbones, hmore⟩⟩
    rw [List.foldl_cons, hs', hs'']

/-! ### The number is handed on -/

/-- Entities take the number given out last, and are no longer new. -/
def settle (p : Correlation) (s : Scene P) (us : List ℕ) : Scene P :=
  { s.change us (·.untag newTag) with
    scores := fun h o => if (∃ u ∈ us, h = .entity u) ∧ o = p.objectives.id then some (p.lastId s)
      else s.scores h o }

theorem scores_settle {us : List ℕ} {u : ℕ} (hu : u ∈ us) :
    (p.settle s us).scores (.entity u) p.objectives.id = some (p.lastId s) :=
  if_pos ⟨⟨u, hu, rfl⟩, rfl⟩

theorem scores_settle_name (us : List ℕ) (name o : String) :
    (p.settle s us).scores (.name name) o = s.scores (.name name) o :=
  if_neg (by simp)

theorem scores_settle_of_notMem {us : List ℕ} {u : ℕ} (hu : u ∉ us) (o : String) :
    (p.settle s us).scores (.entity u) o = s.scores (.entity u) o :=
  if_neg (by simpa using fun hmem => absurd hmem hu)

theorem lastId_settle (us : List ℕ) : p.lastId (p.settle s us) = p.lastId s := by
  rw [lastId, Scene.value, scores_settle_name, lastId, Scene.value]

theorem uids_settle (us : List ℕ) : (p.settle s us).uids = s.uids :=
  Scene.uids_change (s := s) fun _ => rfl

theorem settle_nil : p.settle s [] = s := by
  simp [settle, Scene.change]

theorem settle_settle (us vs : List ℕ) :
    p.settle (p.settle s us) vs = p.settle s (us ++ vs) := by
  have hchange := s.change_change us vs (f := (·.untag newTag)) (fun _ => rfl)
    fun e => e.untag_untag newTag
  have hscores : (p.settle (p.settle s us) vs).scores = (p.settle s (us ++ vs)).scores := by
    funext h o
    change (if _ then some (p.lastId (p.settle s us)) else _) = _
    rw [lastId_settle]
    by_cases hv : (∃ v ∈ vs, h = .entity v) ∧ o = p.objectives.id
    · obtain ⟨⟨v, hv, rfl⟩, rfl⟩ := hv
      rw [if_pos ⟨⟨v, hv, rfl⟩, rfl⟩, scores_settle (List.mem_append_right us hv)]
    · rw [if_neg hv]
      refine if_congr ?_ rfl rfl
      constructor
      · rintro ⟨⟨u, hu, rfl⟩, rfl⟩
        exact ⟨⟨u, List.mem_append_left vs hu, rfl⟩, rfl⟩
      · rintro ⟨⟨u, huv, rfl⟩, rfl⟩
        rcases List.mem_append.mp huv with hu | hu
        · exact ⟨⟨u, hu, rfl⟩, rfl⟩
        · exact absurd ⟨⟨u, hu, rfl⟩, rfl⟩ hv
  exact congrArg₂ (fun t scores => { (t : Scene P) with scores }) hchange hscores

/-! ### What is found -/

/-- The root that was summoned just now is found, and no other. -/
theorem select_newRoot (hsettled : ∀ e ∈ s.entities, newTag ∉ e.tags) (x : Context P) :
    p.newRoot.select S x (s.add p.types.root x.place [p.tags.model, p.tags.root, newTag]) =
      [⟨s.next, p.types.root, x.place, [p.tags.model, p.tags.root, newTag]⟩] := by
  have hold : s.entities.filter (fun e => [.type p.types.root, .tag p.tags.root, .tag newTag,
      .within (.ofInt 1), .limit 1].all (Filter.passes S x.place e)) = [] :=
    List.filter_eq_nil_iff.mpr fun e he => by simp [Filter.passes, hsettled e he]
  change limited _ ((s.entities ++ [_]).filter _) = _
  rw [List.filter_append, hold]
  simp [Filter.passes, S.means_self, S.near_self, limited]

theorem mem_select_newBones {x : Context P} {e : Entity P} :
    e ∈ p.newBones.select S x s ↔ e ∈ s.entities ∧ S.means p.types.bone e.type = true ∧
      p.tags.model ∈ e.tags ∧ newTag ∈ e.tags ∧ S.near p.distance x.place e.place = true := by
  simp [newBones, Target.select, limited, Filter.passes]

/-- **Only what was brought in is found among the new bones**, and every new bone is found. -/
theorem found_newBones {s' : Scene P} {r : Entity P} {bones : List (Entity P)}
    (hsettled : ∀ e ∈ s.entities, newTag ∉ e.tags) (hbrings : s.Brings s' (r :: bones))
    (hbones : ∀ b ∈ bones, p.IsNewBone S r.place b) (u : ℕ) :
    (∀ v ∈ (p.newBones.select S ⟨some u, r.place⟩ s').map (·.uid), s.next ≤ v) ∧
      ∀ b ∈ bones, b.uid ∈ (p.newBones.select S ⟨some u, r.place⟩ s').map (·.uid) := by
  constructor
  · refine List.forall_mem_map.mpr fun e he => ?_
    obtain ⟨hmem, -, -, hnew, -⟩ := mem_select_newBones.mp he
    rw [hbrings.entities] at hmem
    rcases List.mem_append.mp hmem with hold | hmem
    · exact absurd hnew (hsettled e hold)
    · exact (hbrings.fresh e hmem).1
  · intro b hb
    have hbone := hbones b hb
    exact List.mem_map_of_mem (mem_select_newBones.mpr
      ⟨hbrings.mem_new (List.mem_cons_of_mem r hb), hbone.type, hbone.model, hbone.new, hbone.near⟩)

/-! ### A whole summoning -/

/-- **A statue has been added to a scene**: a root and its bones, which all have the next number. -/
structure Summoned (p : Correlation) (S : Space P) (s s' : Scene P) (r : Entity P)
    (bones : List (Entity P)) : Prop where
  brings : s.Brings s' (r :: bones)
  root : p.IsRoot r
  bone : ∀ b ∈ bones, p.IsBone S b ∧ S.near p.distance r.place b.place = true
  numbered : ∀ e ∈ r :: bones, p.number s' e = some (p.lastId s')
  next : p.lastId s' = toScore (p.lastId s + 1)
  kept : ∀ u < s.next, ∀ o, s'.scores (.entity u) o = s.scores (.entity u) o

namespace IsPlain

variable (hp : p.IsPlain)

include hp

/-- **What is done as a new bone.** -/
theorem runBody_join (hs : s.uids.Nodup) {e : Entity P} (he : e ∈ s.entities) :
    (interpretation S foreign).runBody
      (p.statements [.order .takeId, .order .align, .order .dropNew]) ⟨some e.uid, e.place⟩ s =
        p.settle s [e.uid] := by
  change (interpretation S foreign).command (p.orderText .dropNew) ⟨some e.uid, e.place⟩
    ((interpretation S foreign).command (p.orderText .align) ⟨some e.uid, e.place⟩
      ((interpretation S foreign).command (p.orderText .takeId) ⟨some e.uid, e.place⟩ s)) = _
  rw [hp.command_takeId hs he, command_align (by exact hs) (by exact he), command_dropNew]
  have hscores : (s.setScore (.entity e.uid) p.objectives.id (p.lastId s)).scores =
      (p.settle s [e.uid]).scores := by
    funext h o
    simp [Scene.setScore, settle]
  exact congrArg (fun scores => { s.change [e.uid] (·.untag newTag) with scores }) hscores

/-- What is done as new bones, one after another. -/
theorem foldl_join (es : List (Entity P)) (hs : s.uids.Nodup)
    (hes : ∀ e ∈ es, ∃ f ∈ s.entities, f.uid = e.uid ∧ f.place = e.place) :
    (es.map fun e => (⟨some e.uid, e.place⟩ : Context P)).foldl (fun s y =>
      (interpretation S foreign).runBody
        (p.statements [.order .takeId, .order .align, .order .dropNew]) y s) s =
      p.settle s (es.map (·.uid)) := by
  induction es generalizing s with
  | nil => exact settle_nil.symm
  | cons e es ih =>
    obtain ⟨⟨f, hf, huid, hplace⟩, hrest⟩ := List.forall_mem_cons.mp hes
    rw [List.map_cons, List.foldl_cons, ← huid, ← hplace, hp.runBody_join hs hf, ih,
      settle_settle, List.map_cons, huid, List.singleton_append]
    · rw [uids_settle]
      exact hs
    · -- what is done as one bone moves and renames none of the others
      intro g hg
      obtain ⟨f', hf', huid', hplace'⟩ := hrest g hg
      refine ⟨_, List.mem_map_of_mem hf', ?_⟩
      split
      · exact ⟨huid', hplace'⟩
      · exact ⟨huid', hplace'⟩

/-- The number is handed to all new bones, and the root is no longer new. -/
theorem runBody_settle (hs : s.uids.Nodup) (x : Context P) (u : ℕ) (hx : x.executor = some u) :
    (interpretation S foreign).runBody [.block p.newBonesHead
      (p.statements [.order .takeId, .order .align, .order .dropNew]),
        .line (p.orderText .dropNew)] x s =
      (p.settle s ((p.newBones.select S x s).map (·.uid))).change [u] (·.untag newTag) := by
  obtain ⟨executor, a⟩ := x
  obtain rfl : executor = some u := hx
  rw [Interpretation.runBody_block, hp.head_newBones hs,
    hp.foldl_join _ hs fun e he => ⟨e, Target.mem_of_mem_select he, rfl, rfl⟩,
    Interpretation.runBody_line, command_dropNew, Interpretation.runBody_nil]

/-- **What a summoning does**, step by step: the root, its number, its bones and their number. -/
theorem exists_runBody_summon (hs : s.IsLawful) (hsettled : ∀ e ∈ s.entities, newTag ∉ e.tags)
    {commands : List String} (hcommands : ∀ c ∈ commands, p.BringsBones S foreign c)
    (x : Context P) : ∃ r bones s' us,
      r = ⟨s.next, p.types.root, x.place, [p.tags.model, p.tags.root, newTag]⟩ ∧
      s.Brings s' (r :: bones) ∧ (∀ b ∈ bones, p.IsNewBone S r.place b) ∧
      s'.scores = ((s.setScore (.name lastIdHolder) p.objectives.internal
        (toScore (p.lastId s + 1))).setScore (.entity s.next) p.objectives.id
          (toScore (p.lastId s + 1))).scores ∧
      us = (p.newBones.select S ⟨some r.uid, r.place⟩ s').map (·.uid) ∧
      (interpretation S foreign).runBody (p.statements (summon commands)) x s =
        (p.settle s' us).change [r.uid] (·.untag newTag) := by
  have hbrings : s.Brings _ _ := s.brings_add p.types.root x.place
    [p.tags.model, p.tags.root, newTag]
  have hlawful := hbrings.isLawful hs
  have hr := hbrings.mem_new (List.mem_singleton_self _)
  obtain ⟨bones, s', hs', hbrings', hscores, hbones⟩ := exists_bones
    (s := ((s.add p.types.root x.place [p.tags.model, p.tags.root, newTag]).setScore
      (.name lastIdHolder) p.objectives.internal (toScore (p.lastId s + 1))).setScore
        (.entity s.next) p.objectives.id (toScore (p.lastId s + 1))) hcommands hr (by simp)
  have hboth := hbrings.trans
    ⟨hbrings'.entities, hbrings'.next, hbrings'.nodup, hbrings'.fresh⟩
  refine ⟨_, bones, s', _, rfl, hboth, hbones, hscores, rfl, ?_⟩
  rw [statements_summon, Interpretation.runBody_line, hp.command_summonRoot,
    Interpretation.runBody_block, hp.head_newRoot hlawful.nodup, select_newRoot hsettled,
    List.map_singleton, List.foldl_cons, List.foldl_nil, Interpretation.runBody_nil,
    Interpretation.runBody_line, hp.command_mintId hlawful.nodup hr,
    Interpretation.runBody_append, ← hp.runBody_settle (hboth.isLawful hs).nodup _ _ rfl]
  exact congrArg _ hs'

/-- **What a summoning does**: it adds a statue where it is run. -/
theorem exists_summoned (hmodel : p.tags.model ≠ newTag) (hroot : p.tags.root ≠ newTag)
    (hs : s.IsLawful) (hsettled : ∀ e ∈ s.entities, newTag ∉ e.tags) {commands : List String}
    (hcommands : ∀ c ∈ commands, p.BringsBones S foreign c) (x : Context P) : ∃ r bones,
    r.place = x.place ∧ p.Summoned S s
      ((interpretation S foreign).runBody (p.statements (summon commands)) x s) r bones := by
  obtain ⟨r, bones, s', us, hr, hbrings, hbones, hscores, rfl, hrun⟩ :=
    hp.exists_runBody_summon hs hsettled hcommands x
  obtain ⟨hfresh, hfound⟩ := found_newBones hsettled hbrings hbones r.uid
  rw [hrun]
  set us := (p.newBones.select S ⟨some r.uid, r.place⟩ s').map (·.uid)
  have huid : r.uid = s.next := by rw [hr]
  have hlast : p.lastId s' = toScore (p.lastId s + 1) := by
    rw [lastId, Scene.value, hscores, Scene.scores_setScore_of_ne (by simp),
      Scene.scores_setScore_self, Option.getD_some]
  have hlast' : p.lastId ((p.settle s' us).change [r.uid] (·.untag newTag)) = p.lastId s' :=
    lastId_settle us
  have hentities : ((p.settle s' us).change [r.uid] (·.untag newTag)).entities =
      s.entities ++ (r :: bones).map (·.untag newTag) := by
    have hchange := s'.change_change us [r.uid] (f := (·.untag newTag)) (fun _ => rfl)
      fun e => e.untag_untag newTag
    refine (congrArg Scene.entities hchange).trans (hbrings.entities_change hs ?_ ?_ _)
    · exact List.forall_mem_append.mpr ⟨hfresh, List.forall_mem_singleton.mpr huid.ge⟩
    · exact List.forall_mem_cons.mpr ⟨List.mem_append_right us (List.mem_singleton_self _),
        fun b hb => List.mem_append_left _ (hfound b hb)⟩
  refine ⟨r.untag newTag, bones.map (·.untag newTag), ?place, ?brings, ?root, ?bone, ?numbered,
    ?next, ?kept⟩
  case place =>
    rw [hr]
    rfl
  case brings =>
    refine ⟨hentities, hbrings.next, ?_, ?_⟩
    · have huids : ((r :: bones).map (·.untag newTag)).map (·.uid) = (r :: bones).map (·.uid) := by
        rw [List.map_map]
        rfl
      exact huids ▸ hbrings.nodup
    · change ∀ e ∈ (r :: bones).map (·.untag newTag), _
      intro e he
      obtain ⟨f, hf, rfl⟩ := List.mem_map.mp he
      exact hbrings.fresh f hf
  case root =>
    rw [hr]
    exact ⟨rfl, Entity.mem_untag.mpr ⟨by simp, hroot⟩, Entity.mem_untag.mpr ⟨by simp, hmodel⟩,
      fun hmem => (Entity.mem_untag.mp hmem).2 rfl⟩
  case bone =>
    refine List.forall_mem_map.mpr fun b hb => ⟨?_, (hbones b hb).near⟩
    exact ⟨(hbones b hb).type, fun hmem => (hbones b hb).notRoot (Entity.mem_untag.mp hmem).1,
      Entity.mem_untag.mpr ⟨(hbones b hb).model, hmodel⟩,
      fun hmem => (Entity.mem_untag.mp hmem).2 rfl⟩
  case numbered =>
    have hroots : (p.settle s' us).scores (.entity r.uid) p.objectives.id =
        some (p.lastId s') := by
      by_cases hmem : r.uid ∈ us
      · exact scores_settle hmem
      · rw [scores_settle_of_notMem hmem, hscores, huid, Scene.scores_setScore_self, hlast]
    rw [hlast']
    refine List.forall_mem_cons.mpr ⟨hroots, List.forall_mem_map.mpr fun b hb => ?_⟩
    exact scores_settle (hfound b hb)
  case next => rw [hlast', hlast]
  case kept =>
    intro u hu o
    have hmem : u ∉ us := fun hmem => absurd hu (Nat.not_lt.mpr (hfresh u hmem))
    change (p.settle s' us).scores (.entity u) o = _
    rw [scores_settle_of_notMem hmem, hscores, Scene.scores_setScore_of_ne (by simp; omega),
      Scene.scores_setScore_of_ne (by simp)]

end IsPlain

end Correlation

end Statuary
