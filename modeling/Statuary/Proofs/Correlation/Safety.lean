import Mathlib.Data.List.Pairwise
import Statuary.Proofs.Correlation.Removal
import Statuary.Proofs.Correlation.Summoning
import Statuary.Proofs.Export.Switching

/-!
# Statues are told apart

A statue is nothing but entities with the same number, found by type, tags and distance, and several
statues of a rig may stand within each other's reach. Here the functions of a rig are run one after
another, in any order and as anyone (`Statuary.Operation`), and in **every** scene that comes about
statues are told apart (`Statuary.Correlation.IsSafe`).

The one obstacle is that "the bones of a statue" is not to be seen in a scene. So beside the scene
it is kept which entities each summoning brought in (`Statuary.Course`), and what is proved is that
the numbers say the same (`Statuary.Correlation.IsOrderly`):

* who was brought in together has the same number, and who was not has another one;
* each number is that of exactly one root, within whose reach the others are.

Most of it says something of all entities that are there, so it survives when some of them go
(`Statuary.Correlation.IsOrderly.less`); only a summoning has to be looked at closely, for its
number must be one that nobody has. That is so as long as the numbers do not come round, and a score
has 32 bits.
-/

namespace Statuary

variable {P : Type}

/-! ### Operations -/

/-- A function of a statue that is run, and as whom and where. -/
inductive Operation (P : Type) where
  /-- Summons a statue, given the commands that summon its bones. -/
  | summon (commands : List String) (caller : Context P)
  /-- Removes the statue of the executing root. -/
  | removeThis (caller : Context P)
  /-- Changes how the statue of the executing root looks. -/
  | setVariant (variant : String) (commands : List String) (caller : Context P)
  /-- Removes all statues. -/
  | removeAll (caller : Context P)

namespace Operation

/-- The steps of the function. -/
def steps : Operation P → List Step
  | summon commands _ => Correlation.summon commands
  | removeThis _ => Correlation.removeThis
  | setVariant variant commands _ => Correlation.setVariant variant commands
  | removeAll _ => Correlation.removeAll

/-- As whom and where the function is run. -/
def caller : Operation P → Context P
  | summon _ x | removeThis x | setVariant _ _ x | removeAll x => x

/-- The function summons a statue. -/
def isSummon : Operation P → Bool
  | summon .. => true
  | _ => false

/-- The commands that come from elsewhere do what they are there for: those of a summoning bring in
new bones, and those that change looks change nothing of what a scene keeps. -/
def IsFaithful (p : Correlation) (S : Space P) (foreign : Interpretation (Scene P) (Context P)) :
    Operation P → Prop
  | summon commands _ => ∀ c ∈ commands, p.BringsBones S foreign c
  | setVariant _ commands _ => ∀ c ∈ commands, ∀ x s,
      (interpretation S foreign).command c x s = s
  | _ => True

end Operation

/-- A scene, and who was brought in by each summoning on the way to it. -/
structure Course (P : Type) where
  /-- The scene. -/
  scene : Scene P
  /-- The identities that each summoning brought in. -/
  groups : List (List ℕ)

/-- The identities in a scene that were not given out before. -/
def Scene.since (s' s : Scene P) : List ℕ :=
  s'.uids.filter (s.next ≤ ·)

namespace Course

/-- Nothing has been done yet. -/
def start : Course P :=
  ⟨.empty, []⟩

variable (p : Correlation) (I : Interpretation (Scene P) (Context P))

/-- **An operation is run.** -/
def after (h : Course P) (op : Operation P) : Course P :=
  let s := I.runBody (p.statements op.steps) op.caller h.scene
  ⟨s, if op.isSummon then h.groups ++ [s.since h.scene] else h.groups⟩

/-- **Operations are run** one after another, from nothing. -/
def run (ops : List (Operation P)) : Course P :=
  ops.foldl (after p I) start

variable {p I}

theorem run_append (ops : List (Operation P)) (op : Operation P) :
    run p I (ops ++ [op]) = (run p I ops).after p I op := by
  rw [run, List.foldl_append, run]
  rfl

theorem length_groups_run (ops : List (Operation P)) :
    (run p I ops).groups.length = ops.countP (·.isSummon) := by
  induction ops using List.reverseRecOn with
  | nil => rfl
  | append_singleton ops op ih =>
    rw [run_append, List.countP_append, ← ih, after, List.countP_singleton]
    split <;> simp

end Course

namespace Correlation

/-- **The commands that change models** do what they are there for: a scene keeps nothing of what
entities wear. -/
theorem isFaithful_modelCommands {p : Correlation} {S : Space P}
    {foreign : Interpretation (Scene P) (Context P)} {r : Rig} {tags : Tags}
    (htags : ∀ b ∈ r.exportedBones, IsToken (tags.bone b.name)) (v : Variant) (x : Context P) :
    (Operation.setVariant v.name (Build.modelCommands r tags v) x).IsFaithful p S foreign := by
  refine List.forall_mem_map.mpr fun b hb y s => ?_
  have hread := Bone.read_modelCommand (htags b (List.mem_of_mem_filter hb)) v
  exact command_of_read hread rfl

/-! ### The invariant -/

/-- **The numbers say who belongs together.** -/
structure IsOrderly (p : Correlation) (S : Space P) (h : Course P) : Prop where
  lawful : h.scene.IsLawful
  member : ∀ e ∈ h.scene.entities, p.IsRoot e ∨ p.IsBone S e
  /-- Every number was given out. -/
  numbered : ∀ e ∈ h.scene.entities, ∃ n, p.number h.scene e = some n ∧ n ≤ p.lastId h.scene
  /-- No two roots have the same number. -/
  sole : ∀ r ∈ h.scene.entities, ∀ r' ∈ h.scene.entities, p.tags.root ∈ r.tags →
    p.tags.root ∈ r'.tags → p.number h.scene r = p.number h.scene r' → r = r'
  /-- A bone is within reach of the root with its number. -/
  rooted : ∀ b ∈ h.scene.entities, p.tags.root ∉ b.tags → ∃ r ∈ h.scene.entities,
    p.tags.root ∈ r.tags ∧ p.number h.scene r = p.number h.scene b ∧
      S.near p.distance r.place b.place = true
  /-- A number is given out by each summoning. -/
  counter : p.lastId h.scene = h.groups.length
  past : ∀ g ∈ h.groups, ∀ u ∈ g, u < h.scene.next
  apart : h.groups.Pairwise List.Disjoint
  /-- Everyone was brought in. -/
  grouped : ∀ e ∈ h.scene.entities, ∃ g ∈ h.groups, e.uid ∈ g
  /-- Who was brought in together has the same number, and no one else has it. -/
  together : ∀ g ∈ h.groups, ∀ e ∈ h.scene.entities, ∀ e' ∈ h.scene.entities, e.uid ∈ g →
    (e'.uid ∈ g ↔ p.number h.scene e' = p.number h.scene e)

variable {p : Correlation} {S : Space P} {foreign : Interpretation (Scene P) (Context P)}
  {h : Course P} {s : Scene P}

namespace IsOrderly

theorem start : p.IsOrderly S (.start : Course P) where
  lawful := ⟨List.nodup_nil, by simp [Course.start, Scene.empty]⟩
  member := by simp [Course.start, Scene.empty]
  numbered := by simp [Course.start, Scene.empty]
  sole := by simp [Course.start, Scene.empty]
  rooted := by simp [Course.start, Scene.empty]
  counter := rfl
  past := by simp [Course.start]
  apart := List.Pairwise.nil
  grouped := by simp [Course.start, Scene.empty]
  together := by simp [Course.start]

theorem settled (hh : p.IsOrderly S h) : ∀ e ∈ h.scene.entities, newTag ∉ e.tags :=
  fun e he => (hh.member e he).elim (·.settled) (·.settled)

/-- **Entities may go**, if no root goes before its bones. -/
theorem less (hh : p.IsOrderly S h) (hkeeps : p.Keeps h.scene s)
    (hsub : s.entities.Sublist h.scene.entities)
    (hrooted : ∀ b ∈ s.entities, ∀ r ∈ h.scene.entities,
      p.number h.scene r = p.number h.scene b → r ∈ s.entities) :
    p.IsOrderly S ⟨s, h.groups⟩ where
  lawful :=
    ⟨(hsub.map _).nodup hh.lawful.nodup, fun e he => hkeeps.next ▸ hh.lawful.past e (hsub.mem he)⟩
  member e he := hh.member e (hsub.mem he)
  numbered e he := by
    rw [hkeeps.number, hkeeps.lastId]
    exact hh.numbered e (hsub.mem he)
  sole r hr r' hr' := by
    rw [hkeeps.number, hkeeps.number]
    exact hh.sole r (hsub.mem hr) r' (hsub.mem hr')
  rooted b hb hbone := by
    obtain ⟨r, hr, hroot, hnumber, hnear⟩ := hh.rooted b (hsub.mem hb) hbone
    refine ⟨r, hrooted b hb r hr hnumber, hroot, ?_, hnear⟩
    rw [hkeeps.number, hkeeps.number, hnumber]
  counter := hkeeps.lastId.trans hh.counter
  past g hg u hu := hkeeps.next ▸ hh.past g hg u hu
  apart := hh.apart
  grouped e he := hh.grouped e (hsub.mem he)
  together g hg e he e' he' := by
    rw [hkeeps.number, hkeeps.number]
    exact hh.together g hg e (hsub.mem he) e' (hsub.mem he')

/-! ### A summoning -/

section Summoned

variable {r : Entity P} {bones : List (Entity P)}

/-- **Numbers do not come round** before all of them were given out. -/
theorem lastId_summoned (hh : p.IsOrderly S h) (hs : p.Summoned S h.scene s r bones)
    (hcount : h.groups.length + 1 < 2 ^ 31) : p.lastId s = p.lastId h.scene + 1 := by
  have hcounter := hh.counter
  rw [hs.next, toScore_of_le] <;> omega

/-- **The last number is that of the new ones** and of no one else. -/
theorem number_summoned (hh : p.IsOrderly S h) (hs : p.Summoned S h.scene s r bones)
    (hlast : p.lastId s = p.lastId h.scene + 1) :
    (∀ e ∈ h.scene.entities, ∃ n, p.number s e = some n ∧ p.number h.scene e = some n ∧
      n ≤ p.lastId h.scene) ∧
    ∀ e ∈ s.entities, h.scene.next ≤ e.uid ↔ p.number s e = some (p.lastId s) := by
  have hold : ∀ e ∈ h.scene.entities, ∃ n, p.number s e = some n ∧
      p.number h.scene e = some n ∧ n ≤ p.lastId h.scene := by
    intro e he
    obtain ⟨n, hn, hle⟩ := hh.numbered e he
    exact ⟨n, (hs.kept e.uid (hh.lawful.past e he) _).trans hn, hn, hle⟩
  refine ⟨hold, fun e he => ?_⟩
  rw [hs.brings.entities] at he
  rcases List.mem_append.mp he with he | he
  · obtain ⟨n, hn, -, hle⟩ := hold e he
    have hpast := hh.lawful.past e he
    rw [hn, Option.some_inj]
    omega
  · exact iff_of_true (hs.brings.fresh e he).1 (hs.numbered e he)

/-- A summoning keeps statues apart. -/
theorem summoned (hh : p.IsOrderly S h) (hs : p.Summoned S h.scene s r bones)
    (hcount : h.groups.length + 1 < 2 ^ 31) :
    p.IsOrderly S ⟨s, h.groups ++ [s.since h.scene]⟩ := by
  have hlast := hh.lastId_summoned hs hcount
  obtain ⟨hold, hnew⟩ := hh.number_summoned hs hlast
  have hlawful := hs.brings.isLawful hh.lawful
  have hmem : ∀ {e}, e ∈ s.entities ↔ e ∈ h.scene.entities ∨ e ∈ r :: bones := by
    intro e
    rw [hs.brings.entities, List.mem_append]
  have hsince : ∀ e ∈ s.entities, e.uid ∈ s.since h.scene ↔ p.number s e = some (p.lastId s) := by
    intro e he
    rw [Scene.since, List.mem_filter, decide_eq_true_eq, hnew e he]
    exact and_iff_right (List.mem_map_of_mem he)
  have hkept : ∀ e ∈ h.scene.entities, p.number s e = p.number h.scene e := by
    intro e he
    obtain ⟨n, hn, hn', -⟩ := hold e he
    rw [hn, hn']
  have hother : ∀ e ∈ h.scene.entities, p.number s e ≠ some (p.lastId s) := by
    intro e he heq
    obtain ⟨n, hn, -, hle⟩ := hold e he
    rw [hn, Option.some_inj] at heq
    omega
  refine ⟨hlawful, ?member, ?numbered, ?sole, ?rooted, ?counter, ?past, ?apart, ?grouped, ?together⟩
  case member =>
    intro e he
    rcases hmem.mp he with he | he
    · exact hh.member e he
    · rcases List.mem_cons.mp he with rfl | he
      · exact .inl hs.root
      · exact .inr (hs.bone e he).1
  case numbered =>
    intro e he
    rcases hmem.mp he with he | he
    · obtain ⟨n, hn, -, hle⟩ := hold e he
      exact ⟨n, hn, hle.trans (hlast ▸ (lt_add_one _).le)⟩
    · exact ⟨_, hs.numbered e he, le_rfl⟩
  case sole =>
    have hroot : ∀ e ∈ r :: bones, p.tags.root ∈ e.tags → e = r := fun e he hroot =>
      (List.mem_cons.mp he).elim id fun hb => absurd hroot (hs.bone e hb).1.notRoot
    intro e he f hf heroot hfroot hnumber
    rcases hmem.mp he with he | he <;> rcases hmem.mp hf with hf | hf
    · exact hh.sole e he f hf heroot hfroot (by rw [← hkept e he, ← hkept f hf, hnumber])
    · exact absurd (hnumber.trans (hs.numbered f hf)) (hother e he)
    · exact absurd (hnumber.symm.trans (hs.numbered e he)) (hother f hf)
    · rw [hroot e he heroot, hroot f hf hfroot]
  case rooted =>
    intro b hb hbone
    rcases hmem.mp hb with hb | hb
    · obtain ⟨r', hr', hroot, hnumber, hnear⟩ := hh.rooted b hb hbone
      exact ⟨r', hmem.mpr (.inl hr'), hroot, by rw [hkept r' hr', hkept b hb, hnumber], hnear⟩
    · have hr : r ∈ r :: bones := List.mem_cons_self
      refine ⟨r, hmem.mpr (.inr hr), hs.root.root,
        (hs.numbered r hr).trans (hs.numbered b hb).symm, ?_⟩
      rcases List.mem_cons.mp hb with rfl | hb
      · exact absurd hs.root.root hbone
      · exact (hs.bone b hb).2
  case counter =>
    rw [hlast, hh.counter, List.length_append, List.length_singleton]
    exact (Nat.cast_succ _).symm
  case past =>
    intro g hg u hu
    rcases List.mem_append.mp hg with hg | hg
    · exact (hh.past g hg u hu).trans_le hs.brings.next
    · rw [List.mem_singleton.mp hg] at hu
      obtain ⟨e, he, rfl⟩ := List.mem_map.mp (List.mem_of_mem_filter hu)
      exact hlawful.past e he
  case apart =>
    refine List.pairwise_append.mpr ⟨hh.apart, List.pairwise_singleton _ _, fun g hg g' hg' => ?_⟩
    rw [List.mem_singleton.mp hg']
    intro u hu hu'
    have hpast := hh.past g hg u hu
    have hnext := of_decide_eq_true (List.mem_filter.mp hu').2
    omega
  case grouped =>
    intro e he
    rcases hmem.mp he with hold | hnew
    · obtain ⟨g, hg, hu⟩ := hh.grouped e hold
      exact ⟨g, List.mem_append_left _ hg, hu⟩
    · exact ⟨_, List.mem_append_right _ (List.mem_singleton_self _),
        (hsince e he).mpr (hs.numbered e hnew)⟩
  case together =>
    intro g hg e he e' he' hu
    rcases List.mem_append.mp hg with hg | hg
    · -- of an earlier summoning are only those that were there
      have hearlier : ∀ f ∈ r :: bones, f.uid ∉ g := fun f hf hmem =>
        absurd (hh.past g hg f.uid hmem) (Nat.not_lt.mpr (hs.brings.fresh f hf).1)
      have he := (hmem.mp he).resolve_right fun hnew => hearlier e hnew hu
      rcases hmem.mp he' with he' | hnew'
      · rw [hkept e he, hkept e' he']
        exact hh.together g hg e he e' he' hu
      · refine iff_of_false (hearlier e' hnew') fun hnumber => hother e he ?_
        rw [← hnumber, hs.numbered e' hnew']
    · rw [List.mem_singleton.mp hg] at hu ⊢
      rw [(hsince e he).mp hu]
      exact hsince e' he'

end Summoned

/-! ### Removals and changes -/

section Step

variable (hp : p.IsPlain) (hh : p.IsOrderly S h)

include hp hh

variable (foreign) in
/-- **The statue of a root goes, and nobody else**: those are killed who have its number. -/
theorem removeThis {r : Entity P} (hr : r ∈ h.scene.entities) (hroot : p.tags.root ∈ r.tags)
    (a : P) (hs : s = (interpretation S foreign).runBody (p.statements Correlation.removeThis)
      ⟨some r.uid, a⟩ h.scene) :
    p.Keeps h.scene s ∧ s.entities =
      h.scene.entities.filter fun e => decide (p.number h.scene e ≠ p.number h.scene r) := by
  obtain ⟨n, hn, -⟩ := hh.numbered r hr
  obtain ⟨us, hrun, hus⟩ := hp.exists_runBody_removeThis S foreign
    hh.lawful.nodup hr hroot hn a
  rw [hs, hrun]
  refine ⟨(p.keeps_remembered h.scene n).without _, List.filter_congr fun e he => ?_⟩
  have hgone : e.uid ∈ us ++ [r.uid] ↔ p.number h.scene e = p.number h.scene r := by
    rw [List.mem_append, List.mem_singleton, hn]
    constructor
    · rintro (hmem | huid)
      · exact ((hus e he).mp hmem).2.2.2
      · rw [List.inj_on_of_nodup_map hh.lawful.nodup he hr huid, hn]
    · intro hnumber
      rcases hh.member e he with heroot | hebone
      · -- no other root has this number
        exact .inr (congrArg Entity.uid
          (hh.sole e he r hr heroot.root hroot (hnumber.trans hn.symm)))
      · -- the root within whose reach the bone is has this number, so it is the same
        obtain ⟨r', hr', hroot', hnumber', hnear⟩ := hh.rooted e he hebone.notRoot
        obtain rfl := hh.sole r' hr' r hr hroot' hroot ((hnumber'.trans hnumber).trans hn.symm)
        exact .inl ((hus e he).mpr ⟨hebone.type, hebone.model, hnear, hnumber⟩)
  exact decide_eq_decide.mpr (not_congr hgone)

/-- A function for roots keeps statues apart if it does so when a root runs it. -/
theorem asRoot {function : String} {steps : List Step} (x : Context P)
    (hroots : ∀ r ∈ h.scene.entities, p.tags.root ∈ r.tags → ∀ a, p.IsOrderly S
      ⟨(interpretation S foreign).runBody (p.statements (Correlation.asRoot function steps))
        ⟨some r.uid, a⟩ h.scene, h.groups⟩) :
    p.IsOrderly S ⟨(interpretation S foreign).runBody
      (p.statements (Correlation.asRoot function steps)) x h.scene, h.groups⟩ := by
  by_cases hx : ∃ r ∈ h.scene.entities, p.tags.root ∈ r.tags ∧ x.executor = some r.uid
  · obtain ⟨r, hr, hroot, hexecutor⟩ := hx
    obtain ⟨executor, a⟩ := x
    obtain rfl : executor = some r.uid := hexecutor
    exact hroots r hr hroot a
  · rw [hp.runBody_asRoot_of_not_root fun r hr hroot heq => hx ⟨r, hr, hroot, heq⟩]
    exact hh

theorem after_removeThis (x : Context P) : p.IsOrderly S ⟨(interpretation S foreign).runBody
    (p.statements Correlation.removeThis) x h.scene, h.groups⟩ := by
  refine hh.asRoot hp x fun r hr hroot a => ?_
  obtain ⟨hkeeps, hentities⟩ := hh.removeThis foreign hp hr hroot a rfl
  refine hh.less hkeeps (hentities.symm ▸ List.filter_sublist) fun b hb r' hr' hnumber => ?_
  have hb := (List.mem_filter.mp (hentities ▸ hb)).2
  exact hentities.symm ▸ List.mem_filter.mpr ⟨hr', by rw [hnumber]; exact hb⟩

theorem after_setVariant {commands : List String}
    (hcommands : ∀ c ∈ commands, ∀ x s, (interpretation S foreign).command c x s = s)
    (variant : String) (x : Context P) : p.IsOrderly S ⟨(interpretation S foreign).runBody
      (p.statements (setVariant variant commands)) x h.scene, h.groups⟩ := by
  refine hh.asRoot hp x fun r hr hroot a => ?_
  have hrun := hp.runBody_setVariant (S := S) hh.lawful.nodup hr hroot hcommands variant a
  rw [setVariant] at hrun
  rw [hrun]
  exact hh.less (p.keeps_remembered h.scene _) (List.Sublist.refl _) fun _ _ r' hr' _ => hr'

variable (foreign) in
/-- **Nobody is left** once all statues are removed. -/
theorem exists_removeAll (x : Context P) : ∃ us, (interpretation S foreign).runBody
    (p.statements removeAll) x h.scene = h.scene.without us ∧
      (h.scene.without us).entities = [] := by
  obtain ⟨us, hrun, hus⟩ := hp.exists_runBody_removeAll S foreign h.scene x
  refine ⟨us, hrun, List.filter_eq_nil_iff.mpr fun e he => ?_⟩
  have hgone : e.uid ∈ us := by
    rcases hh.member e he with hroot | hbone
    · exact hus e he hroot.model (.inl (hroot.type ▸ S.means_self _))
    · exact hus e he hbone.model (.inr hbone.type)
  simp [hgone]

theorem after_removeAll (x : Context P) : p.IsOrderly S ⟨(interpretation S foreign).runBody
    (p.statements removeAll) x h.scene, h.groups⟩ := by
  obtain ⟨us, hrun, hnil⟩ := hh.exists_removeAll foreign hp x
  rw [hrun]
  refine hh.less ((Keeps.refl p h.scene).without us) List.filter_sublist fun b hb => ?_
  rw [hnil] at hb
  exact absurd hb List.not_mem_nil

/-- **Every operation keeps statues apart.** -/
theorem after (hmodel : p.tags.model ≠ newTag) (hroot : p.tags.root ≠ newTag) {op : Operation P}
    (hop : op.IsFaithful p S foreign)
    (hcount : op.isSummon = true → h.groups.length + 1 < 2 ^ 31) :
    p.IsOrderly S (h.after p (interpretation S foreign) op) := by
  cases op with
  | summon commands x =>
    obtain ⟨r, bones, -, hsummoned⟩ :=
      hp.exists_summoned hmodel hroot hh.lawful hh.settled hop x
    exact hh.summoned hsummoned (hcount rfl)
  | removeThis x => exact hh.after_removeThis hp x
  | setVariant variant commands x => exact hh.after_setVariant hp hop variant x
  | removeAll x => exact hh.after_removeAll hp x

end Step

end IsOrderly

/-- **Operations keep statues apart**, in any order. -/
theorem isOrderly_run (hp : p.IsPlain) (hmodel : p.tags.model ≠ newTag)
    (hroot : p.tags.root ≠ newTag) {ops : List (Operation P)}
    (hops : ∀ op ∈ ops, op.IsFaithful p S foreign)
    (hcount : ops.countP (·.isSummon) < 2 ^ 31) :
    p.IsOrderly S (Course.run p (interpretation S foreign) ops) := by
  induction ops using List.reverseRecOn with
  | nil => exact .start
  | append_singleton ops op ih =>
    obtain ⟨hbefore, hop⟩ := List.forall_mem_append.mp hops
    rw [List.countP_append, List.countP_singleton] at hcount
    rw [Course.run_append]
    refine (ih hbefore (by omega)).after hp hmodel hroot (List.forall_mem_singleton.mp hop)
      fun hsummon => ?_
    rw [Course.length_groups_run]
    rwa [if_pos hsummon] at hcount

/-! ### What can be relied on -/

/-- **Statues are told apart** in a scene, given who was brought in together. -/
structure IsSafe (p : Correlation) (S : Space P) (foreign : Interpretation (Scene P) (Context P))
    (h : Course P) : Prop where
  /-- Nobody is new any more. -/
  settled : ∀ e ∈ h.scene.entities, newTag ∉ e.tags
  /-- A root has a number that was given out, and no other root has it. -/
  root : ∀ r ∈ h.scene.entities, p.tags.root ∈ r.tags → ∃ n, p.number h.scene r = some n ∧
    n ≤ p.lastId h.scene ∧ ∀ r' ∈ h.scene.entities, p.tags.root ∈ r'.tags →
      p.number h.scene r' = some n → r' = r
  /-- Nobody was brought in twice. -/
  apart : h.groups.Pairwise List.Disjoint
  /-- A bone has the number of the root that was brought in with it, which is there. -/
  bone : ∀ b ∈ h.scene.entities, p.tags.root ∉ b.tags → ∃ g ∈ h.groups, b.uid ∈ g ∧
    ∃ r ∈ h.scene.entities, r.uid ∈ g ∧ p.tags.root ∈ r.tags ∧
      p.number h.scene b = p.number h.scene r
  /-- A root that removes its statue removes those that were brought in with it, of which it is the
  only root. -/
  removed : ∀ r ∈ h.scene.entities, p.tags.root ∈ r.tags → ∃ g ∈ h.groups, r.uid ∈ g ∧
    (∀ e ∈ h.scene.entities, e.uid ∈ g → p.tags.root ∈ e.tags → e = r) ∧
    ∀ a, ((interpretation S foreign).runBody (p.statements removeThis) ⟨some r.uid, a⟩
      h.scene).entities = h.scene.entities.filter (·.uid ∉ g)
  /-- Anyone else removes nothing. -/
  others : ∀ x, (∀ r ∈ h.scene.entities, p.tags.root ∈ r.tags → x.executor ≠ some r.uid) →
    (interpretation S foreign).runBody (p.statements removeThis) x h.scene = h.scene
  /-- One more statue can be summoned, where this is done. -/
  summoned : ∀ commands, (∀ c ∈ commands, p.BringsBones S foreign c) → ∀ x, ∃ r bones,
    r.place = x.place ∧ p.Summoned S h.scene
      ((interpretation S foreign).runBody (p.statements (summon commands)) x h.scene) r bones
  /-- All statues can be removed. -/
  emptied : ∀ x,
    ((interpretation S foreign).runBody (p.statements removeAll) x h.scene).entities = []

theorem IsOrderly.isSafe (hp : p.IsPlain) (hmodel : p.tags.model ≠ newTag)
    (hroot : p.tags.root ≠ newTag) (hh : p.IsOrderly S h) : p.IsSafe S foreign h where
  settled := hh.settled
  root r hr hrroot := by
    obtain ⟨n, hn, hle⟩ := hh.numbered r hr
    exact ⟨n, hn, hle, fun r' hr' hroot' hn' =>
      hh.sole r' hr' r hr hroot' hrroot (hn'.trans hn.symm)⟩
  apart := hh.apart
  bone b hb hbone := by
    obtain ⟨g, hg, hmem⟩ := hh.grouped b hb
    obtain ⟨r, hr, hrroot, hnumber, -⟩ := hh.rooted b hb hbone
    exact ⟨g, hg, hmem, r, hr, (hh.together g hg b hb r hr hmem).mpr hnumber, hrroot,
      hnumber.symm⟩
  removed r hr hrroot := by
    obtain ⟨g, hg, hmem⟩ := hh.grouped r hr
    refine ⟨g, hg, hmem, fun e he heg heroot => ?_, fun a => ?_⟩
    · exact hh.sole e he r hr heroot hrroot ((hh.together g hg r hr e he hmem).mp heg)
    · rw [(hh.removeThis foreign hp hr hrroot a rfl).2]
      refine List.filter_congr fun e he => decide_eq_decide.mpr (not_congr ?_)
      exact (hh.together g hg r hr e he hmem).symm
  others x hx := hp.runBody_asRoot_of_not_root hx _ _
  summoned commands hcommands x :=
    hp.exists_summoned hmodel hroot hh.lawful hh.settled hcommands x
  emptied x := by
    obtain ⟨us, hrun, hnil⟩ := hh.exists_removeAll foreign hp x
    rw [hrun, hnil]

/-- **Statues are told apart** in every scene that operations lead to from an empty one, in any
order and run as anyone, if the commands that come from elsewhere do what they are there for and no
more numbers are given out than a score can hold. -/
theorem isSafe_run (hp : p.IsPlain) (hmodel : p.tags.model ≠ newTag)
    (hroot : p.tags.root ≠ newTag) {ops : List (Operation P)}
    (hops : ∀ op ∈ ops, op.IsFaithful p S foreign)
    (hcount : ops.countP (·.isSummon) < 2 ^ 31) :
    p.IsSafe S foreign (Course.run p (interpretation S foreign) ops) :=
  (isOrderly_run hp hmodel hroot hops hcount).isSafe hp hmodel hroot

end Correlation

/-! ### Two statues side by side -/

/-- Places on a line, and the group of the types that bones are made of. -/
def Space.line : Space ℤ where
  near d a b := !d.lt (.ofInt |a - b|)
  means name type := decide (name = type) ||
    (decide (name = "#statue:bone_entities") && decide (type = "minecraft:armor_stand"))
  near_self a := by
    rw [sub_self, abs_zero]
    decide +kernel
  means_self type := by simp

/-- How the statues of that rig are found which has another model at night. -/
def Correlation.twofold : Correlation :=
  Build.correlation {} { Rig.twofold with touched := ["b"] }

/-- A command that summons a bone of such a statue where its root is. -/
def Correlation.twofoldSummon : String :=
  "summon minecraft:armor_stand ^ ^ ^ \x7bTags:[aj.statue,aj.statue.bone,new]\x7d"

/-- What that command does. -/
def Correlation.twofoldMeaning : Interpretation (Scene ℤ) (Context ℤ) where
  command text x s :=
    if text = twofoldSummon then
      s.add "minecraft:armor_stand" x.place ["aj.statue", "aj.statue.bone", newTag]
    else s
  head _ x _ := [x]
  cond _ x _ := [x]

theorem Correlation.bringsBones_twofoldSummon :
    twofold.BringsBones Space.line twofoldMeaning twofoldSummon := by
  intro s r _ _
  have hread : Command.read? twofoldSummon = none := by
    have hwords : words twofoldSummon = ["summon", "minecraft:armor_stand", "^", "^", "^",
        "\x7bTags:[aj.statue,aj.statue.bone,new]\x7d"] :=
      words_eq (by simp) (by simp) rfl
    rw [Command.read?, hwords]
    rfl
  refine ⟨_, _, ?_, s.brings_add "minecraft:armor_stand" r.place
    ["aj.statue", "aj.statue.bone", newTag], rfl, List.forall_mem_singleton.mpr ?_⟩
  · rw [command_of_not_read hread]
    simp only [twofoldMeaning, if_true]
  · have hroot : twofold.tags.root ∉ ["aj.statue", "aj.statue.bone", newTag] := by decide
    have hmodel : twofold.tags.model ∈ ["aj.statue", "aj.statue.bone", newTag] := by decide
    have hlt : twofold.distance.lt (.ofInt 0) = false := by decide +kernel
    have hnear : Space.line.near twofold.distance r.place r.place = true := by
      simp only [Space.line, sub_self, abs_zero, hlt, Bool.not_false]
    exact ⟨rfl, hroot, hmodel, by simp, hnear⟩

/-- Two statues of that rig are summoned side by side, one of them is changed and removed, and a
third is summoned. -/
theorem Correlation.isSafe_run_twofold :
    let ops : List (Operation ℤ) := [.summon [twofoldSummon] ⟨none, 0⟩,
      .summon [twofoldSummon] ⟨none, 1⟩,
      .setVariant "night" (Build.modelCommands { Rig.twofold with touched := ["b"] }
        twofold.tags ⟨"night", [("b", 2)]⟩) ⟨some 0, 7⟩,
      .removeThis ⟨some 0, 7⟩, .summon [twofoldSummon] ⟨some 3, 1⟩]
    let h := Course.run twofold (interpretation Space.line twofoldMeaning) ops
    twofold.IsPlain ∧ twofold.tags.model ≠ newTag ∧ twofold.tags.root ≠ newTag ∧
      (∀ op ∈ ops, op.IsFaithful twofold Space.line twofoldMeaning) ∧
      ops.countP (·.isSummon) < 2 ^ 31 ∧
      twofold.IsSafe Space.line twofoldMeaning h ∧
      ∃ r ∈ h.scene.entities, twofold.tags.root ∈ r.tags := by
  intro ops h
  have hp : twofold.IsPlain :=
    Build.isPlain_correlation (Settings.accepted_of_validate Settings.validate_default) _
  have hmodel : twofold.tags.model ≠ newTag := by decide
  have hroot : twofold.tags.root ≠ newTag := by decide
  have hsummon : ∀ c ∈ [twofoldSummon], twofold.BringsBones Space.line twofoldMeaning c :=
    List.forall_mem_singleton.mpr bringsBones_twofoldSummon
  have hchange : (Operation.setVariant "night" (Build.modelCommands
      { Rig.twofold with touched := ["b"] } twofold.tags ⟨"night", [("b", 2)]⟩)
        (⟨some 0, 7⟩ : Context ℤ)).IsFaithful twofold Space.line twofoldMeaning :=
    isFaithful_modelCommands (List.forall_mem_singleton.mpr (List.all_eq_true.mp (by decide))) _ _
  have hops : ∀ op ∈ ops, op.IsFaithful twofold Space.line twofoldMeaning := by
    simp only [ops, List.forall_mem_cons]
    exact ⟨hsummon, hsummon, hchange, trivial, hsummon, by simp⟩
  have hcount : ops.countP (·.isSummon) < 2 ^ 31 := by decide
  refine ⟨hp, hmodel, hroot, hops, hcount, isSafe_run hp hmodel hroot hops hcount, ?_⟩
  -- the root that was summoned at last is there
  obtain ⟨hbefore, -⟩ := List.forall_mem_append.mp
    (show ∀ op ∈ ops.dropLast ++ [ops.getLast (by simp [ops])], _ from hops)
  have hh := isOrderly_run hp hmodel hroot hbefore (by decide)
  obtain ⟨r, bones, -, hsummoned⟩ := hp.exists_summoned hmodel hroot hh.lawful hh.settled hsummon
    (⟨some 3, 1⟩ : Context ℤ)
  exact ⟨r, hsummoned.brings.mem_new List.mem_cons_self, hsummoned.root.root⟩

end Statuary
