import Mathlib.Data.List.Nodup
import Statuary.Proofs.Game.Command
import Statuary.Proofs.Program.Meaning

/-!
# What commands do

Commands that are read (`Statuary.Command.read?`) are run here in a **scene**
(`Statuary.Scene`): the entities in it, of which a type, a place and tags are kept, and the scores.

* A target selects entities of the scene (`Statuary.Target.select`), a clause selects contexts
  (`Statuary.Clause.contexts`), and a command does one thing in every context that its clauses
  select (`Statuary.Command.run`). **All contexts are selected before anything is done.**
* How far places are apart and what types a name stands for is for the space to say
  (`Statuary.Space`).
* A text that is not read, or that changes data which is not worn, means what others say it means
  (`Statuary.interpretation`).

An entity has an identity that is never given again, so the one that executes a command is told
apart from all others (`Statuary.Target.select_self`).
-/

namespace Statuary

/-! ### Scenes -/

/-- How far places are apart, and what types names stand for. -/
structure Space (P : Type) where
  /-- The second place is within a distance of the first. -/
  near : Double → P → P → Bool
  /-- A name stands for a type: it is the name of the type, or of a group with the type in it. -/
  means : String → String → Bool
  near_self : ∀ a, near (.ofInt 1) a a = true
  means_self : ∀ type, means type type = true

/-- What has scores. -/
inductive Holder where
  /-- An entity. -/
  | entity (uid : ℕ)
  /-- A name. -/
  | name (name : String)
  deriving DecidableEq

/-- An entity. -/
structure Entity (P : Type) where
  /-- The identity of the entity, which no other one has or has had. -/
  uid : ℕ
  /-- The type of the entity. -/
  type : String
  /-- Where the entity is. -/
  place : P
  /-- The tags of the entity. -/
  tags : List String

/-- The entities and the scores. -/
structure Scene (P : Type) where
  /-- The entities. -/
  entities : List (Entity P)
  /-- The identity of the next entity. -/
  next : ℕ
  /-- The scores under each objective; a score may be missing. -/
  scores : Holder → String → Option ℤ

/-- As whom and where a command is executed. -/
structure Context (P : Type) where
  /-- The executing entity, if there is one. -/
  executor : Option ℕ
  /-- The place. -/
  place : P

variable {P : Type}

/-- An entity without a tag. -/
def Entity.untag (e : Entity P) (tag : String) : Entity P :=
  { e with tags := e.tags.filter (· ≠ tag) }

namespace Scene

/-- Nothing is there, and no score is set. -/
def empty : Scene P :=
  ⟨[], 0, fun _ _ => none⟩

/-- The identities of the entities. -/
def uids (s : Scene P) : List ℕ :=
  s.entities.map (·.uid)

/-- The value of a score, which is `0` as long as it is missing. -/
def value (s : Scene P) (h : Holder) (objective : String) : ℤ :=
  (s.scores h objective).getD 0

/-- Sets a score. -/
def setScore (s : Scene P) (h : Holder) (objective : String) (n : ℤ) : Scene P :=
  { s with scores := fun k o => if k = h ∧ o = objective then some n else s.scores k o }

/-- Changes some entities. -/
def change (s : Scene P) (us : List ℕ) (f : Entity P → Entity P) : Scene P :=
  { s with entities := s.entities.map fun e => if e.uid ∈ us then f e else e }

/-- Takes entities out. -/
def without (s : Scene P) (us : List ℕ) : Scene P :=
  { s with entities := s.entities.filter (·.uid ∉ us) }

/-- Brings an entity in. -/
def add (s : Scene P) (type : String) (place : P) (tags : List String) : Scene P :=
  { s with entities := s.entities ++ [⟨s.next, type, place, tags⟩], next := s.next + 1 }

end Scene

theorem Entity.untag_untag (e : Entity P) (tag : String) :
    (e.untag tag).untag tag = e.untag tag := by
  simp [Entity.untag]

theorem Entity.mem_untag {e : Entity P} {tag t : String} :
    t ∈ (e.untag tag).tags ↔ t ∈ e.tags ∧ t ≠ tag := by
  simp [Entity.untag]

/-! ### Who is meant, and in which contexts -/

section Meaning

variable (S : Space P)

/-- An entity passes a filter. How many entities are meant is not asked of a single one. -/
def Filter.passes (origin : P) (e : Entity P) : Filter → Bool
  | .type name => S.means name e.type
  | .tag name => decide (name ∈ e.tags)
  | .within d => S.near d origin e.place
  | .limit _ => true

/-- No more entities than filters allow. -/
def limited (filters : List Filter) (es : List (Entity P)) : List (Entity P) :=
  filters.foldl (fun es f => match f with
    | .limit n => es.take n.toNat
    | _ => es) es

/-- **The entities that a target means.** -/
def Target.select (x : Context P) (s : Scene P) : Target → List (Entity P)
  | .self filters => limited filters (s.entities.filter fun e =>
      decide (x.executor = some e.uid) && filters.all (Filter.passes S x.place e))
  | .all filters => limited filters (s.entities.filter fun e =>
      filters.all (Filter.passes S x.place e))
  | .holder _ => []

/-- The holders of scores that a target means. -/
def Target.holders (t : Target) (x : Context P) (s : Scene P) : List Holder :=
  match t with
  | .holder name => [.name name]
  | t => (t.select S x s).map fun e => .entity e.uid

/-- Two targets have the same score; a missing one is no score. -/
def Target.agree (t : Target) (objective : String) (u : Target) (objective' : String)
    (x : Context P) (s : Scene P) : Bool :=
  (t.holders S x s).any fun h => (u.holders S x s).any fun k =>
    (s.scores h objective).isSome && decide (s.scores h objective = s.scores k objective')

/-- **The contexts that a clause selects.** -/
def Clause.contexts (s : Scene P) (x : Context P) : Clause → List (Context P)
  | .as t => (t.select S x s).map fun e => { x with executor := some e.uid }
  | .at t => (t.select S x s).map fun e => { x with place := e.place }
  | .positioned t => (t.select S x s).map fun e => { x with place := e.place }
  | .rotated => [x]
  | .ifEntity t => if (t.select S x s).isEmpty then [] else [x]
  | .ifScore t o u o' => if t.agree S o u o' x s then [x] else []

/-- The contexts that clauses select, one clause after another. -/
def contextsOf (s : Scene P) : List Clause → Context P → List (Context P)
  | [], x => [x]
  | c :: cs, x => (c.contexts S s x).flatMap (contextsOf s cs)

/-! ### What is done -/

/-- A number in the 32 bits of a score. -/
def toScore (n : ℤ) : ℤ :=
  (Int32.ofInt n).toInt

theorem toScore_of_le {n : ℤ} (hlow : -2 ^ 31 ≤ n) (hhigh : n < 2 ^ 31) : toScore n = n :=
  Int32.toInt_ofInt_of_le hlow hhigh

namespace Action

/-- A path leads to what an entity wears. -/
def isWorn (path : String) : Bool :=
  (dropLead? "ArmorItems[".toList path.toList).isSome

/-- It is known what is done to a scene. A scene keeps nothing of what entities wear; other data may
be anything, so what a change to it does is for others to say. -/
def isSeen : Action → Bool
  | .assign _ path _ => isWorn path
  | _ => true

/-- **Doing something** in a context. -/
def run (x : Context P) (s : Scene P) : Action → Scene P
  | .add t o n => (t.holders S x s).foldl (fun s' h =>
      s'.setScore h o (toScore (s'.value h o + n))) s
  | .copy t o u o' => (t.holders S x s).foldl (fun s' h =>
      (u.holders S x s).foldl (fun s' k => s'.setScore h o (s'.value k o')) s') s
  | .untag t tag => s.change ((t.select S x s).map (·.uid)) (·.untag tag)
  | .bring t => s.change ((t.select S x s).map (·.uid)) fun e => { e with place := x.place }
  | .kill t => s.without ((t.select S x s).map (·.uid))
  | .summon type tags => s.add type x.place tags
  | .assign .. => s
  | .tell => s

/-- What comes of it as a number: the scores that were set, or how many entities were meant. -/
def result (x : Context P) (before after : Scene P) : Action → ℤ
  | .add t o _ | .copy t o _ _ => ((t.holders S x before).map (after.value · o)).sum
  | .untag t _ | .bring t | .kill t | .assign t _ _ => (t.select S x before).length
  | .summon .. => 1
  | .tell => 0

end Action

/-- **Running a command.** -/
def Command.run (c : Command) (x : Context P) (s : Scene P) : Scene P :=
  (contextsOf S s c.clauses x).foldl (fun s' y =>
    let after := c.action.run S y s'
    match c.store with
    | none => after
    | some (t, o) =>
      (t.holders S x s).foldl (fun s'' h =>
        s''.setScore h o (c.action.result S y s' after)) after) s

/-- **The meaning of texts**, given what those mean that are not read. -/
def interpretation (foreign : Interpretation (Scene P) (Context P)) :
    Interpretation (Scene P) (Context P) where
  command text x s :=
    match (Command.read? text).filter (·.action.isSeen) with
    | some c => c.run S x s
    | none => foreign.command text x s
  head text x s :=
    match readHead text with
    | some cs => contextsOf S s cs x
    | none => foreign.head text x s
  cond text x s :=
    match readCondition text with
    | some cs => contextsOf S s cs x
    | none => foreign.cond text x s

end Meaning

/-! ### Running what is read -/

section Read

variable {S : Space P} {foreign : Interpretation (Scene P) (Context P)} {text : String}
  {x : Context P} {s : Scene P}

theorem command_of_read {c : Command} (h : Command.read? text = some c)
    (hseen : c.action.isSeen = true) :
    (interpretation S foreign).command text x s = c.run S x s := by
  simp only [interpretation, h, Option.filter_some, hseen, if_true]

theorem head_of_read {cs : List Clause} (h : readHead text = some cs) :
    (interpretation S foreign).head text x s = contextsOf S s cs x := by
  simp only [interpretation, h]

theorem cond_of_read {cs : List Clause} (h : readCondition text = some cs) :
    (interpretation S foreign).cond text x s = contextsOf S s cs x := by
  simp only [interpretation, h]

/-- A text that is not read means what others say. -/
theorem command_of_not_read (h : Command.read? text = none) :
    (interpretation S foreign).command text x s = foreign.command text x s := by
  simp only [interpretation, h, Option.filter_none]

end Read

/-! ### Scores and entities after a change -/

namespace Scene

variable {s : Scene P} {h k : Holder} {o o' : String} {n : ℤ} {us vs : List ℕ}

@[simp] theorem scores_setScore_self : (s.setScore h o n).scores h o = some n :=
  if_pos ⟨rfl, rfl⟩

theorem scores_setScore_of_ne (hne : k ≠ h) : (s.setScore h o n).scores k o' = s.scores k o' :=
  if_neg fun hk => hne hk.1

@[simp] theorem value_setScore_self : (s.setScore h o n).value h o = n := by
  rw [value, scores_setScore_self, Option.getD_some]

theorem value_setScore_of_ne (hne : k ≠ h) : (s.setScore h o n).value k o' = s.value k o' := by
  rw [value, scores_setScore_of_ne hne, value]

/-- A change that leaves identities alone leaves them alone in the scene. -/
theorem uids_change {f : Entity P → Entity P} (hf : ∀ e, (f e).uid = e.uid) :
    (s.change us f).uids = s.uids := by
  rw [uids, change, List.map_map]
  refine List.map_congr_left fun e _ => ?_
  rw [Function.comp_apply]
  split
  · exact hf e
  · rfl

/-- Making a change again changes nothing more, so it can be made to all entities at once. -/
theorem change_change (s : Scene P) (us vs : List ℕ) {f : Entity P → Entity P}
    (huid : ∀ e, (f e).uid = e.uid) (hf : ∀ e, f (f e) = f e) :
    (s.change us f).change vs f = s.change (us ++ vs) f := by
  rw [change, change, change, List.map_map]
  refine congrArg (fun es => { s with entities := es }) (List.map_congr_left fun e _ => ?_)
  by_cases hu : e.uid ∈ us
  · by_cases hv : e.uid ∈ vs
    · simp [hu, hv, huid, hf]
    · simp [hu, hv, huid]
  · simp [hu]

theorem without_nil : s.without [] = s := by
  rw [without, List.filter_eq_self.mpr fun e _ => by simp]

theorem without_without : (s.without us).without vs = s.without (us ++ vs) := by
  rw [without, without, without, List.filter_filter]
  refine congrArg (fun es => { s with entities := es }) (List.filter_congr fun e _ => ?_)
  simp [Bool.and_comm]

theorem change_congr {f : Entity P → Entity P} (h : ∀ e ∈ s.entities, e.uid ∈ us ↔ e.uid ∈ vs) :
    s.change us f = s.change vs f := by
  refine congrArg (fun es => { s with entities := es }) (List.map_congr_left fun e he => ?_)
  simp only [h e he]

theorem without_congr (h : ∀ e ∈ s.entities, e.uid ∈ us ↔ e.uid ∈ vs) :
    s.without us = s.without vs := by
  refine congrArg (fun es => { s with entities := es }) (List.filter_congr fun e he => ?_)
  simp only [h e he]

end Scene

/-! ### The executing entity -/

theorem limited_sublist (filters : List Filter) (es : List (Entity P)) :
    (limited filters es).Sublist es := by
  induction filters generalizing es with
  | nil => exact List.Sublist.refl es
  | cons f filters ih =>
    refine (ih _).trans ?_
    cases f with
    | limit n => exact List.take_sublist n.toNat es
    | type name => exact List.Sublist.refl es
    | tag name => exact List.Sublist.refl es
    | within d => exact List.Sublist.refl es

namespace Target

variable {S : Space P} {s : Scene P} {e : Entity P} {filters : List Filter}

/-- **Only what is there is selected.** -/
theorem mem_of_mem_select {t : Target} {x : Context P} (h : e ∈ t.select S x s) :
    e ∈ s.entities := by
  cases t with
  | self filters => exact List.mem_of_mem_filter ((limited_sublist filters _).mem h)
  | all filters => exact List.mem_of_mem_filter ((limited_sublist filters _).mem h)
  | holder name => exact absurd h List.not_mem_nil

/-- In a list without repeated identities one entity has an identity. -/
theorem filter_uid {es : List (Entity P)} (hes : (es.map (·.uid)).Nodup) (he : e ∈ es)
    (q : Entity P → Bool) : es.filter (fun f => decide (some e.uid = some f.uid) && q f) =
      if q e then [e] else [] := by
  obtain ⟨before, after, rfl⟩ := List.append_of_mem he
  rw [List.map_append, List.map_cons, List.nodup_append] at hes
  obtain ⟨-, hafter, hbefore⟩ := hes
  have hne : ∀ f ∈ before ++ after, ¬(some e.uid = some f.uid) := by
    intro f hf heq
    rcases List.mem_append.mp hf with hf | hf
    · exact hbefore f.uid (List.mem_map_of_mem hf) e.uid List.mem_cons_self
        (Option.some.inj heq).symm
    · exact (List.nodup_cons.mp hafter).1 (Option.some.inj heq ▸ List.mem_map_of_mem hf)
  have hnil : ∀ fs : List (Entity P), (∀ f ∈ fs, f ∈ before ++ after) →
      fs.filter (fun f => decide (some e.uid = some f.uid) && q f) = [] := by
    intro fs hfs
    refine List.filter_eq_nil_iff.mpr fun f hf => ?_
    simp [hne f (hfs f hf)]
  rw [List.filter_append, List.filter_cons, hnil before fun f => List.mem_append_left after,
    hnil after fun f => List.mem_append_right before]
  cases q e <;> simp

/-- **The executing entity is selected**, if it passes the filters. -/
theorem select_self (hs : s.uids.Nodup) (he : e ∈ s.entities) (a : P) :
    (self filters).select S ⟨some e.uid, a⟩ s =
      limited filters (if filters.all (Filter.passes S a e) then [e] else []) :=
  congrArg (limited filters) (filter_uid hs he _)

theorem select_self_nil (hs : s.uids.Nodup) (he : e ∈ s.entities) (a : P) :
    (self []).select S ⟨some e.uid, a⟩ s = [e] :=
  select_self hs he a

theorem holders_self (hs : s.uids.Nodup) (he : e ∈ s.entities) (a : P) :
    (self []).holders S ⟨some e.uid, a⟩ s = [.entity e.uid] :=
  congrArg (List.map fun f : Entity P => Holder.entity f.uid) (select_self_nil hs he a)

/-- Nobody else is selected, even if identities were repeated. -/
theorem mem_uids_select_self {u : ℕ} (a : P) (he : e ∈ s.entities) :
    e.uid ∈ ((self []).select S ⟨some u, a⟩ s).map (·.uid) ↔ e.uid ∈ [u] := by
  rw [List.mem_singleton, List.mem_map]
  constructor
  · rintro ⟨f, hf, hfe⟩
    have hu : some u = some f.uid := by
      have := (List.mem_filter.mp hf).2
      simpa using this
    exact hfe.symm.trans (Option.some.inj hu).symm
  · rintro rfl
    exact ⟨e, List.mem_filter.mpr ⟨he, by simp⟩, rfl⟩

end Target

namespace Action

variable {S : Space P} {s : Scene P}

theorem run_kill_self (u : ℕ) (a : P) :
    (Action.kill (.self [])).run S ⟨some u, a⟩ s = s.without [u] :=
  Scene.without_congr fun _ he => Target.mem_uids_select_self a he

theorem run_untag_self (u : ℕ) (a : P) (tag : String) :
    (Action.untag (.self []) tag).run S ⟨some u, a⟩ s = s.change [u] (·.untag tag) :=
  Scene.change_congr fun _ he => Target.mem_uids_select_self a he

/-- Entities are killed one after another as they are killed together. -/
theorem foldl_run_kill_self (xs : List (Context P)) {us : List ℕ}
    (hxs : xs.map (·.executor) = us.map some) :
    xs.foldl (fun s x => (Action.kill (.self [])).run S x s) s = s.without us := by
  induction xs generalizing s us with
  | nil =>
    obtain rfl := List.map_eq_nil_iff.mp hxs.symm
    exact Scene.without_nil.symm
  | cons x xs ih =>
    obtain ⟨u, us, rfl, hu, hus⟩ := List.map_eq_cons_iff.mp hxs.symm
    obtain ⟨executor, a⟩ := x
    obtain rfl : some u = executor := hu
    rw [List.foldl_cons, run_kill_self, ih hus.symm, Scene.without_without, List.singleton_append]

end Action

end Statuary
