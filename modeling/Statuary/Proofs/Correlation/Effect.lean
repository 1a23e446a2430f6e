import Statuary.Proofs.Correlation.Reading
import Statuary.Proofs.Game.Scene

/-!
# What the steps of a statue do

Every step of a statue is read (`Statuary.Correlation.IsPlain`), so what it does in a scene can be
said without its text: each order has **one equation** here, and each head and condition another for
the contexts it selects.

Most steps are made by an executing entity and ask for it again as `@s`. That is always this entity
alone, as long as no identity is in the scene twice.
-/

namespace Statuary

/-- Elements that are kept or left out one by one are filtered. -/
theorem flatMap_singleton_if {α β : Type} (q : α → Bool) (f : α → β) (l : List α) :
    l.flatMap (fun a => if q a then [f a] else []) = (l.filter q).map f := by
  induction l with
  | nil => rfl
  | cons a l ih =>
    rw [List.flatMap_cons, ih, List.filter_cons]
    split <;> rfl

namespace Interpretation

variable {W C : Type} (I : Interpretation W C)

theorem runBody_append (ss ts : List Statement) (x : C) (w : W) :
    I.runBody (ss ++ ts) x w = I.runBody ts x (I.runBody ss x w) := by
  induction ss generalizing w with
  | nil => rfl
  | cons s ss ih => rw [List.cons_append, runBody, ih, runBody]

/-- Lines are run one after another. -/
theorem runBody_lines (texts : List String) (x : C) (w : W) :
    I.runBody (texts.map .line) x w = texts.foldl (fun w text => I.command text x w) w := by
  induction texts generalizing w with
  | nil => rfl
  | cons text texts ih => rw [List.map_cons, runBody, ih, List.foldl_cons, runStatement]

theorem runBody_line (text : String) (ss : List Statement) (x : C) (w : W) :
    I.runBody (.line text :: ss) x w = I.runBody ss x (I.command text x w) := by
  rw [runBody, runStatement]

/-- A block runs its body in every context that its head selects. -/
theorem runBody_block (head : String) (body ss : List Statement) (x : C) (w : W) :
    I.runBody (.block head body :: ss) x w =
      I.runBody ss x ((I.head head x w).foldl (fun w y => I.runBody body y w) w) := by
  rw [runBody, runStatement]

theorem runBody_nil (x : C) (w : W) : I.runBody [] x w = w := by
  rw [runBody]

end Interpretation

namespace Correlation

variable {P : Type} (p : Correlation)

/-- The number given out last. -/
def lastId (s : Scene P) : ℤ :=
  s.value (.name lastIdHolder) p.objectives.internal

/-- The number of an entity. -/
def number (s : Scene P) (e : Entity P) : Option ℤ :=
  s.scores (.entity e.uid) p.objectives.id

/-- The number of an entity is the remembered one. -/
def remembers (s : Scene P) (e : Entity P) : Bool :=
  (p.number s e).isSome &&
    decide (p.number s e = s.scores (.name thisHolder) p.objectives.id)

variable {p} {S : Space P} {foreign : Interpretation (Scene P) (Context P)} {s : Scene P}
  {x : Context P} {e : Entity P}

/-! ### Orders that name nothing -/

theorem command_usage (function : String) :
    (interpretation S foreign).command (p.orderText (.usage function)) x s = s :=
  command_of_read (read_usage function) rfl

/-- An entity stays where it is if it is brought there. -/
theorem command_align (hs : s.uids.Nodup) (he : e ∈ s.entities) :
    (interpretation S foreign).command (p.orderText .align) ⟨some e.uid, e.place⟩ s = s := by
  rw [command_of_read read_align rfl]
  change s.change (((Target.self []).select S ⟨some e.uid, e.place⟩ s).map _) _ = s
  rw [Target.select_self_nil hs he]
  have hmap : s.entities.map (fun f => if f.uid ∈ [e].map (·.uid) then { f with place := e.place }
      else f) = s.entities := by
    refine (List.map_congr_left fun f hf => ?_).trans (List.map_id _)
    split_ifs with hmem
    · -- identities are not repeated, so it is the executing entity
      obtain rfl := List.inj_on_of_nodup_map hs hf he (List.mem_singleton.mp hmem)
      rfl
    · rfl
  exact congrArg (fun es => { s with entities := es }) hmap

theorem command_dropNew (u : ℕ) (a : P) :
    (interpretation S foreign).command (p.orderText .dropNew) ⟨some u, a⟩ s =
      s.change [u] (·.untag newTag) := by
  rw [command_of_read read_dropNew rfl]
  exact Action.run_untag_self u a newTag

theorem command_killSelf (u : ℕ) (a : P) :
    (interpretation S foreign).command (p.orderText .killSelf) ⟨some u, a⟩ s = s.without [u] := by
  rw [command_of_read read_killSelf rfl]
  exact Action.run_kill_self u a

/-! ### Each where it stands -/

/-- The contexts of all entities that a target means, each where it stands. -/
theorem contextsOf_positioned (hs : s.uids.Nodup) (t : Target) :
    contextsOf S s [.as t, .positioned (.self [])] x =
      (t.select S x s).map fun e => ⟨some e.uid, e.place⟩ := by
  change ((t.select S x s).map _).flatMap _ = _
  rw [List.flatMap_map, List.map_eq_flatMap]
  refine List.flatMap_congr fun e he => ?_
  change (((Target.self []).select S ⟨some e.uid, x.place⟩ s).map _).flatMap _ = _
  rw [Target.select_self_nil hs (Target.mem_of_mem_select he)]
  rfl

namespace IsPlain

variable (hp : p.IsPlain)

include hp

/-! ### Orders to nobody -/

theorem command_summonRoot : (interpretation S foreign).command (p.orderText .summonRoot) x s =
    s.add p.types.root x.place [p.tags.model, p.tags.root, newTag] :=
  command_of_read hp.read_summonRoot rfl

theorem command_killRoots : (interpretation S foreign).command (p.orderText .killRoots) x s =
    s.without ((p.roots.select S x s).map (·.uid)) :=
  command_of_read hp.read_killRoots rfl

theorem command_killBones : (interpretation S foreign).command (p.orderText .killBones) x s =
    s.without ((p.bones.select S x s).map (·.uid)) :=
  command_of_read hp.read_killBones rfl

/-! ### Orders to the executing entity -/

section Self

variable (hs : s.uids.Nodup) (he : e ∈ s.entities) (a : P)

include hs he

/-- **The next number is given out**, and the executing entity takes it. -/
theorem command_mintId :
    (interpretation S foreign).command (p.orderText .mintId) ⟨some e.uid, a⟩ s =
      (s.setScore (.name lastIdHolder) p.objectives.internal (toScore (p.lastId s + 1))).setScore
        (.entity e.uid) p.objectives.id (toScore (p.lastId s + 1)) := by
  rw [command_of_read hp.read_mintId rfl, Command.run]
  change ((Target.self []).holders S ⟨some e.uid, a⟩ s).foldl _ _ = _
  rw [Target.holders_self hs he]
  simp [Action.run, Action.result, Target.holders, lastId]

/-- The executing entity takes the number given out last. -/
theorem command_takeId :
    (interpretation S foreign).command (p.orderText .takeId) ⟨some e.uid, a⟩ s =
      s.setScore (.entity e.uid) p.objectives.id (p.lastId s) := by
  rw [command_of_read hp.read_takeId rfl]
  change ((Target.self []).holders S ⟨some e.uid, a⟩ s).foldl _ _ = _
  rw [Target.holders_self hs he]
  rfl

/-- The number of the executing entity is remembered. -/
theorem command_rememberId :
    (interpretation S foreign).command (p.orderText .rememberId) ⟨some e.uid, a⟩ s =
      s.setScore (.name thisHolder) p.objectives.id ((p.number s e).getD 0) := by
  rw [command_of_read hp.read_rememberId rfl]
  change ((Target.self []).holders S ⟨some e.uid, a⟩ s).foldl _ _ = _
  rw [Target.holders_self hs he]
  rfl

end Self

/-! ### Contexts -/

theorem head_newRoot (hs : s.uids.Nodup) :
    (interpretation S foreign).head p.newRootHead x s =
      (p.newRoot.select S x s).map fun e => ⟨some e.uid, e.place⟩ := by
  rw [head_of_read hp.read_newRootHead, ← contextsOf_positioned hs]
  rfl

theorem head_newBones (hs : s.uids.Nodup) :
    (interpretation S foreign).head p.newBonesHead x s =
      (p.newBones.select S x s).map fun e => ⟨some e.uid, e.place⟩ := by
  rw [head_of_read hp.read_newBonesHead, contextsOf_positioned hs]

/-- **Whose number is the remembered one is killed**, if it is a bone near by. -/
theorem command_killRemembered (hs : s.uids.Nodup) :
    (interpretation S foreign).command (p.orderText .killRemembered) x s =
      s.without (((p.nearBones.select S x s).filter (p.remembers s)).map (·.uid)) := by
  have hcontexts : contextsOf S s [.as p.nearBones, p.isRemembered] x =
      ((p.nearBones.select S x s).filter (p.remembers s)).map fun e =>
        { x with executor := some e.uid } := by
    change ((p.nearBones.select S x s).map _).flatMap _ = _
    rw [List.flatMap_map, ← flatMap_singleton_if]
    refine List.flatMap_congr fun e he => ?_
    have hagree : (Target.self []).agree S p.objectives.id (.holder thisHolder) p.objectives.id
        ⟨some e.uid, x.place⟩ s = p.remembers s e := by
      rw [Target.agree, Target.holders_self hs (Target.mem_of_mem_select he), Target.holders,
        List.any_cons, List.any_nil, Bool.or_false, List.any_cons, List.any_nil, Bool.or_false]
      rfl
    change List.flatMap _ (if (Target.self []).agree S _ _ _ ⟨some e.uid, x.place⟩ s then _
      else _) = _
    rw [hagree]
    split <;> rfl
  rw [command_of_read hp.read_killRemembered rfl, Command.run, hcontexts]
  exact Action.foldl_run_kill_self _ (by rw [List.map_map, List.map_map]; rfl)

/-- The condition holds for a root, and what follows is done where it stands. -/
theorem cond_root (hs : s.uids.Nodup) (he : e ∈ s.entities) (hroot : p.tags.root ∈ e.tags) (a : P) :
    (interpretation S foreign).cond p.rootCondition ⟨some e.uid, a⟩ s =
      [⟨some e.uid, e.place⟩] := by
  have hself : (Target.self [.tag p.tags.root]).select S ⟨some e.uid, a⟩ s = [e] := by
    rw [Target.select_self hs he]
    simp [Filter.passes, hroot, limited]
  rw [cond_of_read hp.read_rootCondition, contextsOf, Clause.contexts, hself,
    if_neg (by simp), List.flatMap_singleton, contextsOf, Clause.contexts,
    Target.select_self_nil hs he]
  rfl

/-- The condition fails for everything else. -/
theorem cond_of_not_root (h : ∀ r ∈ s.entities, p.tags.root ∈ r.tags → x.executor ≠ some r.uid) :
    (interpretation S foreign).cond p.rootCondition x s = [] := by
  have hself : (Target.self [.tag p.tags.root]).select S x s = [] := by
    refine List.eq_nil_iff_forall_not_mem.mpr fun r hr => ?_
    have hpass := (List.mem_filter.mp ((limited_sublist _ _).mem hr)).2
    simp only [Bool.and_eq_true, decide_eq_true_eq, List.all_cons, Filter.passes] at hpass
    exact h r (Target.mem_of_mem_select hr) hpass.2.1 hpass.1
  rw [cond_of_read hp.read_rootCondition, contextsOf, Clause.contexts, hself]
  rfl

/-! ### Functions for roots -/

/-- **A root runs the steps**, where it stands. -/
theorem runBody_asRoot (hs : s.uids.Nodup) (he : e ∈ s.entities) (hroot : p.tags.root ∈ e.tags)
    (function : String) (steps : List Step) (a : P) :
    (interpretation S foreign).runBody (p.statements (asRoot function steps)) ⟨some e.uid, a⟩ s =
      (interpretation S foreign).runBody (p.statements steps) ⟨some e.uid, e.place⟩ s := by
  change (interpretation S foreign).runBody [.branch p.rootCondition (p.statements steps) _] _ s = _
  rw [Interpretation.runBody, Interpretation.runBody, Interpretation.runStatement,
    hp.cond_root hs he hroot]
  rfl

/-- **Anyone else changes nothing.** -/
theorem runBody_asRoot_of_not_root
    (h : ∀ r ∈ s.entities, p.tags.root ∈ r.tags → x.executor ≠ some r.uid) (function : String)
    (steps : List Step) :
    (interpretation S foreign).runBody (p.statements (asRoot function steps)) x s = s := by
  change (interpretation S foreign).runBody [.branch p.rootCondition _
    [.line (p.orderText (.usage function))]] _ s = s
  rw [Interpretation.runBody, Interpretation.runBody, Interpretation.runStatement,
    hp.cond_of_not_root h]
  change (interpretation S foreign).runBody [.line (p.orderText (.usage function))] x s = s
  rw [Interpretation.runBody, Interpretation.runBody, Interpretation.runStatement, command_usage]

end IsPlain

end Correlation

end Statuary
