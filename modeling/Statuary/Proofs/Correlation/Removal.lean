import Statuary.Proofs.Correlation.Effect

/-!
# Removing and changing statues

The functions that remove statues or change how they look are run here. None of them touches the
number of an entity or the number given out last (`Statuary.Correlation.Keeps`): what they write is
the remembered number, which nobody reads afterwards, so **all that counts is who is killed**.

A root that removes its statue kills the bones near by that have its number, and itself
(`Statuary.Correlation.IsPlain.exists_runBody_removeThis`). That these are the bones of this root
and no others is not to be seen here: it holds in the scenes that can be reached.
-/

namespace Statuary

variable {P : Type}

namespace Correlation

/-! ### What is kept -/

/-- The numbers of entities, the number given out last and the next identity are kept. -/
structure Keeps (p : Correlation) (s s' : Scene P) : Prop where
  next : s'.next = s.next
  number : ∀ e, p.number s' e = p.number s e
  lastId : p.lastId s' = p.lastId s

variable {p : Correlation} {S : Space P} {foreign : Interpretation (Scene P) (Context P)}
  {s : Scene P}

theorem Keeps.refl (p : Correlation) (s : Scene P) : p.Keeps s s :=
  ⟨rfl, fun _ => rfl, rfl⟩

/-- The remembered number is no number of an entity, nor the one given out last. -/
theorem keeps_remembered (p : Correlation) (s : Scene P) (n : ℤ) :
    p.Keeps s (s.setScore (.name thisHolder) p.objectives.id n) where
  next := rfl
  number e := Scene.scores_setScore_of_ne (by simp)
  lastId := Scene.value_setScore_of_ne (by simp [lastIdHolder, thisHolder])

theorem Keeps.without {s' : Scene P} (h : p.Keeps s s') (us : List ℕ) :
    p.Keeps s (s'.without us) :=
  ⟨h.next, h.number, h.lastId⟩

/-! ### Who is killed -/

theorem mem_select_nearBones {x : Context P} {e : Entity P} :
    e ∈ p.nearBones.select S x s ↔ e ∈ s.entities ∧ S.means p.types.bone e.type = true ∧
      p.tags.model ∈ e.tags ∧ S.near p.distance x.place e.place = true := by
  simp [nearBones, Target.select, limited, Filter.passes]

/-- Entities are told apart by their identities. -/
theorem mem_uids_iff {es : List (Entity P)} (hs : s.uids.Nodup) (hes : ∀ e ∈ es, e ∈ s.entities)
    {e : Entity P} (he : e ∈ s.entities) : e.uid ∈ es.map (·.uid) ↔ e ∈ es := by
  refine ⟨fun hmem => ?_, fun hmem => List.mem_map_of_mem hmem⟩
  obtain ⟨f, hf, huid⟩ := List.mem_map.mp hmem
  exact List.inj_on_of_nodup_map hs (hes f hf) he huid ▸ hf

namespace IsPlain

variable (hp : p.IsPlain)

include hp

variable (S foreign) in
/-- **A root that removes its statue** kills the bones near by that have its number, and itself. -/
theorem exists_runBody_removeThis (hs : s.uids.Nodup) {r : Entity P} (hr : r ∈ s.entities)
    (hroot : p.tags.root ∈ r.tags) {n : ℤ} (hn : p.number s r = some n) (a : P) : ∃ us,
    (interpretation S foreign).runBody (p.statements removeThis) ⟨some r.uid, a⟩ s =
      (s.setScore (.name thisHolder) p.objectives.id n).without (us ++ [r.uid]) ∧
    ∀ e ∈ s.entities, e.uid ∈ us ↔ S.means p.types.bone e.type = true ∧ p.tags.model ∈ e.tags ∧
      S.near p.distance r.place e.place = true ∧ p.number s e = some n := by
  set s' := s.setScore (.name thisHolder) p.objectives.id n with hs'
  refine ⟨((p.nearBones.select S ⟨some r.uid, r.place⟩ s').filter (p.remembers s')).map (·.uid),
    ?_, fun e he => ?_⟩
  · rw [removeThis, hp.runBody_asRoot hs hr hroot]
    change (interpretation S foreign).runBody [.line (p.orderText .rememberId),
      .line (p.orderText .killRemembered), .line (p.orderText .killSelf)] _ s = _
    rw [Interpretation.runBody_line, Interpretation.runBody_line, Interpretation.runBody_line,
      Interpretation.runBody_nil, hp.command_rememberId hs hr, hn, Option.getD_some, ← hs',
      hp.command_killRemembered (s := s') hs, command_killSelf, Scene.without_without]
  · have hthis : p.remembers s' e = decide (p.number s e = some n) := by
      have hnumber : p.number s' e = p.number s e := (p.keeps_remembered s n).number e
      rw [remembers, hnumber, Scene.scores_setScore_self]
      cases p.number s e <;> simp
    rw [mem_uids_iff (s := s') hs (fun f hf => Target.mem_of_mem_select (List.mem_of_mem_filter hf))
      he, List.mem_filter, mem_select_nearBones, hthis, decide_eq_true_eq]
    constructor
    · rintro ⟨⟨-, htype, hmodel, hnear⟩, hnumber⟩
      exact ⟨htype, hmodel, hnear, hnumber⟩
    · rintro ⟨htype, hmodel, hnear, hnumber⟩
      exact ⟨⟨he, htype, hmodel, hnear⟩, hnumber⟩

variable (S foreign) in
/-- **Roots and bones are killed**, all of them. -/
theorem exists_runBody_removeAll (s : Scene P) (x : Context P) : ∃ us,
    (interpretation S foreign).runBody (p.statements removeAll) x s = s.without us ∧
    ∀ e ∈ s.entities, p.tags.model ∈ e.tags →
      (S.means p.types.root e.type = true ∨ S.means p.types.bone e.type = true) → e.uid ∈ us := by
  have hmem : ∀ {s : Scene P} {type : String} {e : Entity P}, e ∈ s.entities →
      p.tags.model ∈ e.tags → S.means type e.type = true →
      e.uid ∈ ((Target.all [.type type, .tag p.tags.model]).select S x s).map (·.uid) := by
    intro s type e he hmodel htype
    refine List.mem_map_of_mem ?_
    simp [Target.select, limited, Filter.passes, he, hmodel, htype]
  set us := (p.roots.select S x s).map (·.uid) with hus
  refine ⟨us ++ (p.bones.select S x (s.without us)).map (·.uid), ?_, fun e he hmodel htype => ?_⟩
  · change (interpretation S foreign).runBody [.line (p.orderText .killRoots),
      .line (p.orderText .killBones)] x s = _
    rw [Interpretation.runBody_line, Interpretation.runBody_line, Interpretation.runBody_nil,
      hp.command_killRoots, hp.command_killBones, Scene.without_without]
  · by_cases hgone : e.uid ∈ us
    · exact List.mem_append_left _ hgone
    · rcases htype with hroot | hbone
      · exact absurd (hmem he hmodel hroot) hgone
      · refine List.mem_append_right us (hmem (List.mem_filter.mpr ⟨he, ?_⟩) hmodel hbone)
        exact decide_eq_true hgone

/-- **A root that changes how its statue looks** changes nothing else. -/
theorem runBody_setVariant (hs : s.uids.Nodup) {r : Entity P} (hr : r ∈ s.entities)
    (hroot : p.tags.root ∈ r.tags) {commands : List String}
    (hcommands : ∀ c ∈ commands, ∀ x s, (interpretation S foreign).command c x s = s)
    (variant : String) (a : P) :
    (interpretation S foreign).runBody (p.statements (setVariant variant commands))
      ⟨some r.uid, a⟩ s =
        s.setScore (.name thisHolder) p.objectives.id ((p.number s r).getD 0) := by
  have hlines : ∀ x s, (interpretation S foreign).runBody
      (p.statements (commands.map fun c => .order (.run c))) x s = s := by
    intro x s
    rw [statements_run, Interpretation.runBody_lines]
    induction commands generalizing s with
    | nil => rfl
    | cons c commands ih =>
      obtain ⟨hc, hrest⟩ := List.forall_mem_cons.mp hcommands
      rw [List.foldl_cons, hc]
      exact ih hrest s
  have hfold : ∀ (xs : List (Context P)) s, xs.foldl (fun s y => (interpretation S foreign).runBody
      (p.statements (commands.map fun c => .order (.run c))) y s) s = s := by
    intro xs s
    induction xs generalizing s with
    | nil => rfl
    | cons x xs ih => rw [List.foldl_cons, hlines, ih]
  rw [setVariant, hp.runBody_asRoot hs hr hroot]
  change (interpretation S foreign).runBody [.line (p.orderText .rememberId),
    .block p.rememberedHead _] _ s = _
  rw [Interpretation.runBody_line, Interpretation.runBody_block, Interpretation.runBody_nil, hfold,
    hp.command_rememberId hs hr]

end IsPlain

end Correlation

end Statuary
