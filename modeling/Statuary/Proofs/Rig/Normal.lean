import Mathlib.Data.List.Perm.Basic
import Statuary.Proofs.Rig.Changes

/-!
# The normal form of a rig

What an accepted rig left out is filled in, and all that it gave is kept
(`Statuary.Rig.Completes`): a rig without variants has one that changes nothing, and one without a
list of changed bones has those that some variant changes, each once and in the order of the bones.

Filling in comes to rest after one step (`Statuary.Rig.complete_complete`), although the second time
the list of changed bones is checked where the first time it was gathered: **a rig that is accepted
is accepted again, and nothing is changed then**. And the list is gathered by looking for each bone
in the variants, so it is the same in whatever order these list their models
(`Statuary.Rig.Reorders.overridden_eq`).
-/

namespace Statuary

/-! ### Variants that list their models in another order -/

/-- Two variants are the same but for the order of their models. -/
structure Variant.Reorders (v w : Variant) : Prop where
  name_eq : w.name = v.name
  perm : w.models.Perm v.models

section Reorders

variable {v w : Variant} {vs ws : List Variant} {bones : List String}

theorem Variant.Reorders.isValid (h : v.Reorders w) (hv : v.IsValid bones) : w.IsValid bones where
  name_ne_empty := h.name_eq ▸ hv.name_ne_empty
  isFunctionChar := h.name_eq ▸ hv.isFunctionChar
  known := fun m hm => hv.known m (h.perm.mem_iff.mp hm)

theorem forall_isValid_of_reorders (h : List.Forall₂ Variant.Reorders vs ws)
    (hvs : ∀ v ∈ vs, v.IsValid bones) : ∀ w ∈ ws, w.IsValid bones := by
  induction h with
  | nil => exact hvs
  | cons hvw _ ih =>
    obtain ⟨hv, hvs⟩ := List.forall_mem_cons.mp hvs
    exact List.forall_mem_cons.mpr ⟨hvw.isValid hv, ih hvs⟩

theorem names_eq_of_reorders (h : List.Forall₂ Variant.Reorders vs ws) :
    ws.map (·.name) = vs.map (·.name) := by
  induction h with
  | nil => rfl
  | cons hvw _ ih => rw [List.map_cons, List.map_cons, hvw.name_eq, ih]

/-- A bone is looked for in all models of all variants, in whatever order. -/
theorem any_models_of_reorders (h : List.Forall₂ Variant.Reorders vs ws) (bone : String) :
    (ws.any fun v => v.models.any (·.1 == bone)) = vs.any fun v => v.models.any (·.1 == bone) := by
  induction h with
  | nil => rfl
  | cons hvw _ ih => rw [List.any_cons, List.any_cons, hvw.perm.any_eq, ih]

end Reorders

/-! ### Filling in -/

namespace Rig

variable {rig rig' r : Rig} {bone : String}

/-- **Two rigs are the same but for the order** in which their variants list models. -/
structure Reorders (rig rig' : Rig) : Prop where
  bones_eq : rig'.bones = rig.bones
  maxDistance_eq : rig'.maxDistance = rig.maxDistance
  variants : List.Forall₂ Variant.Reorders rig.variants rig'.variants
  touched_eq : rig'.touched = rig.touched

/-- **A rig is the normal form of another**: all that was given is kept, and what was left out is
filled in. -/
structure Completes (rig r : Rig) : Prop where
  bones_eq : r.bones = rig.bones
  maxDistance_eq : r.maxDistance = rig.maxDistance
  variants_given : rig.variants ≠ [] → r.variants = rig.variants
  variants_missing : rig.variants = [] → r.variants = [⟨"default", []⟩]
  touched_given : rig.touched ≠ [] → r.touched = rig.touched
  /-- The list is in the order of the bones. -/
  touched_sublist : rig.touched = [] → r.touched.Sublist rig.boneNames
  touched_nodup : rig.touched = [] → r.touched.Nodup
  mem_touched_iff : rig.touched = [] → ∀ bone, bone ∈ r.touched ↔ rig.Changes bone

/-- The variant that is filled in changes no bone. -/
theorem overridden_complete (r : Rig) : r.complete.overridden = r.overridden := by
  rcases r.variants_complete with ⟨hnone, hvariants⟩ | ⟨-, hvariants⟩
  · rw [overridden, overridden, hvariants, hnone]
    rfl
  · rw [overridden, overridden, hvariants]
    rfl

/-- **A second filling in changes nothing.** -/
theorem complete_complete (r : Rig) : r.complete.complete = r.complete := by
  have hvariants : r.complete.complete.variants = r.complete.variants := by
    rcases r.complete.variants_complete with ⟨hnone, -⟩ | ⟨-, hvariants⟩
    · -- there is a variant after the first time
      rcases r.variants_complete with ⟨-, hvariants⟩ | ⟨hsome, hvariants⟩
      · rw [hvariants] at hnone
        cases hnone
      · exact absurd (hvariants.symm.trans hnone) hsome
    · exact hvariants
  have htouched : r.complete.complete.touched = r.complete.touched := by
    rcases r.complete.touched_complete with ⟨hnone, htouched⟩ | ⟨-, htouched⟩
    · -- the list may be empty both times, when no bone is changed
      rcases r.touched_complete with ⟨-, hgathered⟩ | ⟨hsome, hgiven⟩
      · rw [htouched, hgathered, overridden_complete]
      · exact absurd (hgiven.symm.trans hnone) hsome
    · exact htouched
  calc r.complete.complete
      = { r.complete with
          variants := r.complete.complete.variants
          touched := r.complete.complete.touched } := rfl
    _ = r.complete := by rw [hvariants, htouched]

theorem IsValid.completes (h : rig.IsValid) : rig.Completes rig.complete := by
  have hvariants := rig.variants_complete
  have htouched := rig.touched_complete
  have hgathered : rig.touched = [] → rig.complete.touched = rig.overridden := fun hnone =>
    htouched.elim And.right fun hgiven => absurd hnone hgiven.1
  refine ⟨rfl, rfl, fun hgiven => ?_, fun hnone => ?_, fun hgiven => ?_, fun hnone => ?_,
    fun hnone => ?_, fun hnone bone => ?_⟩
  · exact hvariants.elim (fun hnone => absurd hnone.1 hgiven) And.right
  · exact hvariants.elim And.right fun hgiven => absurd hnone hgiven.1
  · exact htouched.elim (fun hnone => absurd hnone.1 hgiven) And.right
  · rw [hgathered hnone]
    exact List.filter_sublist
  · rw [hgathered hnone]
    exact h.nodup_bones.filter _
  · rw [hgathered hnone, mem_overridden_iff]
    refine ⟨And.right, fun hchanges => ⟨?_, hchanges⟩⟩
    obtain ⟨v, hv, m, hm, rfl⟩ := hchanges
    exact (h.variants v hv).known m hm

/-! ### The order of models -/

namespace Reorders

theorem boneNames_eq (h : rig.Reorders rig') : rig'.boneNames = rig.boneNames := by
  rw [boneNames, boneNames, h.bones_eq]

/-- **The changed bones do not depend on the order of models.** -/
theorem overridden_eq (h : rig.Reorders rig') : rig'.overridden = rig.overridden := by
  rw [overridden, overridden, h.boneNames_eq]
  exact List.filter_congr fun bone _ => any_models_of_reorders h.variants bone

theorem isValid (h : rig.Reorders rig') (hvalid : rig.IsValid) : rig'.IsValid where
  bones_ne_nil := h.bones_eq ▸ hvalid.bones_ne_nil
  maxDistance := h.maxDistance_eq ▸ hvalid.maxDistance
  bones := h.bones_eq ▸ hvalid.bones
  nodup_bones := h.boneNames_eq ▸ hvalid.nodup_bones
  variants := h.boneNames_eq ▸ forall_isValid_of_reorders h.variants hvalid.variants
  nodup_variants := names_eq_of_reorders h.variants ▸ hvalid.nodup_variants
  touched := by
    rw [h.touched_eq, h.boneNames_eq]
    exact hvalid.touched

/-- **What is filled in does not depend on the order of models.** -/
theorem complete (h : rig.Reorders rig') : rig.complete.Reorders rig'.complete where
  bones_eq := h.bones_eq
  maxDistance_eq := h.maxDistance_eq
  variants := by
    have hvariants := h.variants
    rw [Rig.complete, Rig.complete]
    generalize rig.variants = vs, rig'.variants = ws at hvariants ⊢
    cases hvariants with
    | nil => exact List.forall₂_same.mpr fun v _ => ⟨rfl, .rfl⟩
    | cons hvw hvs => exact .cons hvw hvs
  touched_eq := by
    rw [Rig.complete, Rig.complete]
    dsimp only
    rw [h.touched_eq, h.overridden_eq]

end Reorders

/-! ### Accepting a rig -/

/-- **Which rigs are accepted, and as what**: exactly the valid ones, in their normal form. That is
accepted again as it is, and another order of models makes no other difference. -/
theorem normalize_normal (rig : Rig) : ((∃ r, rig.normalize = .ok r) ↔ rig.IsValid) ∧
    ∀ r, rig.normalize = .ok r → rig.Completes r ∧ r.normalize = .ok r ∧
      ∀ rig', rig.Reorders rig' → ∃ r', rig'.normalize = .ok r' ∧ r.Reorders r' := by
  refine ⟨⟨fun ⟨r, h⟩ => (normalize_eq_ok_iff.mp h).1, fun hvalid => ⟨rig.complete, ?_⟩⟩,
    fun r h => ?_⟩
  · exact normalize_eq_ok_iff.mpr ⟨hvalid, rfl⟩
  · obtain ⟨hvalid, rfl⟩ := normalize_eq_ok_iff.mp h
    refine ⟨hvalid.completes, normalize_eq_ok_iff.mpr ⟨hvalid.complete, ?_⟩, fun rig' hrig' => ?_⟩
    · exact rig.complete_complete.symm
    · exact ⟨_, normalize_eq_ok_iff.mpr ⟨hrig'.isValid hvalid, rfl⟩, hrig'.complete⟩

/-- A rig without a list, whose second variant names its bones in the order of `models`. -/
def withoutList (models : List (String × Int64)) : Rig where
  bones := [⟨"head", .zero, .zero, true, "", 1⟩, ⟨"arm", .zero, .zero, true, "", 1⟩,
    ⟨"leg", .zero, .zero, true, "", 1⟩]
  maxDistance := .zero false
  variants := [⟨"day", []⟩, ⟨"night", models⟩]
  touched := []

/-- The list of the rig is gathered in the order of its bones, whatever that of the models is. -/
theorem normalize_normal_withoutList : ∃ r r',
    (withoutList [("leg", 3), ("head", 2)]).normalize = .ok r ∧ r.touched = ["head", "leg"] ∧
      r.normalize = .ok r ∧
      (withoutList [("head", 2), ("leg", 3)]).normalize = .ok r' ∧ r'.touched = r.touched := by
  have hnormal : (withoutList [("leg", 3), ("head", 2)]).normalize =
      .ok { withoutList [("leg", 3), ("head", 2)] with touched := ["head", "leg"] } := by decide
  obtain ⟨-, hagain⟩ := normalize_normal (withoutList [("leg", 3), ("head", 2)])
  obtain ⟨-, hfixed, hreorder⟩ := hagain _ hnormal
  have hswapped : (withoutList [("leg", 3), ("head", 2)]).Reorders
      (withoutList [("head", 2), ("leg", 3)]) :=
    ⟨rfl, rfl, .cons ⟨rfl, .rfl⟩ (.cons ⟨rfl, .swap ..⟩ .nil), rfl⟩
  obtain ⟨r', hr', hsame⟩ := hreorder _ hswapped
  exact ⟨_, r', hnormal, rfl, hfixed, hr', hsame.touched_eq⟩

end Rig

end Statuary
