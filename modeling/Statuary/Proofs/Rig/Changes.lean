import Statuary.Export.Build
import Statuary.Proofs.Rig.Valid

/-!
# The bones that variants change

A rig lists the bones that its variants change, and an export looks at the list alone. The list has
two sources. Where a rig comes without one, it is gathered from the variants
(`Statuary.Rig.overridden`), and then it has every bone that some variant changes. A list that comes
with the rig is taken as it is, once all its names are those of bones; what it leaves out is not
looked for. So an accepted rig has a complete list exactly if it came with none or with a complete
one (`Statuary.Rig.covers_iff`).

What a complete list is good for is that a bone which is not on it has one model in all variants
(`Statuary.Rig.Covers.modelIn_eq`).
-/

namespace Statuary

namespace Rig

variable {rig r : Rig} {bone : String}

/-- Some variant has a model of its own for the bone. -/
def Changes (r : Rig) (bone : String) : Prop :=
  ∃ v ∈ r.variants, ∃ m ∈ v.models, m.1 = bone

/-- **The list of changed bones is complete**: it has every bone that some variant changes. -/
def Covers (r : Rig) : Prop :=
  ∀ bone, r.Changes bone → bone ∈ r.touched

theorem isTouched_iff : r.isTouched bone = true ↔ bone ∈ r.touched :=
  List.contains_iff_mem

/-- The list that is gathered has the changed bones. -/
theorem mem_overridden_iff : bone ∈ r.overridden ↔ bone ∈ r.boneNames ∧ r.Changes bone := by
  simp only [overridden, List.mem_filter, List.any_eq_true, beq_iff_eq, Changes]

/-- The variant that a rig without variants is given changes nothing. -/
theorem changes_complete_iff : r.complete.Changes bone ↔ r.Changes bone := by
  rcases r.variants_complete with ⟨hnone, hvariants⟩ | ⟨-, hvariants⟩
  · rw [Changes, Changes, hvariants, hnone]
    constructor
    · rintro ⟨v, hv, m, hm, -⟩
      rw [List.mem_singleton.mp hv] at hm
      cases hm
    · rintro ⟨v, hv, -⟩
      cases hv
  · rw [Changes, Changes, hvariants]

/-- The variants of an accepted rig change only its bones. -/
theorem mem_boneNames_of_changes (h : rig.normalize = .ok r) (hbone : r.Changes bone) :
    bone ∈ r.boneNames := by
  obtain ⟨v, hv, m, hm, rfl⟩ := hbone
  exact ((isValid_of_normalize h).variants v hv).known m hm

/-- Only bones are listed, wherever the list comes from. -/
theorem mem_boneNames_of_touched (h : rig.normalize = .ok r) :
    ∀ bone ∈ r.touched, bone ∈ r.boneNames :=
  (isValid_of_normalize h).touched

/-- **Which accepted rigs have complete lists**: those that came without one, and those that came
with a complete one. -/
theorem covers_iff (h : rig.normalize = .ok r) : r.Covers ↔ rig.touched = [] ∨ rig.Covers := by
  obtain ⟨-, rfl⟩ := normalize_eq_ok_iff.mp h
  rcases rig.touched_complete with ⟨hnone, htouched⟩ | ⟨hgiven, htouched⟩
  · refine iff_of_true (fun bone hbone => ?_) (.inl hnone)
    have hmem : bone ∈ rig.complete.boneNames := mem_boneNames_of_changes h hbone
    rw [htouched, mem_overridden_iff]
    exact ⟨hmem, changes_complete_iff.mp hbone⟩
  · simp only [Covers, changes_complete_iff, htouched, hgiven, false_or]

/-- **A bone that is not listed has one model in all variants**, if the list is complete. -/
theorem Covers.modelIn_eq (h : r.Covers) {b : Bone} (hkept : r.isTouched b.name = false)
    {v : Variant} (hv : v ∈ r.variants) : b.modelIn v = b.model := by
  have hunchanged : ¬ r.Changes b.name := fun hchanges => by
    rw [isTouched_iff.mpr (h _ hchanges)] at hkept
    cases hkept
  have hlookup : v.models.lookup b.name = none := by
    refine List.lookup_eq_none_iff.mpr fun m hm => bne_iff_ne.mpr fun he => ?_
    exact hunchanged ⟨v, hv, m, hm, he.symm⟩
  rw [Bone.modelIn, hlookup]
  rfl

end Rig

end Statuary
