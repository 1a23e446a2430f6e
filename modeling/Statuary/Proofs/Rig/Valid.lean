import Mathlib.Data.List.Nodup
import Mathlib.Tactic.SplitIfs
import Statuary.Rig.Basic

/-!
# Which rigs are accepted

The bones and the variants of a rig are looked at one after another, each with the names that came
before it, and the first fault is the answer. That there is none can be said of the rig as a whole
(`Statuary.Rig.IsValid`): each bone and each variant is good by itself, their names are distinct,
and only bones that are there are changed. So **a rig is accepted exactly if it is valid**, and the
result is the rig with what it left out filled in (`Statuary.Rig.normalize_eq_ok_iff`).

The names that came before are carried through by one fact for bones and variants alike: the names
of a list are new if the first one is, and the others are new once that one has been seen
(`Statuary.fresh_cons_iff`).
-/

namespace Statuary

/-! ### Names that have not been seen -/

section Fresh

variable {α : Type} {name : α → String} {seen : List String} {x : α} {xs : List α}

/-- **The names of a list are new**: they are distinct, and none of them was seen before. -/
def Fresh (name : α → String) (seen : List String) (xs : List α) : Prop :=
  (xs.map name).Nodup ∧ ∀ x ∈ xs, name x ∉ seen

theorem fresh_nil_iff : Fresh name [] xs ↔ (xs.map name).Nodup :=
  and_iff_left fun _ _ => List.not_mem_nil

theorem fresh_cons_iff :
    Fresh name seen (x :: xs) ↔ name x ∉ seen ∧ Fresh name (name x :: seen) xs := by
  rw [Fresh, Fresh, List.map_cons, List.nodup_cons, List.forall_mem_cons]
  constructor
  · rintro ⟨⟨hnew, hnodup⟩, hx, hxs⟩
    refine ⟨hx, hnodup, fun y hy hmem => ?_⟩
    rcases List.mem_cons.mp hmem with hsame | hseen
    · exact hnew (hsame ▸ List.mem_map_of_mem hy)
    · exact hxs y hy hseen
  · rintro ⟨hx, hnodup, hxs⟩
    refine ⟨⟨fun hmem => ?_, hnodup⟩, hx, fun y hy hseen => hxs y hy (List.mem_cons_of_mem _ hseen)⟩
    obtain ⟨y, hy, hsame⟩ := List.mem_map.mp hmem
    exact hxs y hy (hsame ▸ List.mem_cons_self ..)

end Fresh

/-! ### Valid rigs -/

/-- **A bone is valid**: it has a name of characters for tags, and a pose with values. -/
structure Bone.IsValid (b : Bone) : Prop where
  name_ne_empty : b.name ≠ ""
  isTagChar : ∀ c ∈ b.name.toList, isTagChar c = true
  pos : b.pos.isFinite = true
  rot : b.rot.isFinite = true

/-- **A variant is valid** for bones of the given names: it has a name of characters for functions,
and it changes only these bones. -/
structure Variant.IsValid (bones : List String) (v : Variant) : Prop where
  name_ne_empty : v.name ≠ ""
  isFunctionChar : ∀ c ∈ v.name.toList, isFunctionChar c = true
  known : ∀ m ∈ v.models, m.1 ∈ bones

namespace Rig

/-- **A rig is valid.** -/
structure IsValid (r : Rig) : Prop where
  bones_ne_nil : r.bones ≠ []
  maxDistance : r.maxDistance.isFinite = true
  bones : ∀ b ∈ r.bones, b.IsValid
  nodup_bones : r.boneNames.Nodup
  variants : ∀ v ∈ r.variants, v.IsValid r.boneNames
  nodup_variants : (r.variants.map (·.name)).Nodup
  touched : ∀ bone ∈ r.touched, bone ∈ r.boneNames

variable {rig r : Rig} {b : Bone} {bs : List Bone} {v : Variant} {vs : List Variant}
  {seen names : List String}

theorem boneFault_cons_eq_none_iff : boneFault seen (b :: bs) = none ↔
    b.IsValid ∧ b.name ∉ seen ∧ boneFault (b.name :: seen) bs = none := by
  rw [boneFault]
  split_ifs with hempty hchars hseen hpose
  · exact iff_of_false nofun fun h => h.1.name_ne_empty hempty
  · refine iff_of_false nofun fun h => ?_
    rw [List.all_eq_true.mpr h.1.isTagChar] at hchars
    cases hchars
  · exact iff_of_false nofun fun h => h.2.1 (List.contains_iff_mem.mp hseen)
  · refine iff_of_false nofun fun h => ?_
    rw [h.1.pos, h.1.rot] at hpose
    cases hpose
  · have hvalid : b.IsValid := by
      simp only [Bool.not_eq_true', Bool.not_eq_false, List.all_eq_true, Bool.or_eq_true,
        not_or] at hchars hpose
      exact ⟨hempty, hchars, hpose.1, hpose.2⟩
    have hnew : b.name ∉ seen := fun hmem => hseen (List.contains_iff_mem.mpr hmem)
    exact ⟨fun h => ⟨hvalid, hnew, h⟩, fun h => h.2.2⟩

theorem variantFault_cons_eq_none_iff : variantFault names seen (v :: vs) = none ↔
    v.IsValid names ∧ v.name ∉ seen ∧ variantFault names (v.name :: seen) vs = none := by
  rw [variantFault]
  split_ifs with hempty hchars hseen
  · exact iff_of_false nofun fun h => h.1.name_ne_empty hempty
  · refine iff_of_false nofun fun h => ?_
    rw [List.all_eq_true.mpr h.1.isFunctionChar] at hchars
    cases hchars
  · exact iff_of_false nofun fun h => h.2.1 (List.contains_iff_mem.mp hseen)
  · have hnew : v.name ∉ seen := fun hmem => hseen (List.contains_iff_mem.mpr hmem)
    split
    · rename_i m hfind
      refine iff_of_false nofun fun h => ?_
      have hunknown : m.1 ∉ names := by simpa using List.find?_some hfind
      exact hunknown (h.1.known m (List.mem_of_find?_eq_some hfind))
    · rename_i hfind
      have hvalid : v.IsValid names := by
        refine ⟨hempty, ?_, fun m hm => ?_⟩
        · simpa using hchars
        · simpa using List.find?_eq_none.mp hfind m hm
      exact ⟨fun h => ⟨hvalid, hnew, h⟩, fun h => h.2.2⟩

/-- **When bones have no fault**: each is valid, and their names are new. -/
theorem boneFault_eq_none_iff :
    boneFault seen bs = none ↔ (∀ b ∈ bs, b.IsValid) ∧ Fresh (·.name) seen bs := by
  induction bs generalizing seen with
  | nil => simp [boneFault, Fresh]
  | cons b bs ih =>
    rw [boneFault_cons_eq_none_iff, ih, fresh_cons_iff, List.forall_mem_cons]
    tauto

/-- **When variants have no fault**: each is valid, and their names are new. -/
theorem variantFault_eq_none_iff : variantFault names seen vs = none ↔
    (∀ v ∈ vs, v.IsValid names) ∧ Fresh (·.name) seen vs := by
  induction vs generalizing seen with
  | nil => simp [variantFault, Fresh]
  | cons v vs ih =>
    rw [variantFault_cons_eq_none_iff, ih, fresh_cons_iff, List.forall_mem_cons]
    tauto

/-- **A rig has no fault exactly if it is valid.** -/
theorem fault_eq_none_iff : r.fault = none ↔ r.IsValid := by
  rw [fault]
  split_ifs with hbones hdistance
  · exact iff_of_false nofun fun h => h.bones_ne_nil (List.isEmpty_iff.mp hbones)
  · refine iff_of_false nofun fun h => ?_
    rw [h.maxDistance] at hdistance
    cases hdistance
  · have hbones : r.bones ≠ [] := fun hnil => hbones (List.isEmpty_iff.mpr hnil)
    have hdistance : r.maxDistance.isFinite = true := by simpa using hdistance
    have htouched : (r.touched.find? fun t => !r.boneNames.contains t) = none ↔
        ∀ bone ∈ r.touched, bone ∈ r.boneNames := by
      simp [List.find?_eq_none]
    simp only [Option.orElse_eq_orElse, Option.orElse_eq_or, Option.or_eq_none_iff,
      Option.map_eq_none_iff, boneFault_eq_none_iff, variantFault_eq_none_iff, fresh_nil_iff,
      htouched]
    constructor
    · rintro ⟨⟨hall, hnodup⟩, ⟨hvariants, hdistinct⟩, hknown⟩
      exact ⟨hbones, hdistance, hall, hnodup, hvariants, hdistinct, hknown⟩
    · intro h
      exact ⟨⟨h.bones, h.nodup_bones⟩, ⟨h.variants, h.nodup_variants⟩, h.touched⟩

/-- **A rig is accepted exactly if it is valid**, and then it is filled in. -/
theorem normalize_eq_ok_iff : rig.normalize = .ok r ↔ rig.IsValid ∧ r = rig.complete := by
  rw [← fault_eq_none_iff, normalize]
  cases rig.fault with
  | some e => exact iff_of_false nofun fun h => Option.some_ne_none e h.1
  | none => exact ⟨fun h => ⟨rfl, (Except.ok.inj h).symm⟩, fun h => congrArg Except.ok h.2.symm⟩

/-! ### What is filled in -/

/-- The variants of a rig in which the missing is filled in. -/
theorem variants_complete (r : Rig) :
    r.variants = [] ∧ r.complete.variants = [defaultVariant] ∨
      r.variants ≠ [] ∧ r.complete.variants = r.variants := by
  rw [complete]
  dsimp only
  by_cases hnone : r.variants = []
  · exact .inl ⟨hnone, if_pos (List.isEmpty_iff.mpr hnone)⟩
  · exact .inr ⟨hnone, if_neg fun hempty => hnone (List.isEmpty_iff.mp hempty)⟩

/-- The list of changed bones of a rig in which the missing is filled in. -/
theorem touched_complete (r : Rig) :
    r.touched = [] ∧ r.complete.touched = r.overridden ∨
      r.touched ≠ [] ∧ r.complete.touched = r.touched := by
  rw [complete]
  dsimp only
  by_cases hnone : r.touched = []
  · exact .inl ⟨hnone, if_pos (List.isEmpty_iff.mpr hnone)⟩
  · exact .inr ⟨hnone, if_neg fun hempty => hnone (List.isEmpty_iff.mp hempty)⟩

/-- The variant of a rig that has none is valid for any bones. -/
theorem isValid_defaultVariant (bones : List String) : defaultVariant.IsValid bones where
  name_ne_empty := by decide
  isFunctionChar := List.all_eq_true.mp (by decide)
  known := fun _ hm => absurd hm List.not_mem_nil

/-- **A valid rig stays valid** when it is filled in. -/
theorem IsValid.complete (h : rig.IsValid) : rig.complete.IsValid := by
  have hvariants : (∀ v ∈ rig.complete.variants, v.IsValid rig.boneNames) ∧
      (rig.complete.variants.map (·.name)).Nodup := by
    rcases rig.variants_complete with ⟨-, hvariants⟩ | ⟨-, hvariants⟩
    · rw [hvariants]
      exact ⟨List.forall_mem_singleton.mpr (isValid_defaultVariant _), List.nodup_singleton _⟩
    · rw [hvariants]
      exact ⟨h.variants, h.nodup_variants⟩
  have htouched : ∀ bone ∈ rig.complete.touched, bone ∈ rig.boneNames := by
    rcases rig.touched_complete with ⟨-, htouched⟩ | ⟨-, htouched⟩
    · rw [htouched]
      exact fun bone hbone => List.mem_of_mem_filter hbone
    · rw [htouched]
      exact h.touched
  exact ⟨h.bones_ne_nil, h.maxDistance, h.bones, h.nodup_bones, hvariants.1, hvariants.2, htouched⟩

/-- **An accepted rig is valid**, with all that was filled in. -/
theorem isValid_of_normalize (h : rig.normalize = .ok r) : r.IsValid := by
  obtain ⟨hvalid, rfl⟩ := normalize_eq_ok_iff.mp h
  exact hvalid.complete

/-- An accepted rig has a variant. -/
theorem variants_ne_nil (h : rig.normalize = .ok r) : r.variants ≠ [] := by
  obtain ⟨-, rfl⟩ := normalize_eq_ok_iff.mp h
  rcases rig.variants_complete with ⟨-, hvariants⟩ | ⟨hsome, hvariants⟩
  · rw [hvariants]
    exact List.cons_ne_nil _ _
  · rwa [hvariants]

end Rig

end Statuary
