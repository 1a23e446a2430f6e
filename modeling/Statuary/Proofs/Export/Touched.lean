import Statuary.Proofs.Export.Switching

/-!
# The bones that are reset

A function that changes the variant of a statue writes models only to the bones that the rig lists
as changed: a bone is given its model exactly if it is listed (`Statuary.Build.exists_isReset_iff`).
A bone that a variant changes and that is not listed keeps the model of the variant before.

So what such a function is worth depends on the list. A rig that came without one has a complete
list, and all bones that variants change are reset; a list that came with the rig may leave bones
out, and the rig is accepted all the same (`Statuary.normalize_covers_iff`).
-/

namespace Statuary

open Tag

/-! ### Bones that are reset -/

/-- **A function resets a bone to a variant**: whichever model the bone has before, it has that of
the variant afterwards. -/
def Bone.IsReset (b : Bone) (tags : Tags) (v : Variant) (body : List Statement) : Prop :=
  ∀ models : String → Option Tag, (models b.name).isSome →
    switched tags body models b.name = some (scalar (intDigits (b.modelIn v).toInt))

namespace Build

variable {s : Settings} {r : Rig} {summons : List (Bone × String)} {v : Variant} {b : Bone}

/-- The function that changes the variant resets the bones that are listed, and no others. -/
theorem isReset_iff (hs : s.Accepted) (hbones : (r.bones.map (·.name)).Nodup)
    (htokens : ∀ b ∈ r.bones, IsToken b.name) (v : Variant) (hb : b ∈ r.exportedBones) :
    b.IsReset s.tags v ((correlation s r).statements
      (Correlation.setVariant v.name (modelCommands r s.tags v))) ↔ r.isTouched b.name = true := by
  have hswitched := fun models => switched_modelCommands hs hbones htokens v models hb
  refine ⟨fun hreset => ?_, fun htouched models hsome => ?_⟩
  · by_contra hkept
    -- a bone that is kept has two models afterwards, for two that it may have before
    have hmodel : ∀ n : Int32,
        some (Tag.int n) = some (scalar (intDigits (b.modelIn v).toInt)) := by
      intro n
      rw [← hreset (fun _ => some (.int n)) rfl, hswitched, if_neg hkept]
    have hsame : (0 : Int32) = 1 :=
      Tag.int.inj (Option.some.inj ((hmodel 0).trans (hmodel 1).symm))
    exact absurd hsame (by decide)
  · obtain ⟨model, hmodel⟩ := Option.isSome_iff_exists.mp hsome
    rw [hswitched, if_pos htouched, hmodel]
    rfl

theorem function?_set_variant_eq_none (htouches : r.touchesAny = false)
    (hslash : '/' ∉ v.name.toList) :
    (statue s r summons).function? ("set_variant/" ++ v.name) = none := by
  have hdir : (statue s r summons).items.find? (·.name = "set_variant") = none := by
    rw [statue, if_neg (htouches ▸ Bool.false_ne_true)]
    rfl
  have hpath : "set_variant/" ++ v.name = "set_variant" ++ "/" ++ v.name := rfl
  rw [hpath]
  exact Program.function?_eq_none hdir (by decide) hslash

/-- **Which bones a program can reset**: those that are listed. -/
theorem exists_isReset_iff (hs : s.Accepted) (hbones : (r.bones.map (·.name)).Nodup)
    (htokens : ∀ b ∈ r.bones, IsToken b.name) (hv : v ∈ r.variants)
    (hnodup : (r.variants.map (·.name)).Nodup) (hslash : '/' ∉ v.name.toList)
    (hb : b ∈ r.exportedBones) :
    (∃ body, (statue s r summons).function? ("set_variant/" ++ v.name) = some body ∧
      b.IsReset s.tags v body) ↔ b.name ∈ r.touched := by
  rw [← Rig.isTouched_iff]
  cases htouches : r.touchesAny with
  | true =>
    rw [function?_set_variant htouches hv hnodup hslash, ← isReset_iff hs hbones htokens v hb]
    exact ⟨fun ⟨_, hbody, hreset⟩ => Option.some.inj hbody ▸ hreset, fun hreset => ⟨_, rfl, hreset⟩⟩
  | false =>
    rw [function?_set_variant_eq_none htouches hslash, isTouched_of_touchesAny htouches hb]
    exact iff_of_false (fun ⟨_, hbody, _⟩ => Option.some_ne_none _ hbody.symm) Bool.false_ne_true

end Build

/-- **Which changed bones are listed, and what for.** In an accepted rig only bones are listed; the
list is complete exactly if the rig came without one or with a complete one. And in the program of
the rig, the function that changes the variant resets exactly the bones of the statue that are
listed. -/
theorem normalize_covers_iff {rig r : Rig} (h : rig.normalize = .ok r) :
    (∀ bone ∈ r.touched, bone ∈ r.boneNames) ∧
    (r.Covers ↔ rig.touched = [] ∨ rig.Covers) ∧
    ∀ s out, s.validate = .ok () → build s (some rig) = .ok out →
      ∀ v ∈ r.variants, ∀ b ∈ r.exportedBones,
        (∃ body, out.program.function? ("set_variant/" ++ v.name) = some body ∧
          b.IsReset s.tags v body) ↔ b.name ∈ r.touched := by
  refine ⟨Rig.mem_boneNames_of_touched h, Rig.covers_iff h, fun s out hs hout v hv b hb => ?_⟩
  obtain ⟨r', summons, hr, -, hprogram⟩ := exists_statue_of_build hout
  obtain rfl := Except.ok.inj (h.symm.trans hr)
  obtain ⟨hbones, htokens⟩ := Rig.bones_of_normalize h
  obtain ⟨hvariants, hslash⟩ := Rig.variants_of_normalize h
  rw [hprogram]
  exact Build.exists_isReset_iff (Settings.accepted_of_validate hs) hbones htokens hv hvariants
    (hslash v hv).2 hb

/-- The second bone of a rig whose list leaves it out. -/
def Bone.leftOut : Bone := ⟨"arm", .zero, .zero, true, "", 1⟩

/-- A rig that lists one of the two bones that its second variant changes. -/
def Rig.listsOne : Rig where
  bones := [⟨"head", .zero, .zero, true, "", 1⟩, .leftOut]
  maxDistance := .zero false
  variants := [⟨"day", []⟩, ⟨"night", [("head", 2), ("arm", 3)]⟩]
  touched := ["head"]

/-- The rig is accepted as it is, and the function that changes the variant leaves the second bone
in the model that it has. -/
theorem normalize_covers_iff_listsOne :
    Rig.listsOne.normalize = .ok .listsOne ∧ ¬ Rig.listsOne.Covers ∧
      Rig.listsOne.Changes Bone.leftOut.name ∧
      ∃ out, build {} (some Rig.listsOne) = .ok out ∧
        ¬ ∃ body, out.program.function? ("set_variant/" ++ "night") = some body ∧
          Bone.leftOut.IsReset ({} : Settings).tags ⟨"night", [("head", 2), ("arm", 3)]⟩ body := by
  have hnormal : Rig.listsOne.normalize = .ok .listsOne := rfl
  have hchanges : Rig.listsOne.Changes Bone.leftOut.name :=
    ⟨_, List.mem_cons_of_mem _ (List.mem_singleton_self _), ("arm", 3),
      List.mem_cons_of_mem _ (List.mem_singleton_self _), rfl⟩
  have hleft : Bone.leftOut.name ∉ Rig.listsOne.touched := by decide
  have hexported : ∀ b ∈ Rig.listsOne.exportedBones,
      ∃ payload, b.payload ({} : Settings).tags {} = .ok payload := by
    refine List.forall_mem_cons.mpr ⟨?_, List.forall_mem_singleton.mpr ?_⟩ <;>
      exact ⟨_, Bone.payload_eq_ok.mpr ⟨[], [], [], rfl, rfl, rfl, rfl⟩⟩
  obtain ⟨out, hout⟩ := exists_build (s := {}) hnormal hexported
  obtain ⟨-, -, hreset⟩ := normalize_covers_iff hnormal
  refine ⟨hnormal, fun hcovers => hleft (hcovers _ hchanges), hchanges, out, hout, ?_⟩
  rw [hreset {} out Settings.validate_default hout _ (List.mem_cons_of_mem _
    (List.mem_singleton_self _)) _ (List.mem_cons_of_mem _ (List.mem_singleton_self _))]
  exact hleft

end Statuary
