import Statuary.Export.Build
import Statuary.Proofs.Tag.Reading

/-!
# Bones that are not exported

A rig may hold bones that are no part of the statue: helpers of the animation, whose data need not
even be readable. They take part in what is checked when a rig is accepted, they may be changed by
variants and may be named among the changed bones. **None of it reaches the program.** Two accepted
rigs that look alike from their exported bones (`Statuary.Rig.LooksLike`) have one program, or fail
to have one for the same reason (`Statuary.build_eq_of_looksLike`).

What is compared are the look-ups of the exported bones among the overrides of a variant, not the
lists of overrides, so the order in which overrides are listed is of no account either.
-/

namespace Statuary

/-- **Variants that look alike** from the given bones: one name, and the same override for each of
the bones. -/
def Variant.LooksLike (bones : List Bone) (v w : Variant) : Prop :=
  v.name = w.name ∧ ∀ b ∈ bones, v.models.lookup b.name = w.models.lookup b.name

/-- **Rigs that look alike** from their exported bones. Nothing is said of the other bones: they may
differ in number, place, name, pose, data and model, and so may what is said about them. -/
structure Rig.LooksLike (r q : Rig) : Prop where
  /-- The same bones are exported, in the same order. -/
  exported : r.exportedBones = q.exportedBones
  /-- The same distance is reported. -/
  maxDistance : r.maxDistance = q.maxDistance
  /-- The same variants in the same order, as far as exported bones are concerned. -/
  variants : List.Forall₂ (Variant.LooksLike r.exportedBones) r.variants q.variants
  /-- The same exported bones are said to be changed. -/
  touched : ∀ b ∈ r.exportedBones, r.isTouched b.name = q.isTouched b.name

/-- Lists whose members go together are mapped alike by functions that agree on them. -/
theorem map_eq_of_forall₂ {α β γ : Type} {R : α → β → Prop} {f : α → γ} {g : β → γ} {xs : List α}
    {ys : List β} (h : List.Forall₂ R xs ys) (hfg : ∀ x y, R x y → f x = g y) :
    xs.map f = ys.map g := by
  rw [← List.forall₂_eq_eq_eq, List.forall₂_map_left_iff, List.forall₂_map_right_iff]
  exact h.imp hfg

namespace Variant.LooksLike

variable {bones : List Bone} {v w : Variant}

theorem modelIn (h : LooksLike bones v w) {b : Bone} (hb : b ∈ bones) :
    b.modelIn v = b.modelIn w := by
  rw [Bone.modelIn, Bone.modelIn, h.2 b hb]

theorem modelCommand (h : LooksLike bones v w) (tags : Tags) {b : Bone} (hb : b ∈ bones) :
    b.modelCommand tags v = b.modelCommand tags w := by
  unfold Bone.modelCommand
  rw [h.modelIn hb]

/-- Summon commands get the same models filled in. -/
theorem summonsIn (h : LooksLike bones v w) {summons : List (Bone × String)}
    (hsummons : ∀ p ∈ summons, p.1 ∈ bones) :
    Build.summonsIn summons v = Build.summonsIn summons w := by
  refine List.map_congr_left fun p hp => ?_
  obtain ⟨b, command⟩ := p
  change (substituteFirst command placeholder (toString (b.modelIn v).toInt)).1 = _
  rw [h.modelIn (hsummons _ hp)]

end Variant.LooksLike

namespace Rig

/-- Some exported bone is changed: a statement about the exported bones alone. -/
theorem touchesAny_eq (r : Rig) :
    r.touchesAny = r.exportedBones.any fun b => r.isTouched b.name :=
  List.any_filter.symm

namespace LooksLike

variable {r q : Rig} (h : r.LooksLike q)

include h

theorem touchesAny : r.touchesAny = q.touchesAny := by
  rw [touchesAny_eq, touchesAny_eq, ← h.exported, Bool.eq_iff_iff, List.any_eq_true,
    List.any_eq_true]
  exact exists_congr fun b => and_congr_right fun hb => by rw [h.touched b hb]

/-- Both rigs are searched within one distance. -/
theorem distanceBound (offset : Double) : r.distanceBound offset = q.distanceBound offset := by
  have hextent : r.extent offset = q.extent offset := by rw [extent, extent, h.exported]
  have hrequired : r.requiredDistance offset = q.requiredDistance offset := by
    rw [requiredDistance, requiredDistance, hextent]
  rw [Rig.distanceBound, Rig.distanceBound, hrequired, h.maxDistance]

theorem correlation (s : Settings) : Build.correlation s r = Build.correlation s q := by
  rw [Build.correlation, Build.correlation, h.distanceBound]

/-- The same bones get a command in variants that look alike. -/
theorem modelCommands (tags : Tags) {v w : Variant} (hvw : v.LooksLike r.exportedBones w) :
    Build.modelCommands r tags v = Build.modelCommands q tags w := by
  have hchanged : (r.exportedBones.filter fun b => r.isTouched b.name) =
      r.exportedBones.filter fun b => q.isTouched b.name :=
    List.filter_congr h.touched
  rw [Build.modelCommands, Build.modelCommands, ← h.exported, ← hchanged]
  exact List.map_congr_left fun b hb => hvw.modelCommand tags (List.mem_of_mem_filter hb)

/-- **One statue.** -/
theorem statue (s : Settings) {summons : List (Bone × String)}
    (hsummons : ∀ p ∈ summons, p.1 ∈ r.exportedBones) :
    Build.statue s r summons = Build.statue s q summons := by
  have hsummon : (r.variants.map fun v => Item.function v.name
        ((Build.correlation s q).statements (Correlation.summon (Build.summonsIn summons v)))) =
      q.variants.map fun v => Item.function v.name
        ((Build.correlation s q).statements (Correlation.summon (Build.summonsIn summons v))) :=
    map_eq_of_forall₂ h.variants fun v w hvw => by rw [hvw.1, hvw.summonsIn hsummons]
  have hchange : (r.variants.map fun v => Item.function v.name ((Build.correlation s q).statements
        (Correlation.setVariant v.name
          (Build.modelCommands r (Build.correlation s q).tags v)))) =
      q.variants.map fun v => Item.function v.name ((Build.correlation s q).statements
        (Correlation.setVariant v.name
          (Build.modelCommands q (Build.correlation s q).tags v))) :=
    map_eq_of_forall₂ h.variants fun v w hvw => by rw [hvw.1, h.modelCommands _ hvw]
  simp only [Build.statue, h.correlation s, h.touchesAny, hsummon, hchange]

/-- One program, or one reason why there is none. -/
theorem ofRig (s : Settings) : Build.ofRig s r = Build.ofRig s q := by
  rw [Build.ofRig, Build.ofRig, ← h.exported]
  cases hsummons : Build.summons s r.exportedBones with
  | error e =>
    change (.error e : Except PayloadError Build) = .error e
    rfl
  | ok summons =>
    -- a summon command stands with the bone it was made for
    have hmap : r.exportedBones.map id = summons.map (·.1) := by
      refine map_eq_of_forall₂ (forall₂_of_mapM hsummons) fun b p hp => ?_
      obtain ⟨payload, -, hp⟩ := bind_eq_ok.mp hp
      cases hp
      rfl
    have hbones : ∀ p ∈ summons, p.1 ∈ r.exportedBones := fun p hp => by
      rw [← List.map_id r.exportedBones, hmap]
      exact List.mem_map_of_mem hp
    simp only [ok_bind, h.statue s hbones, h.distanceBound, h.maxDistance,
      h.variants.length_eq]

end LooksLike

end Rig

/-- **Bones that are not exported do not influence the program**, and neither does the order in which
overrides are listed: accepted rigs that look alike from their exported bones have the same program,
with the same distance and the same counts, or the same error. -/
theorem build_eq_of_looksLike (s : Settings) {rig rig' r r' : Rig} (h : rig.normalize = .ok r)
    (h' : rig'.normalize = .ok r') (hlooks : r.LooksLike r') :
    build s (some rig) = build s (some rig') := by
  rw [build, build, h, h']
  change (Build.ofRig s r).mapError BuildError.badTag = (Build.ofRig s r').mapError BuildError.badTag
  rw [hlooks.ofRig]

/-- A rig of one bone, which has another model at night. -/
def Rig.lone : Rig where
  bones := [⟨"head", .zero, .zero, true, "", 1⟩]
  maxDistance := .zero false
  variants := [⟨"day", []⟩, ⟨"night", [("head", 2)]⟩]
  touched := []

/-- That rig with a helper in front, whose data cannot be read and which both variants change. -/
def Rig.attended : Rig where
  bones := [⟨"helper", .zero, .zero, false, "\x7b", 7⟩, ⟨"head", .zero, .zero, true, "", 1⟩]
  maxDistance := .zero false
  variants := [⟨"day", [("helper", 8)]⟩, ⟨"night", [("helper", 9), ("head", 2)]⟩]
  touched := []

/-- The helper is counted among the changed bones, and yet the program is that of the bone alone. -/
theorem build_eq_of_looksLike_attended :
    Rig.lone.normalize = .ok { Rig.lone with touched := ["head"] } ∧
      Rig.attended.normalize = .ok { Rig.attended with touched := ["helper", "head"] } ∧
      build {} (some Rig.lone) = build {} (some Rig.attended) := by
  refine ⟨rfl, rfl, build_eq_of_looksLike {} rfl rfl ⟨rfl, rfl, ?_, by decide⟩⟩
  exact .cons ⟨rfl, by decide⟩ (.cons ⟨rfl, by decide⟩ .nil)

end Statuary
