import Statuary.Export.Build
import Statuary.Proofs.Correlation.Steps
import Statuary.Proofs.Rig.Valid
import Statuary.Proofs.Tag.Marker
import Statuary.Settings.Schema

/-!
# What accepted settings and rigs promise

An export starts only from settings and a rig that were accepted, and relies on what the checks went
through. Of the settings, that is gathered in `Statuary.Settings.Accepted`: every name that an
export writes without quotes is one that needs none, the bones have tags of their own, and the worn
item cannot be taken for the placeholder of a model (`Statuary.Settings.marked_rigItem`). Of a rig,
the bones and the variants have distinct names, made of characters for tags and for functions
(`Statuary.Rig.bones_of_normalize`, `Statuary.Rig.variants_of_normalize`).
-/

namespace Statuary

/-! ### Settings -/

/-- Of no violations, none are left when they are sorted. -/
theorem Schema.mergeSort_eq_nil {violations : List Violation} (h : violations = []) :
    violations.mergeSort before = [] := by
  rw [h, List.mergeSort_nil]

/-- The settings of a new project are accepted. -/
theorem Settings.validate_default : ({} : Settings).validate = .ok () := by
  have hcheck : Schema.check {} = [] := Schema.mergeSort_eq_nil (by decide)
  rw [validate]
  simp only [hcheck]
  rfl

/-- **What accepting settings goes through**, as far as an export relies on it. -/
structure Settings.Accepted (s : Settings) : Prop where
  rigItem : Schema.isResource s.rigItem = true
  modelTag : Schema.isTemplate s.modelTag = true
  rootTag : Schema.isTemplate s.rootTag = true
  allBonesTag : Schema.isTemplate s.allBonesTag = true
  boneTag : Schema.isTemplate s.boneTag = true
  rootEntityType : Schema.isResource s.rootEntityType = true
  internalObjective : Schema.isObjective s.internalObjective = true
  idObjective : Schema.isObjective s.idObjective = true
  /-- Bones are told apart. -/
  bone_ne : s.tags.bone "a" ≠ s.tags.bone "b"

/-- A rule without a violation holds. -/
theorem Schema.eq_true_of_rule {holds : Bool} {place path message : String}
    (h : rule holds place path message = []) : holds = true := by
  by_contra hholds
  rw [rule, if_neg hholds] at h
  cases h

/-- **What the schema asks of the texts in settings.** -/
structure Settings.FitsSchema (s : Settings) : Prop where
  projectName : s.projectName ≠ ""
  rigItem : Schema.isResource s.rigItem = true
  modelTag : Schema.isTemplate s.modelTag = true
  rootTag : Schema.isTemplate s.rootTag = true
  allBonesTag : Schema.isTemplate s.allBonesTag = true
  boneTag : Schema.isTemplate s.boneTag = true
  /-- The template of the tag of a bone has a place for its name. -/
  namesBone : Schema.namesBone s.boneTag = true
  rootEntityType : Schema.isResource s.rootEntityType = true
  internalObjective : Schema.isObjective s.internalObjective = true
  idObjective : Schema.isObjective s.idObjective = true

theorem Settings.fitsSchema_of_check {s : Settings} (h : Schema.check s = []) : s.FitsSchema := by
  -- the violations were sorted, and there is none
  have hsorted : List.mergeSort _ Schema.before = [] := h
  have hnone := List.eq_nil_of_length_eq_zero
    ((List.length_mergeSort _).symm.trans (congrArg List.length hsorted))
  simp only [List.append_eq_nil_iff, Schema.resource, Schema.template, Schema.pattern,
    Schema.objective, Schema.nonEmpty] at hnone
  obtain ⟨⟨⟨⟨⟨⟨⟨⟨⟨⟨⟨⟨hname, hitem⟩, -, hmodel⟩, -, hroot⟩, -, hall⟩, -, hbone⟩, hplace⟩, htype⟩,
    -⟩, hinternal⟩, hid⟩, -⟩, -⟩ := hnone
  exact ⟨of_decide_eq_true (Schema.eq_true_of_rule hname), Schema.eq_true_of_rule hitem,
    Schema.eq_true_of_rule hmodel, Schema.eq_true_of_rule hroot, Schema.eq_true_of_rule hall,
    Schema.eq_true_of_rule hbone, Schema.eq_true_of_rule hplace, Schema.eq_true_of_rule htype,
    Schema.eq_true_of_rule hinternal, Schema.eq_true_of_rule hid⟩

/-- Accepted settings fit the schema and tell two bones apart. -/
theorem Settings.check_of_validate {s : Settings} (h : s.validate = .ok ()) :
    Schema.check s = [] ∧ s.tags.bone "a" ≠ s.tags.bone "b" := by
  rw [Settings.validate] at h
  split at h
  · cases h
  split at h
  · cases h
  rename_i hcheck
  split at h
  · cases h
  split_ifs at h with hbones
  exact ⟨hcheck, hbones⟩

theorem Settings.accepted_of_validate {s : Settings} (h : s.validate = .ok ()) : s.Accepted := by
  obtain ⟨hcheck, hbones⟩ := Settings.check_of_validate h
  have fits := Settings.fitsSchema_of_check hcheck
  exact ⟨fits.rigItem, fits.modelTag, fits.rootTag, fits.allBonesTag, fits.boneTag,
    fits.rootEntityType, fits.internalObjective, fits.idObjective, hbones⟩

/-- The characters of a name with its namespace. -/
theorem Schema.mem_of_isResource {text : String} (h : Schema.isResource text = true) {c : Char}
    (hc : c ∈ text.toList) : isSpaceChar c = true ∨ c = ':' ∨ c = '/' := by
  rw [isResource, List.span_eq_takeWhile_dropWhile] at h
  simp only [Bool.and_eq_true, List.all_eq_true, Bool.or_eq_true, beq_iff_eq] at h
  obtain ⟨⟨⟨-, hspace⟩, -⟩, hname⟩ := h
  rw [← List.takeWhile_append_dropWhile (p := (· != ':')) (l := text.toList),
    List.mem_append] at hc
  rcases hc with hc | hc
  · exact .inl (hspace _ hc)
  · have hhead := List.head?_dropWhile_not (· != ':') text.toList
    -- what is left begins with the colon
    cases hdrop : text.toList.dropWhile (· != ':') with
    | nil =>
      rw [hdrop] at hc
      cases hc
    | cons d ds =>
      rw [hdrop] at hc hname hhead
      rcases List.mem_cons.mp hc with rfl | hc
      · exact .inr (.inl (by simpa using hhead))
      · exact (hname _ hc).elim .inl fun hslash => .inr (.inr hslash)

theorem isBareChar_of_isSpaceChar {c : Char} (h : Schema.isSpaceChar c = true) :
    isBareChar c = true := by
  simp only [Schema.isSpaceChar, isBareChar, Bool.or_eq_true] at h ⊢
  tauto

theorem isToken_of_isResource {text : String} (h : Schema.isResource text = true) :
    IsToken text := by
  intro c hc
  rcases Schema.mem_of_isResource h hc with hc | rfl | rfl
  · exact isTokenChar_of_isBareChar (isBareChar_of_isSpaceChar hc)
  · rfl
  · rfl

theorem isBareChar_of_isObjectiveChar {c : Char} (h : Schema.isObjectiveChar c = true) :
    isBareChar c = true := by
  rw [Schema.isObjectiveChar] at h
  delta Char.isAlphanum Char.isAlpha Char.isUpper Char.isLower at h
  simp only [Char.isDigit, isBareChar, Bool.or_eq_true, Bool.and_eq_true, decide_eq_true_eq,
    beq_iff_eq, Char.le_def] at h ⊢
  tauto

theorem isToken_of_isObjective {text : String} (h : Schema.isObjective text = true) :
    IsToken text := by
  intro c hc
  simp only [Schema.isObjective, Bool.and_eq_true, List.all_eq_true] at h
  exact isTokenChar_of_isBareChar (isBareChar_of_isObjectiveChar (h.2 c hc))

theorem isToken_of_isTemplate {text : String} (h : Schema.isTemplate text = true) :
    IsToken text := by
  intro c hc
  simp only [Schema.isTemplate, Bool.and_eq_true, List.all_eq_true, Bool.or_eq_true,
    beq_iff_eq] at h
  rcases h.2 c hc with hc | rfl
  · exact isTokenChar_of_isBareChar (isBareChar_of_isObjectiveChar hc)
  · rfl

namespace Settings

theorem marked_rigItem {s : Settings} (h : s.validate = .ok ()) : Tag.marked s.rigItem = false := by
  refine Tag.marked_of_notMem fun hc => ?_
  rcases Schema.mem_of_isResource (accepted_of_validate h).rigItem hc with hc | hc | hc <;>
    exact absurd hc (by decide)

namespace Accepted

variable {s : Settings} (h : s.Accepted)

include h

theorem isToken_model : IsToken s.tags.model :=
  isToken_format (isToken_of_isTemplate h.modelTag) (isToken_ofText _)

theorem isToken_root : IsToken s.tags.root :=
  isToken_format (isToken_of_isTemplate h.rootTag) (isToken_ofText _)

theorem isToken_allBones : IsToken s.tags.allBones :=
  isToken_format (isToken_of_isTemplate h.allBonesTag) (isToken_ofText _)

theorem isToken_bone {name : String} (hname : IsToken name) : IsToken (s.tags.bone name) :=
  isToken_format (isToken_format (isToken_of_isTemplate h.boneTag) (isToken_ofText _)) hname

end Accepted

end Settings

/-! ### Names in commands -/

/-- What is summoned for a bone, and what rides on it, is one of two entity types. -/
theorem EntityTypes.ofBoneType_members (project root boneType : String) :
    ∀ t ∈ (ofBoneType project root boneType).group,
      t ∈ ["minecraft:area_effect_cloud", "minecraft:armor_stand"] := by
  rw [ofBoneType]
  split_ifs <;> simp [group]

theorem isToken_of_mem_entityTypes {t : String}
    (h : t ∈ ["minecraft:area_effect_cloud", "minecraft:armor_stand"]) : IsToken t := by
  simp only [List.mem_cons, List.not_mem_nil, or_false] at h
  rcases h with rfl | rfl <;> exact List.all_eq_true.mp rfl

theorem EntityTypes.display_mem_group (t : EntityTypes) : t.display ∈ t.group := by
  rw [display, group]
  cases t.boneDisplay <;> simp

theorem Build.isPlain_correlation {s : Settings} (h : s.Accepted) (r : Rig) :
    (correlation s r).IsPlain where
  project := isToken_ofText _
  model := h.isToken_model
  root := h.isToken_root
  allBones := h.isToken_allBones
  boneType := by
    have hgroup : IsToken ("#" ++ s.project ++ ":" ++ boneGroup) :=
      ((IsToken.append (List.all_eq_true.mp rfl) (isToken_ofText _)).append
        (List.all_eq_true.mp rfl)).append (List.all_eq_true.mp rfl)
    change IsToken (EntityTypes.ofBoneType ..).bone
    rw [EntityTypes.ofBoneType]
    split_ifs <;> exact hgroup
  rootType := by
    change IsToken (EntityTypes.ofBoneType ..).root
    rw [EntityTypes.ofBoneType]
    split_ifs <;> exact isToken_of_isResource h.rootEntityType
  displayType := isToken_of_mem_entityTypes
    (EntityTypes.ofBoneType_members _ _ _ _ (EntityTypes.display_mem_group _))
  internal := isToken_of_isObjective h.internalObjective
  id := isToken_of_isObjective h.idObjective

/-! ### Rigs -/

namespace Rig

/-- **The bones of an accepted rig** have distinct names, which stand for themselves in commands. -/
theorem bones_of_normalize {rig r : Rig} (h : rig.normalize = .ok r) :
    (r.bones.map (·.name)).Nodup ∧ ∀ b ∈ r.bones, IsToken b.name := by
  have hvalid := isValid_of_normalize h
  refine ⟨hvalid.nodup_bones, fun b hb c hc => isTokenChar_of_isBareChar ?_⟩
  have htag := (hvalid.bones b hb).isTagChar c hc
  simp only [isTagChar, isBareChar, Bool.or_eq_true] at htag ⊢
  tauto

/-- The variants of an accepted rig have names. -/
theorem variant_ne_empty {rig r : Rig} (h : rig.normalize = .ok r) :
    ∀ v ∈ r.variants, v.name ≠ "" :=
  fun v hv => ((isValid_of_normalize h).variants v hv).name_ne_empty

/-- **The variants of an accepted rig** have distinct names, which stand for themselves in commands,
and each is one name in a path. -/
theorem variants_of_normalize {rig r : Rig} (h : rig.normalize = .ok r) :
    (r.variants.map (·.name)).Nodup ∧
      ∀ v ∈ r.variants, IsToken v.name ∧ '/' ∉ v.name.toList := by
  have hvalid := isValid_of_normalize h
  refine ⟨hvalid.nodup_variants, fun v hv => ⟨fun c hc => isTokenChar_of_isBareChar ?_, ?_⟩⟩
  · have hchar := (hvalid.variants v hv).isFunctionChar c hc
    simp only [isFunctionChar, isBareChar, Bool.or_eq_true] at hchar ⊢
    tauto
  · exact fun hslash => absurd ((hvalid.variants v hv).isFunctionChar _ hslash) (by decide)

end Rig

end Statuary
