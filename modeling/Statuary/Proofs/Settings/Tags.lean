import Statuary.Proofs.Export.Accepted
import Statuary.Proofs.Naming.Percent

/-!
# What the schema promises of tags

The schema looks at the **templates** of tags, while an export uses the tags that are made of them.
Of three things that tags should be, the schema promises two:

* no tag is empty, and
* no two bones have one tag, whatever their names are. So the trials that are made after the schema
  find nothing (`Statuary.Settings.tags_of_schema`): where the template of a bone has a place for
  its name, filling in the project leaves that place there, and the tag shows the name.
* That a tag can stand **without quotes** in a selector it does not promise. A percent sign is a
  good character of a template, because it begins a place; but if it stands before something else it
  is left in the tag, and the game does not take it there. A tag is plain exactly if each percent
  sign of its template stands before the key that is filled in (`Statuary.isPlainTag_format_iff`).

For the tag of a bone, the template in the last statement is the one in which the project is filled
in already, and not the one of the settings: in `%%projectNameName` no percent sign stands before
`boneName`, but with the project `bone` that becomes `%boneName`.
-/

namespace Statuary

/-! ### Tags that are filled in -/

theorem Schema.percent_notMem_keys :
    '%' ∉ Template.projectKey.toList ∧ '%' ∉ Template.boneKey.toList := by
  decide

theorem Schema.ne_empty_of_isTemplate {text : String} (h : isTemplate text = true) : text ≠ "" := by
  rintro rfl
  exact absurd h (by decide)

/-- A template with the project filled in is not empty. -/
theorem Settings.format_ne_empty (s : Settings) {template : String}
    (h : Schema.isTemplate template = true) :
    Template.format template [(Template.projectKey, s.project)] ≠ "" :=
  Template.format_ne_empty (Schema.ne_empty_of_isTemplate h) (Identifier.ofText_ne_empty _)

/-- **The tag of a bone tells its name** if its template has a place for it, whatever the project
is. -/
theorem TagScheme.bone_injective (scheme : TagScheme) (h : Schema.namesBone scheme.bone = true)
    (project : String) : Function.Injective (scheme.resolve project).bone := by
  obtain ⟨hproject, hbone⟩ := Schema.percent_notMem_keys
  have hplace := Template.contains_format hproject hbone (fun _ => rfl) h project
  exact Template.format_injective (Template.exists_format_ne hbone hplace)

/-- **Tags that fit the schema** are not empty, and those of bones are told apart by their names. So
settings that fit it are accepted, unless the vertical offset has no value. -/
theorem Settings.tags_of_schema {s : Settings} (h : Schema.check s = []) :
    s.tags.model ≠ "" ∧ s.tags.root ≠ "" ∧ s.tags.allBones ≠ "" ∧
      (∀ name, name ≠ "" → s.tags.bone name ≠ "") ∧ Function.Injective s.tags.bone ∧
      s.emptyTag? = none ∧ s.tags.bone "a" ≠ s.tags.bone "b" ∧
      (s.validate = .ok () ↔ ∀ x, s.headOffset = some x → x.isFinite = true) := by
  have fits := fitsSchema_of_check h
  have hmodel : s.tags.model ≠ "" := s.format_ne_empty fits.modelTag
  have hroot : s.tags.root ≠ "" := s.format_ne_empty fits.rootTag
  have hall : s.tags.allBones ≠ "" := s.format_ne_empty fits.allBonesTag
  have hbone : ∀ name, name ≠ "" → s.tags.bone name ≠ "" := fun name hname =>
    Template.format_ne_empty (s.format_ne_empty fits.boneTag) hname
  have hinjective : Function.Injective s.tags.bone :=
    s.scheme.bone_injective fits.namesBone s.project
  have hempty : s.emptyTag? = none := by
    simp [emptyTag?, hmodel, hroot, hall, hbone "x" (by decide)]
  have hne : s.tags.bone "a" ≠ s.tags.bone "b" := hinjective.ne (by decide)
  refine ⟨hmodel, hroot, hall, hbone, hinjective, hempty, hne, ?_⟩
  rw [validate, h]
  simp only [hempty, if_neg hne]
  cases s.headOffset with
  | none => simp
  | some x => cases hx : x.isFinite <;> simp [hx, Option.filter]

/-- Settings with percent signs that begin no place, before and between those that do. -/
def Settings.stray : Settings where
  modelTag := "%%projectName%"
  boneTag := "%%projectName%boneName.%bone.%boneNames"

/-- There the project is filled in beside the places of the name, and the tags still tell the names
of bones. -/
theorem Settings.tags_of_schema_stray : Schema.check stray = [] ∧
    stray.tags.boneTemplate = "%statue%boneName.%bone.%boneNames" ∧
    Function.Injective stray.tags.bone ∧ stray.validate = .ok () := by
  have hcheck : Schema.check stray = [] := Schema.mergeSort_eq_nil (by decide)
  obtain ⟨-, -, -, -, hinjective, -, -, hvalid⟩ := tags_of_schema hcheck
  exact ⟨hcheck, by decide, hinjective, hvalid.mpr fun x hx => nomatch hx⟩

/-! ### Plain tags -/

/-- **A plain tag**: the game takes it without quotes in a selector. -/
def IsPlainTag (tag : String) : Prop :=
  tag ≠ "" ∧ ∀ c ∈ tag.toList, isTagChar c = true

theorem isTagChar_of_isBareChar {c : Char} (h : isBareChar c = true) : isTagChar c = true := by
  simp only [isBareChar, isTagChar, Bool.or_eq_true] at h ⊢
  tauto

theorem isObjectiveChar_of_isTagChar {c : Char} (h : isTagChar c = true) :
    Schema.isObjectiveChar c = true := by
  rw [Schema.isObjectiveChar]
  delta Char.isAlphanum Char.isAlpha Char.isUpper Char.isLower
  simp only [Char.isDigit, isTagChar, Bool.or_eq_true, Bool.and_eq_true, decide_eq_true_eq,
    beq_iff_eq, Char.le_def] at h ⊢
  tauto

theorem Identifier.isPlainTag_ofText (s : String) : IsPlainTag (ofText s) :=
  ⟨ofText_ne_empty s, fun _ hc =>
    isTagChar_of_isBareChar (isBareChar_of_isNameChar (isNameChar_of_mem_ofText hc))⟩

theorem IsPlainTag.percent_notMem {tag : String} (h : IsPlainTag tag) : '%' ∉ tag.toList :=
  fun hmem => absurd (h.2 _ hmem) (by decide)

section

variable {template key value : String} (ht : Schema.isTemplate template = true)
  (hv : IsPlainTag value)

include ht hv

/-- Beside the characters of plain tags, a filled template holds percent signs only. -/
theorem isTagChar_of_mem_format {c : Char}
    (hc : c ∈ (Template.format template [(key, value)]).toList) : isTagChar c = true ∨ c = '%' := by
  simp only [Schema.isTemplate, Bool.and_eq_true, List.all_eq_true, Bool.or_eq_true,
    beq_iff_eq] at ht
  rcases Template.mem_format hc with hc | hc
  · exact (ht.2 c hc).imp_left fun h => isTagChar_of_isBareChar (isBareChar_of_isObjectiveChar h)
  · exact .inl (hv.2 c hc)

/-- A template that is filled in is one. -/
theorem Schema.isTemplate_format : isTemplate (Template.format template [(key, value)]) = true := by
  have hne : Template.format template [(key, value)] ≠ "" :=
    Template.format_ne_empty (ne_empty_of_isTemplate ht) hv.1
  rw [isTemplate, Bool.and_eq_true, Bool.not_eq_true', List.isEmpty_eq_false_iff, List.all_eq_true]
  refine ⟨fun h => hne (String.toList_eq_nil_iff.mp h), fun c hc => ?_⟩
  rw [Bool.or_eq_true, beq_iff_eq]
  exact (isTagChar_of_mem_format ht hv hc).imp_left isObjectiveChar_of_isTagChar

/-- **Which tags are plain**: those of templates whose percent signs all stand before the key. -/
theorem isPlainTag_format_iff (hkey : '%' ∉ key.toList) :
    IsPlainTag (Template.format template [(key, value)]) ↔
      Template.bound key template.toList = true := by
  rw [← Template.percent_mem_format_iff hkey hv.percent_notMem]
  refine ⟨fun h => h.percent_notMem, fun hnone => ⟨?_, fun c hc => ?_⟩⟩
  · exact Template.format_ne_empty (Schema.ne_empty_of_isTemplate ht) hv.1
  · exact (isTagChar_of_mem_format ht hv hc).resolve_right fun he => hnone (he ▸ hc)

end

end Statuary
