import Mathlib.Data.List.Infix
import Statuary.Proofs.Export.Merged
import Statuary.Proofs.Export.Switching
import Statuary.Proofs.Game.Scene

/-!
# Which bones have a tag of their own

Commands find a bone by its tag. So no other bone may have that tag, and neither may it be a tag
that an export gives to other entities as well: that of the rig, of the root, of all bones, and of
new entities, which is taken away when they are new no longer.

That **no two bones** have one tag is a matter of the template alone. A template in which the name
occurs shows the name, so it makes different tags of different names, and accepted settings have
such a template (`Statuary.Tags.bone_injective`). That the tag is none of the **shared ones** is not
looked after: with the bare name for a template, a bone named like the tag of new entities is
summoned with nothing of its own. But as the template shows the name, each of the four texts is the
tag of one name at most, and that name is a part of the text (`Statuary.Tags.nameOf?`). So whatever
the settings are, there are no more than four names that they take (`Statuary.Tags.taken`), and a
bone of an accepted rig stands apart exactly if its name is none of them
(`Statuary.Bone.standsApart_iff`).
-/

namespace Statuary

/-! ### Names that are taken -/

namespace Tags

/-- The tags that an export gives to entities whichever bone they are of. -/
def shared (t : Tags) : List String :=
  [t.model, t.root, t.allBones, newTag]

/-- The parts of a text. -/
def parts (text : String) : List String :=
  (text.toList.tails.flatMap List.inits).map String.ofList

/-- The name whose tag is a text. -/
def nameOf? (t : Tags) (text : String) : Option String :=
  (parts text).find? fun name => t.bone name == text

/-- **The names that have a shared tag.** -/
def taken (t : Tags) : List String :=
  t.shared.filterMap t.nameOf?

theorem mem_parts {name text : String} (h : name.toList <:+: text.toList) : name ∈ parts text := by
  obtain ⟨tail, hinit, htail⟩ := List.infix_iff_prefix_suffix.mp h
  refine List.mem_map.mpr ⟨name.toList, List.mem_flatMap.mpr ⟨tail, ?_, ?_⟩, String.ofList_toList⟩
  · exact (List.mem_tails _ _).mpr htail
  · exact (List.mem_inits _ _).mpr hinit

variable {t : Tags} {a b : String} (h : t.bone a ≠ t.bone b)

include h

theorem nameOf?_eq_some_iff {text name : String} :
    t.nameOf? text = some name ↔ t.bone name = text := by
  constructor
  · exact fun hname => by simpa using List.find?_some hname
  · rintro rfl
    have hmem := mem_parts (Template.infix_format ⟨a, b, h⟩ name)
    cases hfind : t.nameOf? (t.bone name) with
    | none =>
      have hnone := List.find?_eq_none.mp hfind name hmem
      exact absurd (beq_self_eq_true _) hnone
    | some found =>
      have hfound : t.bone found = t.bone name := by simpa using List.find?_some hfind
      rw [bone_injective h hfound]

/-- A name is taken exactly if its tag is a shared one. -/
theorem mem_taken_iff {name : String} : name ∈ t.taken ↔ t.bone name ∈ t.shared := by
  rw [taken, List.mem_filterMap]
  constructor
  · rintro ⟨text, htext, hname⟩
    rwa [(nameOf?_eq_some_iff h).mp hname]
  · exact fun hmem => ⟨_, hmem, (nameOf?_eq_some_iff h).mpr rfl⟩

end Tags

/-! ### Which tags entities carry -/

/-- The text that a tag is. -/
def Tag.text? : Tag → Option String
  | .string text => some text
  | _ => none

/-- The tags that an entity with this data carries. -/
def Tag.carried (t : Tag) : List String :=
  match t.child? (.key "Tags") with
  | some (.list _ items) => items.filterMap text?
  | _ => []

/-- The data of the entities that a bone is summoned as: what is summoned, and what wears the model
if that is not the same. -/
def EntityTypes.entities (types : EntityTypes) (t : Tag) : List Tag :=
  t :: (types.wearer t).toList

theorem Tag.carried_of_lookup {es : Entries} {texts : List String}
    (h : es.lookup "Tags" = some (.strings texts)) : (Tag.compound es).carried = texts := by
  have hchild : (Tag.compound es).child? (.key "Tags") = some (.strings texts) := h
  rw [carried, hchild]
  change (texts.map Tag.string).filterMap text? = texts
  rw [List.filterMap_map]
  exact List.filterMap_some

namespace Bone

/-- The bone brings a tag of its own. -/
def BringsTag (b : Bone) (tag : String) : Prop :=
  ∃ u texts, b.Brings u ∧ BringsTags u texts ∧ tag ∈ texts

/-- **A bone stands apart**: its tag tells its entities from all others that an export makes. -/
structure StandsApart (b : Bone) (s : Settings) (r : Rig) : Prop where
  /-- Its tag is none of those that other entities have as well. -/
  own : s.tags.bone b.name ∉ s.tags.shared
  /-- No other bone has its tag. -/
  alone : ∀ c ∈ r.bones, c ≠ b → s.tags.bone c.name ≠ s.tags.bone b.name
  /-- The commands that change its model select its tag. -/
  selects : ∀ v, ∃ model,
    readAssignment? (b.modelCommand s.tags v) = some (s.tags.bone b.name, model)
  /-- The root does not carry its tag. -/
  root : ∃ type tags, Command.read? ((Build.correlation s r).orderText .summonRoot) =
    some ⟨none, [], .summon type tags⟩ ∧ s.tags.bone b.name ∉ tags
  /-- An entity of another bone carries its tag only if that bone brings it. -/
  others : ∀ c ∈ r.bones, ∀ payload, c.payload s.tags s = .ok payload →
    ∀ e ∈ s.entityTypes.entities (c.summonTag payload s.tags s.entityTypes),
      s.tags.bone b.name ∈ e.carried → c = b ∨ c.BringsTag (s.tags.bone b.name)
  /-- It keeps its tag when it is new no longer. -/
  kept : ∀ {P : Type} (e : Entity P), s.tags.bone b.name ∈ e.tags →
    s.tags.bone b.name ∈ (e.untag newTag).tags

variable {b c : Bone} {s : Settings} {payload : Entries} {texts : List String}

/-- The tags of what wears the model: those that the bone brings, and those that it gets. -/
theorem carried_worn (hc : c.payload s.tags s = .ok payload)
    (h : payload.lookup "Tags" = some (.strings (texts ++ c.addedTags s.tags))) :
    (Tag.compound (s.entityTypes.worn payload)).carried = texts ++ c.addedTags s.tags := by
  have hnodup := nodup_keys_payload hc
  have hmem : ("Tags", _) ∈ s.entityTypes.worn payload :=
    (s.entityTypes.mem_worn_iff hnodup (by simp)).mpr (Assoc.mem_of_lookup h)
  exact Tag.carried_of_lookup (Assoc.lookup_of_mem (s.entityTypes.nodup_keys_worn hnodup) hmem)

/-- An entity of a bone carries the tags that the bone brings, its own tag, and shared ones. -/
theorem mem_carried (hc : c.payload s.tags s = .ok payload)
    (h : payload.lookup "Tags" = some (.strings (texts ++ c.addedTags s.tags))) {e : Tag}
    (he : e ∈ s.entityTypes.entities (c.summonTag payload s.tags s.entityTypes)) {tag : String}
    (htag : tag ∈ e.carried) : tag ∈ texts ∨ tag = s.tags.bone c.name ∨ tag ∈ s.tags.shared := by
  have hworn : (Tag.compound (s.entityTypes.worn payload)).carried = texts ++ c.addedTags s.tags :=
    carried_worn hc h
  -- a mount gets three tags, and none of those that the bone brings
  have hkinds : e.carried = texts ++ c.addedTags s.tags ∨
      e.carried = [newTag, s.tags.model, s.tags.bone c.name] := by
    rw [EntityTypes.entities, summonTag, EntityTypes.wearer] at he
    rw [EntityTypes.worn] at hworn
    cases hdisplay : s.entityTypes.boneDisplay with
    | none =>
      rw [hdisplay] at he hworn
      obtain rfl : e = .compound payload := by simpa using he
      exact .inl hworn
    | some display =>
      rw [hdisplay] at he hworn
      rcases List.mem_cons.mp he with rfl | he
      · exact .inr (Tag.carried_of_lookup rfl)
      · obtain rfl := List.mem_singleton.mp he
        exact .inl hworn
  rcases hkinds with hcarried | hcarried
  · rw [hcarried, List.mem_append] at htag
    refine htag.imp_right fun htag => ?_
    simp only [addedTags, List.mem_cons, List.not_mem_nil, or_false] at htag
    rcases htag with rfl | rfl | rfl | rfl
    · exact .inr (by simp [Tags.shared])
    · exact .inr (by simp [Tags.shared])
    · exact .inr (by simp [Tags.shared])
    · exact .inl rfl
  · rw [hcarried] at htag
    simp only [List.mem_cons, List.not_mem_nil, or_false] at htag
    rcases htag with rfl | rfl | rfl
    · exact .inr (.inr (by simp [Tags.shared]))
    · exact .inr (.inr (by simp [Tags.shared]))
    · exact .inr (.inl rfl)

/-- **A bone of an accepted rig stands apart** exactly if its name is none of the four at most that
the settings take. -/
theorem standsApart_iff {s : Settings} {rig r : Rig} (hs : s.validate = .ok ())
    (hr : rig.normalize = .ok r) :
    s.tags.taken.length ≤ 4 ∧
      ∀ b ∈ r.bones, b.StandsApart s r ↔ b.name ∉ s.tags.taken := by
  have accepted := Settings.accepted_of_validate hs
  obtain ⟨hnodup, htokens⟩ := Rig.bones_of_normalize hr
  refine ⟨List.length_filterMap_le _ _, fun b hb => ?_⟩
  rw [Tags.mem_taken_iff accepted.bone_ne]
  refine ⟨fun h => h.own, fun hown => ?_⟩
  have hsame : ∀ c ∈ r.bones, s.tags.bone c.name = s.tags.bone b.name → c = b := fun c hc hcb =>
    List.inj_on_of_nodup_map hnodup hc hb (Tags.bone_injective accepted.bone_ne hcb)
  -- the root carries three of the four shared tags
  have hroot : s.tags.bone b.name ∉ [s.tags.model, s.tags.root, newTag] := by
    refine fun hmem => hown ?_
    simp only [List.mem_cons, List.not_mem_nil, or_false] at hmem
    rcases hmem with h | h | h <;> simp [Tags.shared, h]
  refine ⟨hown, fun c hc hne hcb => hne (hsame c hc hcb),
    fun v => ⟨_, readAssignment?_modelCommand (accepted.isToken_bone (htokens b hb)) v⟩,
    ⟨_, _, (Build.isPlain_correlation accepted r).read_summonRoot, hroot⟩,
    fun c hc payload hpayload e he htag => ?_, fun e he => ?_⟩
  · obtain ⟨u, texts, pose, hu, htexts, -, hmerged⟩ := exists_merged hpayload
    rcases mem_carried hpayload hmerged.tags he htag with htag | htag | htag
    · exact .inr ⟨u, texts, hu, htexts, htag⟩
    · exact .inl (hsame c hc htag.symm)
    · exact absurd htag hown
  · refine Entity.mem_untag.mpr ⟨he, fun hnew => hown ?_⟩
    simp [Tags.shared, hnew]

end Bone

/-- Settings in which the tag of a bone is its bare name, and that of the rig is the name of a bone.
-/
def Settings.headlong : Settings where
  modelTag := "head"
  boneTag := "%boneName"

example : Settings.headlong.tags.taken = ["head", "aj.statue.root", "aj.statue.bone", "new"] := by
  decide +kernel

/-- A rig of two bones. -/
def Rig.headed : Rig where
  bones := [⟨"head", .zero, .zero, true, "", 1⟩, ⟨"arm", .zero, .zero, true, "", 2⟩]
  maxDistance := .zero false
  variants := []
  touched := []

theorem Settings.validate_headlong : headlong.validate = .ok () := by
  have hcheck : Schema.check headlong = [] := Schema.mergeSort_eq_nil (by decide)
  rw [validate]
  simp only [hcheck]
  decide

/-- There the arm stands apart, but all entities of the rig have the tag of the head. -/
theorem Bone.standsApart_iff_headed : Settings.headlong.validate = .ok () ∧
    ∃ r, Rig.headed.normalize = .ok r ∧ ∃ head ∈ r.bones, ∃ arm ∈ r.bones, head.name = "head" ∧
      ¬ head.StandsApart .headlong r ∧ arm.name = "arm" ∧ arm.StandsApart .headlong r := by
  have hnormal : Rig.headed.normalize =
      .ok { Rig.headed with variants := [Rig.defaultVariant] } := rfl
  have hall := (standsApart_iff Settings.validate_headlong hnormal).2
  have hne := (Settings.accepted_of_validate Settings.validate_headlong).bone_ne
  refine ⟨Settings.validate_headlong, _, hnormal, _, List.mem_cons_self, _,
    List.mem_cons_of_mem _ (List.mem_singleton_self _), rfl, ?_, rfl, ?_⟩
  · rw [hall _ List.mem_cons_self, Tags.mem_taken_iff hne]
    decide
  · rw [hall _ (List.mem_cons_of_mem _ (List.mem_singleton_self _)), Tags.mem_taken_iff hne]
    decide

end Statuary
