import Statuary.Proofs.Export.Lines
import Statuary.Proofs.Export.Switching
import Statuary.Proofs.Settings.Tags

/-!
# Tags in selectors

A selector stands in a command as it was put together, without quotes, so the game takes it only if
the tags in it are **plain** (`Statuary.IsPlainSelector`). The names of bones are checked for that.
Of the tags, what is checked is their templates, and there a percent sign is a good character.

So settings are accepted that have tags with percent signs, and an export writes them into its
selectors. Which settings do that can be read off their templates: a tag is plain exactly if each
percent sign of its template stands before the key that is filled in. And the selectors of a program
are plain exactly if the tags are that it selects by: those of the rig and of the root always, and
those of all bones and of the changed bones if it changes variants
(`Statuary.build_plainSelectors_iff`).

The words of each text are known (`Statuary.words`), so the selectors in it are, and each is read as
it was put together.
-/

namespace Statuary

/-! ### Selectors -/

/-- A word with the sign of a selector. -/
def isSelector (word : String) : Bool :=
  word.toList.head? == some '@'

/-- **The selectors in a text of a program.** What an entity is summoned with, and what a message
says, is data. -/
def selectors (text : String) : List String :=
  match words text with
  | [] => []
  | verb :: ws =>
    if verb = "summon" then []
    else if verb = "tellraw" then ws.take 1
    else (verb :: ws).filter isSelector

/-- The tag of a filter. -/
def Filter.tag? : Filter → Option String
  | .tag name => some name
  | _ => none

/-- The tags that somebody is meant by. -/
def Target.tags : Target → List String
  | .self filters => filters.filterMap Filter.tag?
  | .all filters => filters.filterMap Filter.tag?
  | .holder _ => []

/-- **A plain selector**: it can be read, and the tags in it are plain. -/
def IsPlainSelector (word : String) : Prop :=
  ∃ t, Target.read? word = some t ∧ ∀ tag ∈ t.tags, IsPlainTag tag

/-- The selectors in a text are plain. -/
def HasPlainSelectors (text : String) : Prop :=
  ∀ word ∈ selectors text, IsPlainSelector word

theorem isPlainSelector_iff {word : String} {t : Target} (h : Target.read? word = some t) :
    IsPlainSelector word ↔ ∀ tag ∈ t.tags, IsPlainTag tag := by
  refine ⟨fun ⟨u, hu, hplain⟩ => ?_, fun hplain => ⟨t, h, hplain⟩⟩
  obtain rfl := Option.some.inj (h.symm.trans hu)
  exact hplain

theorem isPlainSelector_self : IsPlainSelector "@s" :=
  ⟨.self [], rfl, fun _ htag => absurd htag List.not_mem_nil⟩

theorem isPlainSelector_selfTag_iff {tag : String} (h : IsToken tag) :
    IsPlainSelector ("@s[tag=" ++ tag ++ "]") ↔ IsPlainTag tag := by
  rw [isPlainSelector_iff (readTarget_selfTag h)]
  exact List.forall_mem_singleton

theorem isPlainTag_newTag : IsPlainTag newTag :=
  ⟨by decide, List.all_eq_true.mp rfl⟩

theorem IsToken.isSelector_eq_false {word : String} (h : IsToken word) :
    isSelector word = false := by
  rw [isSelector, beq_eq_false_iff_ne]
  exact fun hhead => h.notMem rfl (List.mem_of_mem_head? hhead)

@[simp] theorem isSelector_selector (type : String) (tags more : List String) :
    isSelector (Correlation.selector type tags more) = true := by
  simp [isSelector, Correlation.selector]

@[simp] theorem isSelector_selfTag (tag : String) :
    isSelector ("@s[tag=" ++ tag ++ "]") = true := by
  simp [isSelector]

theorem selectors_of_words {text verb : String} {ws : List String} (h : words text = verb :: ws)
    (hsummon : verb ≠ "summon") (htell : verb ≠ "tellraw") :
    selectors text = (verb :: ws).filter isSelector := by
  rw [selectors, h]
  simp [hsummon, htell]

theorem hasPlainSelectors_of_selectors {text : String} {ws : List String}
    (h : selectors text = ws) : HasPlainSelectors text ↔ ∀ w ∈ ws, IsPlainSelector w := by
  rw [HasPlainSelectors, h]

theorem hasPlainSelectors_of_isSummon {text : String} (h : isSummon text = true) :
    HasPlainSelectors text := by
  have hnone : selectors text = [] := by
    rw [isSummon, beq_iff_eq] at h
    rw [selectors]
    cases hwords : words text with
    | nil => rfl
    | cons verb ws =>
      rw [hwords] at h
      exact if_pos (Option.some.inj h)
  exact (hasPlainSelectors_of_selectors hnone).mpr fun _ hword => absurd hword List.not_mem_nil

namespace Correlation

variable {p : Correlation}

/-! ### Selectors in the texts of a statue -/

/-- Orders that mean the executing entity alone. -/
theorem hasPlainSelectors_self {text : String} (h : selectors text = ["@s"]) :
    HasPlainSelectors text :=
  (hasPlainSelectors_of_selectors h).mpr (List.forall_mem_singleton.mpr isPlainSelector_self)

theorem selectors_usage (function : String) :
    selectors (p.orderText (.usage function)) = ["@s"] := by
  rw [selectors, words_usage]
  rfl

theorem selectors_addObjective {name : String} (hname : IsToken name) :
    selectors (p.orderText (.addObjective name)) = [] := by
  have hwords : words (p.orderText (.addObjective name)) =
      ["scoreboard", "objectives", "add", name, "dummy"] := by
    refine words_eq (by simp) (by simp [hname.notMem_blank]) ?_
    change "scoreboard objectives add " ++ name ++ " dummy" = _
    apply String.toList_inj.mp
    simp [unwords]
  rw [selectors_of_words hwords (by decide) (by decide)]
  simp +decide [hname.isSelector_eq_false]

namespace IsPlain

variable (hp : p.IsPlain)

include hp

theorem selectors_mintId : selectors (p.orderText .mintId) = ["@s"] := by
  rw [selectors_of_words hp.words_mintId (by decide) (by decide)]
  simp +decide [hp.id.isSelector_eq_false, hp.internal.isSelector_eq_false]

theorem selectors_takeId : selectors (p.orderText .takeId) = ["@s"] := by
  rw [selectors_of_words hp.words_takeId (by decide) (by decide)]
  simp +decide [hp.id.isSelector_eq_false, hp.internal.isSelector_eq_false]

theorem selectors_rememberId : selectors (p.orderText .rememberId) = ["@s"] := by
  rw [selectors_of_words hp.words_rememberId (by decide) (by decide)]
  simp +decide [hp.id.isSelector_eq_false]

theorem selectors_kill {type : String} (htype : IsToken type) :
    selectors ("kill " ++ selector type [p.tags.model] []) =
      [selector type [p.tags.model] []] := by
  rw [selectors_of_words (hp.words_kill htype) (by decide) (by decide)]
  simp +decide

theorem selectors_killRemembered : selectors (p.orderText .killRemembered) =
    [selector p.types.bone [p.tags.model] ["distance=.." ++ p.reach], "@s", "@s"] := by
  rw [selectors_of_words hp.words_killRemembered (by decide) (by decide)]
  simp +decide [hp.id.isSelector_eq_false]

theorem selectors_newRootHead : selectors p.newRootHead =
    [selector p.types.root [p.tags.root, newTag] ["distance=..1", "limit=1"], "@s"] := by
  rw [selectors_of_words hp.words_newRootHead (by decide) (by decide)]
  simp +decide

theorem selectors_newBonesHead : selectors p.newBonesHead =
    [selector p.types.bone [p.tags.model, newTag] ["distance=.." ++ p.reach], "@s"] := by
  rw [selectors_of_words hp.words_newBonesHead (by decide) (by decide)]
  simp +decide

theorem selectors_rememberedHead : selectors p.rememberedHead =
    [selector p.types.display [p.tags.allBones] ["distance=.." ++ p.reach], "@s"] := by
  rw [selectors_of_words hp.words_rememberedHead (by decide) (by decide)]
  simp +decide [hp.id.isSelector_eq_false]

theorem selectors_rootCondition :
    selectors p.rootCondition = ["@s[tag=" ++ p.tags.root ++ "]", "@s"] := by
  rw [selectors_of_words hp.words_rootCondition (by decide) (by decide)]
  simp +decide

theorem isPlainSelector_model_iff {type : String} (htype : IsToken type) :
    IsPlainSelector (selector type [p.tags.model] []) ↔ IsPlainTag p.tags.model := by
  rw [isPlainSelector_iff (hp.readTarget_model htype)]
  exact List.forall_mem_singleton

theorem isPlainSelector_nearBones_iff :
    IsPlainSelector (selector p.types.bone [p.tags.model] ["distance=.." ++ p.reach]) ↔
      IsPlainTag p.tags.model := by
  rw [isPlainSelector_iff hp.readTarget_nearBones]
  exact List.forall_mem_singleton

theorem isPlainSelector_newRoot_iff : IsPlainSelector
    (selector p.types.root [p.tags.root, newTag] ["distance=..1", "limit=1"]) ↔
      IsPlainTag p.tags.root := by
  rw [isPlainSelector_iff hp.readTarget_newRoot]
  change (∀ tag ∈ [p.tags.root, newTag], IsPlainTag tag) ↔ _
  simp [isPlainTag_newTag]

theorem isPlainSelector_newBones_iff : IsPlainSelector
    (selector p.types.bone [p.tags.model, newTag] ["distance=.." ++ p.reach]) ↔
      IsPlainTag p.tags.model := by
  rw [isPlainSelector_iff hp.readTarget_newBones]
  change (∀ tag ∈ [p.tags.model, newTag], IsPlainTag tag) ↔ _
  simp [isPlainTag_newTag]

theorem isPlainSelector_displays_iff : IsPlainSelector
    (selector p.types.display [p.tags.allBones] ["distance=.." ++ p.reach]) ↔
      IsPlainTag p.tags.allBones := by
  rw [isPlainSelector_iff hp.readTarget_displays]
  exact List.forall_mem_singleton

/-! ### Selectors in the functions of a statue -/

theorem hasPlainSelectors_install :
    ∀ text ∈ texts (p.statements p.install), HasPlainSelectors text := by
  change ∀ text ∈ [p.orderText (.addObjective p.objectives.internal),
    p.orderText (.addObjective p.objectives.id)], HasPlainSelectors text
  simp [HasPlainSelectors, selectors_addObjective hp.internal, selectors_addObjective hp.id]

/-- All entities of the rig are found by its tag. -/
theorem hasPlainSelectors_removeAll_iff :
    (∀ text ∈ texts (p.statements removeAll), HasPlainSelectors text) ↔
      IsPlainTag p.tags.model := by
  change (∀ text ∈ ["kill " ++ selector p.types.root [p.tags.model] [],
    "kill " ++ selector p.types.bone [p.tags.model] []], HasPlainSelectors text) ↔ _
  simp [HasPlainSelectors, hp.selectors_kill hp.rootType, hp.selectors_kill hp.boneType,
    hp.isPlainSelector_model_iff hp.rootType, hp.isPlainSelector_model_iff hp.boneType]

/-- What only a root may do asks for the tag of the root. -/
theorem hasPlainSelectors_removeThis_iff :
    (∀ text ∈ texts (p.statements removeThis), HasPlainSelectors text) ↔
      IsPlainTag p.tags.root ∧ IsPlainTag p.tags.model := by
  change (∀ text ∈ [p.rootCondition, p.orderText .rememberId, p.orderText .killRemembered,
    p.orderText .killSelf, p.orderText (.usage "remove/this")], HasPlainSelectors text) ↔ _
  have hkill : selectors (p.orderText .killSelf) = ["@s"] :=
    show selectors "kill @s" = ["@s"] by decide
  simp [HasPlainSelectors, hp.selectors_rootCondition, hp.selectors_rememberId,
    hp.selectors_killRemembered, hkill, selectors_usage, isPlainSelector_self,
    isPlainSelector_selfTag_iff hp.root, hp.isPlainSelector_nearBones_iff]

/-- New entities are found by the tag of the root and by that of the rig. -/
theorem hasPlainSelectors_summon_iff {commands : List String}
    (h : ∀ c ∈ commands, isSummon c = true) :
    (∀ text ∈ texts (p.statements (summon commands)), HasPlainSelectors text) ↔
      IsPlainTag p.tags.root ∧ IsPlainTag p.tags.model := by
  have hroot : HasPlainSelectors (p.orderText .summonRoot) := by
    refine hasPlainSelectors_of_isSummon ?_
    rw [isSummon, hp.words_summonRoot]
    rfl
  have hbones : (∀ c ∈ commands, HasPlainSelectors c) ↔ True :=
    iff_true_intro fun c hc => hasPlainSelectors_of_isSummon (h c hc)
  have halign : HasPlainSelectors (p.orderText .align) :=
    hasPlainSelectors_self (show selectors "tp @s ~ ~ ~ ~ ~" = ["@s"] by decide)
  have hdrop : HasPlainSelectors (p.orderText .dropNew) :=
    hasPlainSelectors_self (show selectors ("tag @s remove " ++ newTag) = ["@s"] by decide)
  have hnewRoot : HasPlainSelectors p.newRootHead ↔ IsPlainTag p.tags.root := by
    simp [HasPlainSelectors, hp.selectors_newRootHead, isPlainSelector_self,
      hp.isPlainSelector_newRoot_iff]
  have hnewBones : HasPlainSelectors p.newBonesHead ↔ IsPlainTag p.tags.model := by
    simp [HasPlainSelectors, hp.selectors_newBonesHead, isPlainSelector_self,
      hp.isPlainSelector_newBones_iff]
  rw [texts_summon]
  simp only [List.forall_mem_cons, List.forall_mem_append]
  simp [hroot, hbones, halign, hdrop, hnewRoot, hnewBones,
    hasPlainSelectors_self hp.selectors_mintId, hasPlainSelectors_self hp.selectors_takeId]

/-- The entities that wear models are found by the tag of all bones. -/
theorem hasPlainSelectors_setVariant_iff (variant : String) (commands : List String) :
    (∀ text ∈ texts (p.statements (setVariant variant commands)), HasPlainSelectors text) ↔
      IsPlainTag p.tags.root ∧ IsPlainTag p.tags.allBones ∧
        ∀ c ∈ commands, HasPlainSelectors c := by
  have hcondition : HasPlainSelectors p.rootCondition ↔ IsPlainTag p.tags.root := by
    simp [HasPlainSelectors, hp.selectors_rootCondition, isPlainSelector_self,
      isPlainSelector_selfTag_iff hp.root]
  have hhead : HasPlainSelectors p.rememberedHead ↔ IsPlainTag p.tags.allBones := by
    simp [HasPlainSelectors, hp.selectors_rememberedHead, isPlainSelector_self,
      hp.isPlainSelector_displays_iff]
  rw [texts_setVariant]
  simp only [List.forall_mem_cons, List.forall_mem_append]
  simp [hcondition, hhead, hasPlainSelectors_self hp.selectors_rememberId,
    hasPlainSelectors_self (selectors_usage _)]

end IsPlain

end Correlation

/-! ### Selectors in a program -/

theorem selectors_model {tag text : String} (htag : IsToken tag) (htext : IsToken text) :
    selectors ("data modify entity @s[tag=" ++ tag ++
      "] ArmorItems[-1].tag.CustomModelData set value " ++ text) = ["@s[tag=" ++ tag ++ "]"] := by
  rw [selectors_of_words (words_model htag htext.notMem_blank) (by decide) (by decide)]
  simp +decide [htext.isSelector_eq_false]

/-- The command that changes the model of a bone finds it by its tag. -/
theorem Bone.hasPlainSelectors_modelCommand_iff {b : Bone} {tags : Tags}
    (htag : IsToken (tags.bone b.name)) (v : Variant) :
    HasPlainSelectors (b.modelCommand tags v) ↔ IsPlainTag (tags.bone b.name) := by
  have hselectors : selectors (b.modelCommand tags v) = ["@s[tag=" ++ tags.bone b.name ++ "]"] :=
    selectors_model htag (isToken_toString _)
  rw [hasPlainSelectors_of_selectors hselectors, List.forall_mem_singleton,
    isPlainSelector_selfTag_iff htag]

namespace Build

variable {s : Settings} {r : Rig} {summons : List (Bone × String)}

/-- The functions that change variants select by the tag of all bones, and by those of the bones
that are changed. -/
theorem hasPlainSelectors_changes_iff (hs : s.Accepted) (hvariants : r.variants ≠ [])
    (htokens : ∀ b ∈ r.bones, IsToken b.name) :
    (∀ f ∈ changes s r, ∀ text ∈ texts f.2, HasPlainSelectors text) ↔
      (r.touchesAny = true → IsPlainTag s.tags.root ∧ IsPlainTag s.tags.allBones ∧
        ∀ b ∈ r.exportedBones, r.isTouched b.name = true → IsPlainTag (s.tags.bone b.name)) := by
  have hcommands : ∀ v, (∀ c ∈ modelCommands r s.tags v, HasPlainSelectors c) ↔
      ∀ b ∈ r.exportedBones, r.isTouched b.name = true → IsPlainTag (s.tags.bone b.name) := by
    intro v
    rw [modelCommands, List.forall_mem_map]
    simp only [List.mem_filter, and_imp]
    refine forall_congr' fun b => forall_congr' fun hb => forall_congr' fun _ => ?_
    exact Bone.hasPlainSelectors_modelCommand_iff
      (hs.isToken_bone (htokens b (List.mem_of_mem_filter hb))) v
  rw [changes]
  split_ifs with htouches
  · have hfunction : ∀ v, (∀ text ∈ texts ((correlation s r).statements
        (Correlation.setVariant v.name (modelCommands r s.tags v))), HasPlainSelectors text) ↔
        IsPlainTag s.tags.root ∧ IsPlainTag s.tags.allBones ∧
          ∀ b ∈ r.exportedBones, r.isTouched b.name = true →
            IsPlainTag (s.tags.bone b.name) := fun v => by
      rw [(isPlain_correlation hs r).hasPlainSelectors_setVariant_iff, hcommands]
      rfl
    obtain ⟨v, hv⟩ := List.exists_mem_of_ne_nil _ hvariants
    rw [List.forall_mem_map]
    exact ⟨fun h _ => (hfunction v).mp (h v hv), fun h v _ => (hfunction v).mpr (h htouches)⟩
  · exact iff_of_true (fun _ hf => absurd hf List.not_mem_nil) fun h => absurd h htouches

/-- **The selectors of a program** are plain if the tags are that it selects by. -/
theorem hasPlainSelectors_statue_iff (hs : s.Accepted) (hvariants : r.variants ≠ [])
    (htokens : ∀ b ∈ r.bones, IsToken b.name)
    (hsummons : Build.summons s r.exportedBones = .ok summons) :
    (∀ text ∈ (statue s r summons).texts, HasPlainSelectors text) ↔
      IsPlainTag s.tags.model ∧ IsPlainTag s.tags.root ∧
        (r.touchesAny = true → IsPlainTag s.tags.allBones ∧
          ∀ b ∈ r.exportedBones, r.isTouched b.name = true →
            IsPlainTag (s.tags.bone b.name)) := by
  have hp := isPlain_correlation hs r
  have hsummon : ∀ v : Variant, (∀ text ∈ texts ((correlation s r).statements
      (Correlation.summon (summonsIn summons v))), HasPlainSelectors text) ↔
      IsPlainTag s.tags.root ∧ IsPlainTag s.tags.model := fun v =>
    hp.hasPlainSelectors_summon_iff (isSummon_of_mem_summonsIn hsummons v)
  have hall : (∀ text ∈ texts ((correlation s r).statements Correlation.removeAll),
      HasPlainSelectors text) ↔ IsPlainTag s.tags.model := hp.hasPlainSelectors_removeAll_iff
  have hthis : (∀ text ∈ texts ((correlation s r).statements Correlation.removeThis),
      HasPlainSelectors text) ↔ IsPlainTag s.tags.root ∧ IsPlainTag s.tags.model :=
    hp.hasPlainSelectors_removeThis_iff
  rw [Program.texts, List.forall_mem_flatMap, functions_statue]
  simp only [List.forall_mem_append, List.forall_mem_cons, List.forall_mem_map, hsummon, hall,
    hthis, hasPlainSelectors_changes_iff hs hvariants htokens]
  constructor
  · rintro ⟨⟨⟨-, hmodel, ⟨hroot, -⟩, -⟩, -⟩, hchanges⟩
    exact ⟨hmodel, hroot, fun htouches => (hchanges htouches).2⟩
  · rintro ⟨hmodel, hroot, hchanges⟩
    exact ⟨⟨⟨hp.hasPlainSelectors_install, hmodel, ⟨hroot, hmodel⟩,
      fun _ hf => absurd hf List.not_mem_nil⟩, fun _ _ => ⟨hroot, hmodel⟩⟩,
      fun htouches => ⟨hroot, hchanges htouches⟩⟩

end Build

/-- The names of the bones of an accepted rig are plain. -/
theorem Rig.isPlainTag_bone {rig r : Rig} (h : rig.normalize = .ok r) :
    ∀ b ∈ r.bones, IsPlainTag b.name := by
  intro b hb
  have hvalid := (isValid_of_normalize h).bones b hb
  exact ⟨hvalid.name_ne_empty, hvalid.isTagChar⟩

/-- **Which tags are plain, and which selectors**, for accepted settings and an accepted rig: a tag
is never empty, and it is plain exactly if each percent sign of its template stands before the key
that is filled in. The selectors of a program that is built are plain exactly if the tags are that
it selects by. -/
theorem build_plainSelectors_iff {s : Settings} {rig r : Rig} (hs : s.validate = .ok ())
    (hr : rig.normalize = .ok r) :
    (s.tags.model ≠ "" ∧ s.tags.root ≠ "" ∧ s.tags.allBones ≠ "" ∧
      ∀ b ∈ r.bones, s.tags.bone b.name ≠ "") ∧
    (IsPlainTag s.tags.model ↔ Template.bound Template.projectKey s.modelTag.toList = true) ∧
    (IsPlainTag s.tags.root ↔ Template.bound Template.projectKey s.rootTag.toList = true) ∧
    (IsPlainTag s.tags.allBones ↔
      Template.bound Template.projectKey s.allBonesTag.toList = true) ∧
    (∀ b ∈ r.bones, IsPlainTag (s.tags.bone b.name) ↔
      Template.bound Template.boneKey s.tags.boneTemplate.toList = true) ∧
    ∀ out, build s (some rig) = .ok out →
      ((∀ text ∈ out.program.texts, HasPlainSelectors text) ↔
        IsPlainTag s.tags.model ∧ IsPlainTag s.tags.root ∧
          (r.touchesAny = true → IsPlainTag s.tags.allBones ∧
            ∀ b ∈ r.exportedBones, r.isTouched b.name = true →
              IsPlainTag (s.tags.bone b.name))) := by
  have accepted := Settings.accepted_of_validate hs
  have hproject : IsPlainTag s.project := Identifier.isPlainTag_ofText _
  have hkeys := Schema.percent_notMem_keys
  have hnames := Rig.isPlainTag_bone hr
  refine ⟨⟨s.format_ne_empty accepted.modelTag, s.format_ne_empty accepted.rootTag,
    s.format_ne_empty accepted.allBonesTag,
    fun b hb => Template.format_ne_empty (s.format_ne_empty accepted.boneTag) (hnames b hb).1⟩,
    isPlainTag_format_iff accepted.modelTag hproject hkeys.1,
    isPlainTag_format_iff accepted.rootTag hproject hkeys.1,
    isPlainTag_format_iff accepted.allBonesTag hproject hkeys.1, fun b hb => ?_,
    fun out hout => ?_⟩
  · exact isPlainTag_format_iff (Schema.isTemplate_format accepted.boneTag hproject)
      (hnames b hb) hkeys.2
  · obtain ⟨r', summons, hr', hsummons, hprogram⟩ := exists_statue_of_build hout
    obtain rfl := Except.ok.inj (hr.symm.trans hr')
    rw [hprogram]
    exact Build.hasPlainSelectors_statue_iff accepted (Rig.variants_ne_nil hr)
      (Rig.bones_of_normalize hr).2 hsummons

/-- Settings with a key that nothing is filled in for. -/
def Settings.unknownKey : Settings where
  modelTag := "aj.%name"

theorem Settings.validate_unknownKey : unknownKey.validate = .ok () := by
  have hcheck : Schema.check unknownKey = [] := Schema.mergeSort_eq_nil (by decide)
  rw [validate]
  simp only [hcheck]
  decide

/-- They are accepted, and the program of a rig has selectors with a percent sign. -/
theorem build_plainSelectors_iff_unknownKey :
    Settings.unknownKey.validate = .ok () ∧ (∃ r, Rig.twofold.normalize = .ok r) ∧
      Settings.unknownKey.tags.model = "aj.%name" ∧ ¬ IsPlainTag Settings.unknownKey.tags.model ∧
      ∃ out, build .unknownKey (some Rig.twofold) = .ok out ∧
        ∃ text ∈ out.program.texts, ¬ HasPlainSelectors text := by
  have hnormal : Rig.twofold.normalize = .ok { Rig.twofold with touched := ["b"] } := rfl
  obtain ⟨out, hout⟩ := exists_build (s := .unknownKey) hnormal (List.forall_mem_singleton.mpr
    ⟨_, Bone.payload_eq_ok.mpr ⟨[], [], [], rfl, rfl, rfl, rfl⟩⟩)
  obtain ⟨-, hmodel, -, -, -, hall⟩ :=
    build_plainSelectors_iff Settings.validate_unknownKey hnormal
  have hnot : ¬ IsPlainTag Settings.unknownKey.tags.model := by
    rw [hmodel]
    decide
  refine ⟨Settings.validate_unknownKey, ⟨_, hnormal⟩, by decide, hnot, out, hout, ?_⟩
  by_contra hnone
  have hplain : ∀ text ∈ out.program.texts, HasPlainSelectors text := fun text htext => by
    by_contra h
    exact hnone ⟨text, htext, h⟩
  exact hnot ((hall out hout).mp hplain).1

end Statuary
