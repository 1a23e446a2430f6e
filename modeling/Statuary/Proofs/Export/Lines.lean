import Statuary.Export.Run
import Statuary.Proofs.Export.Summon
import Statuary.Proofs.Program.Lines

/-!
# Which statues have one command a line

Names, numbers and messages never bring a line break into a command: names were checked when
settings and rig were accepted, and a message is a JSON text, in which line breaks are escaped. **The
data of a bone is not checked**, and a text between quotes may hold a line break, which the printer
writes as it stands. So the commands of a statue are on one line each exactly if the data that its
exported bones bring has no line break in a text or name
(`Statuary.build_breaks_iff`), entries that an export writes over apart
(`Statuary.EntityTypes.replaced`).
-/

namespace Statuary

open Tag

/-! ### Messages -/

namespace Json

theorem isBreak_hexDigit (n : ℕ) : isBreak (hexDigit (n % 16)) = false := by
  have hall : ∀ k < 16, isBreak (hexDigit k) = false := by decide
  exact hall _ (Nat.mod_lt _ (by decide))

/-- Line breaks are escaped. -/
theorem any_isBreak_escapeChar {c : Char} (hc : Utf8.isCarrier c = false) :
    (escapeChar c).any isBreak = false := by
  rw [escapeChar.eq_def]
  split
  · rfl
  · rfl
  · rfl
  · rfl
  · rfl
  · rename_i hfeed hreturn _
    dsimp only
    split_ifs
    · rfl
    · rfl
    · simp only [hexDigits, List.nil_append, List.cons_append, List.any_cons, List.any_nil,
        isBreak_hexDigit]
      rfl
    · have hbreak : isBreak c = false := by
        simp only [isBreak, Bool.or_eq_false_iff, beq_eq_false_iff_ne]
        exact ⟨hfeed, hreturn⟩
      rw [Utf8.ofChar, hc, if_neg Bool.false_ne_true, List.any_cons, hbreak]
      rfl

theorem breaks_ofText {s : String} (h : s.toList.any Utf8.isCarrier = false) :
    breaks (ofText s) = false := by
  have hany : s.any Utf8.isCarrier = false := (Utf8.any_isCarrier s).trans h
  have hescaped : (s.toList.flatMap escapeChar).any isBreak = false := by
    rw [List.any_flatMap, List.any_eq_false]
    intro c hc
    rw [List.any_eq_false] at h
    rw [any_isBreak_escapeChar (Bool.not_eq_true _ ▸ h c hc)]
    exact Bool.false_ne_true
  rw [ofText, hany, breaks_ofList]
  simp only [Bool.false_eq_true, if_false, List.any_cons, List.any_append, hescaped]
  rfl

theorem isCarrier_of_isTokenChar {c : Char} (h : isTokenChar c = true) :
    Utf8.isCarrier c = false := by
  have hlt : c.toNat < 0x80 := by
    have h1 : ('z').val.toNat = 122 := rfl
    have h2 : ('Z').val.toNat = 90 := rfl
    have h3 : ('9').val.toNat = 57 := rfl
    have hval : c.toNat = c.val.toNat := rfl
    simp only [isTokenChar, isBareChar, Bool.or_eq_true, Bool.and_eq_true, decide_eq_true_eq,
      beq_iff_eq, Char.le_def, UInt32.le_iff_toNat_le] at h
    rcases h with (((((((((h | h) | h) | rfl) | rfl) | rfl) | rfl) | rfl) | rfl) | rfl) | rfl
    · omega
    · omega
    · omega
    all_goals decide
  rw [Utf8.isCarrier, Utf8.carried?, if_neg]
  · rfl
  · rw [Utf8.carrierBase]
    omega

theorem breaks_ofText_of_isToken {s : String} (h : IsToken s) : breaks (ofText s) = false := by
  refine breaks_ofText ?_
  rw [List.any_eq_false]
  intro c hc
  rw [isCarrier_of_isTokenChar (h c hc)]
  exact Bool.false_ne_true

theorem breaks_ofItems (values : List String) : breaks (ofItems values) = values.any breaks := by
  rw [ofItems, breaks_append, breaks_append, breaks_intercalate (by decide)]
  exact Bool.or_false _

theorem breaks_ofMembers (members : List (String × String)) :
    breaks (ofMembers members) = members.any fun m => breaks (ofText m.1) || breaks m.2 := by
  rw [ofMembers, breaks_append, breaks_append, breaks_intercalate (by decide), List.any_map]
  refine (Bool.or_false _).trans (any_congr_of_mem fun m _ => ?_)
  dsimp only [Function.comp_apply]
  rw [breaks_append, breaks_append, show breaks ":" = false by decide, Bool.or_false]

end Json

/-- The message about wrong use is on one line, although it shows on two. -/
theorem breaks_usageMessage {function rootTag : String} (hf : IsToken function)
    (ht : IsToken rootTag) : breaks (usageMessage function rootTag) = false := by
  have hfixed : ∀ s ∈ ["", "AJ", " → ", "Error ←", "\n", " ", "must be executed as ", "green",
      "light_purple", "red", "blue", "gray", "text", "color"],
      breaks (Json.ofText s) = false := by
    have hplain : ∀ s ∈ ["", "AJ", " → ", "Error ←", "\n", " ", "must be executed as ", "green",
        "light_purple", "red", "blue", "gray", "text", "color"],
        s.toList.any Utf8.isCarrier = false := by decide +kernel
    exact fun s hs => Json.breaks_ofText (hplain s hs)
  simp only [List.forall_mem_cons] at hfixed
  obtain ⟨hempty, haj, harrow, herror, hfeed, hblank, hmust, hgreen, hpurple, hred, hblue, hgray,
    htext, hcolor, -⟩ := hfixed
  have hf := Json.breaks_ofText_of_isToken hf
  have ht := Json.breaks_ofText_of_isToken ht
  rw [usageMessage, Json.breaks_ofItems]
  simp only [List.any_cons, List.any_nil, Json.breaks_ofMembers, hempty, haj, harrow, herror, hfeed,
    hblank, hmust, hgreen, hpurple, hred, hblue, hgray, htext, hcolor, hf, ht, Bool.or_false]

/-! ### Orders and heads -/

namespace Correlation

theorem breaks_selector {type : String} {tags more : List String} (htype : breaks type = false)
    (htags : ∀ t ∈ tags, breaks t = false) (hmore : ∀ m ∈ more, breaks m = false) :
    breaks (selector type tags more) = false := by
  have hall : (("type=" ++ type) :: tags.map ("tag=" ++ ·) ++ more).any breaks = false := by
    rw [List.any_eq_false]
    simp only [List.cons_append, List.forall_mem_cons, List.forall_mem_append,
      List.forall_mem_map, breaks_append, htype]
    refine ⟨by decide, fun t ht => ?_, fun m hm => ?_⟩
    · rw [htags t ht]
      decide
    · rw [hmore m hm]
      exact Bool.false_ne_true
  rw [selector, breaks_append, breaks_append, breaks_intercalate (by decide), hall]
  decide

/-- The texts in an order that come from elsewhere are on one line. -/
def OrderOnLine : Order → Prop
  | .addObjective name => breaks name = false
  | .run command => breaks command = false
  | .usage function => IsToken function
  | _ => True

theorem breaks_reach (p : Correlation) : breaks ("distance=.." ++ p.reach) = false := by
  rw [breaks_append, p.isToken_reach.breaks]
  decide

theorem texts_summon (p : Correlation) (commands : List String) :
    texts (p.statements (summon commands)) =
      p.orderText .summonRoot :: p.newRootHead :: p.orderText .mintId :: (commands ++
        [p.newBonesHead, p.orderText .takeId, p.orderText .align, p.orderText .dropNew,
          p.orderText .dropNew]) := by
  rw [statements_summon]
  simp [texts, statementTexts, texts_append, texts_lines]

theorem texts_setVariant (p : Correlation) (variant : String) (commands : List String) :
    texts (p.statements (setVariant variant commands)) =
      p.rootCondition :: p.orderText .rememberId :: p.rememberedHead :: (commands ++
        [p.orderText (.usage ("set_variant/" ++ variant))]) := by
  rw [statements_setVariant]
  simp [texts, statementTexts, texts_lines]

namespace IsPlain

variable {p : Correlation} (hp : p.IsPlain)

include hp

/-- **An order is on one line** if what comes from elsewhere is. -/
theorem breaks_orderText {o : Order} (ho : OrderOnLine o) : breaks (p.orderText o) = false := by
  have hid := hp.id.breaks
  have hinternal := hp.internal.breaks
  have hroots : breaks (selector p.types.root [p.tags.model] []) = false :=
    breaks_selector hp.rootType.breaks (List.forall_mem_singleton.mpr hp.model.breaks) (by simp)
  have hbones : ∀ more : List String, (∀ m ∈ more, breaks m = false) →
      breaks (selector p.types.bone [p.tags.model] more) = false := fun more hmore =>
    breaks_selector hp.boneType.breaks (List.forall_mem_singleton.mpr hp.model.breaks) hmore
  cases o with
  | addObjective name =>
    change breaks ("scoreboard objectives add " ++ name ++ " dummy") = false
    simp only [breaks_append, show breaks name = false from ho]
    simp [breaks, isBreak]
  | summonRoot =>
    change breaks ("summon " ++ p.types.root ++ " ~ ~ ~ " ++ (Tag.compound [("Tags",
      .strings [p.tags.model, p.tags.root, newTag])]).render .compact) = false
    simp only [breaks_append, hp.rootType.breaks, breaks_render, Tag.breaks, breaksEntries, strings,
      breaksItems, List.map_cons, List.map_nil, hp.model.breaks, hp.root.breaks]
    simp [breaks, isBreak, newTag]
  | mintId =>
    change breaks ("execute store result score @s " ++ p.objectives.id ++
      " run scoreboard players add " ++ lastIdHolder ++ " " ++ p.objectives.internal ++ " 1") =
        false
    simp only [breaks_append, hid, hinternal]
    simp [breaks, isBreak, lastIdHolder]
  | run command => exact ho
  | takeId =>
    change breaks ("scoreboard players operation @s " ++ p.objectives.id ++ " = " ++
      lastIdHolder ++ " " ++ p.objectives.internal) = false
    simp only [breaks_append, hid, hinternal]
    simp [breaks, isBreak, lastIdHolder]
  | align => exact (by decide : breaks "tp @s ~ ~ ~ ~ ~" = false)
  | dropNew => exact (by decide : breaks ("tag @s remove " ++ newTag) = false)
  | killRoots =>
    change breaks ("kill " ++ selector p.types.root [p.tags.model] []) = false
    rw [breaks_append, hroots]
    decide
  | killBones =>
    change breaks ("kill " ++ selector p.types.bone [p.tags.model] []) = false
    rw [breaks_append, hbones [] (by simp)]
    decide
  | rememberId =>
    change breaks ("scoreboard players operation " ++ thisHolder ++ " " ++ p.objectives.id ++
      " = @s " ++ p.objectives.id) = false
    simp only [breaks_append, hid]
    simp [breaks, isBreak, thisHolder]
  | killRemembered =>
    change breaks ("execute as " ++ selector p.types.bone [p.tags.model]
      ["distance=.." ++ p.reach] ++ " if score @s " ++ p.objectives.id ++ " = " ++ thisHolder ++
        " " ++ p.objectives.id ++ " run kill @s") = false
    simp only [breaks_append, hbones _ (List.forall_mem_singleton.mpr p.breaks_reach), hid]
    simp [breaks, isBreak, thisHolder]
  | killSelf => exact (by decide : breaks "kill @s" = false)
  | usage function =>
    have hname : IsToken (p.project ++ ":" ++ function) :=
      (hp.project.append (List.all_eq_true.mp rfl)).append ho
    change breaks ("tellraw @s " ++ usageMessage (p.project ++ ":" ++ function) p.tags.root) = false
    rw [breaks_append, breaks_usageMessage hname hp.root]
    decide

theorem breaks_newRootHead : breaks p.newRootHead = false := by
  have hroot : breaks (selector p.types.root [p.tags.root, newTag] ["distance=..1", "limit=1"]) =
      false := by
    refine breaks_selector hp.rootType.breaks ?_ (by decide)
    exact List.forall_mem_cons.mpr ⟨hp.root.breaks, by decide⟩
  change breaks ("execute as " ++ selector p.types.root [p.tags.root, newTag]
    ["distance=..1", "limit=1"] ++ " at @s rotated ~ 0 run") = false
  simp only [breaks_append, hroot]
  simp [breaks, isBreak]

theorem breaks_newBonesHead : breaks p.newBonesHead = false := by
  have hbones : breaks (selector p.types.bone [p.tags.model, newTag]
      ["distance=.." ++ p.reach]) = false := by
    refine breaks_selector hp.boneType.breaks ?_ (List.forall_mem_singleton.mpr p.breaks_reach)
    exact List.forall_mem_cons.mpr ⟨hp.model.breaks, by decide⟩
  change breaks ("execute as " ++ selector p.types.bone [p.tags.model, newTag]
    ["distance=.." ++ p.reach] ++ " positioned as @s run") = false
  simp only [breaks_append, hbones]
  simp [breaks, isBreak]

theorem breaks_rememberedHead : breaks p.rememberedHead = false := by
  have hbones : breaks (selector p.types.display [p.tags.allBones] ["distance=.." ++ p.reach]) =
      false :=
    breaks_selector hp.displayType.breaks (List.forall_mem_singleton.mpr hp.allBones.breaks)
      (List.forall_mem_singleton.mpr p.breaks_reach)
  change breaks ("execute as " ++ selector p.types.display [p.tags.allBones]
    ["distance=.." ++ p.reach] ++ " if score @s " ++ p.objectives.id ++ " = " ++ thisHolder ++
      " " ++ p.objectives.id ++ " run") = false
  simp only [breaks_append, hbones, hp.id.breaks]
  simp [breaks, isBreak, thisHolder]

theorem breaks_rootCondition : breaks p.rootCondition = false := by
  change breaks ("if entity @s[tag=" ++ p.tags.root ++ "] at @s") = false
  simp only [breaks_append, hp.root.breaks]
  simp [breaks, isBreak]

theorem breaks_install : (texts (p.statements p.install)).any breaks = false := by
  change [p.orderText (.addObjective p.objectives.internal),
    p.orderText (.addObjective p.objectives.id)].any breaks = false
  rw [List.any_cons, List.any_cons, hp.breaks_orderText (o := .addObjective _) hp.internal.breaks,
    hp.breaks_orderText (o := .addObjective _) hp.id.breaks]
  rfl

theorem breaks_removeAll : (texts (p.statements removeAll)).any breaks = false := by
  change [p.orderText .killRoots, p.orderText .killBones].any breaks = false
  rw [List.any_cons, List.any_cons, hp.breaks_orderText (o := .killRoots) trivial,
    hp.breaks_orderText (o := .killBones) trivial]
  rfl

theorem breaks_removeThis : (texts (p.statements removeThis)).any breaks = false := by
  change [p.rootCondition, p.orderText .rememberId, p.orderText .killRemembered,
    p.orderText .killSelf, p.orderText (.usage "remove/this")].any breaks = false
  simp only [List.any_cons, List.any_nil, hp.breaks_rootCondition,
    hp.breaks_orderText (o := .rememberId) trivial,
    hp.breaks_orderText (o := .killRemembered) trivial,
    hp.breaks_orderText (o := .killSelf) trivial,
    hp.breaks_orderText (o := .usage "remove/this") (List.all_eq_true.mp rfl), Bool.or_false]

/-- What breaks a line in a function that summons a statue is a command that summons a bone. -/
theorem breaks_summon (commands : List String) :
    (texts (p.statements (summon commands))).any breaks = commands.any breaks := by
  rw [texts_summon]
  simp only [List.any_cons, List.any_append, List.any_nil, hp.breaks_newRootHead,
    hp.breaks_newBonesHead, hp.breaks_orderText (o := .summonRoot) trivial,
    hp.breaks_orderText (o := .mintId) trivial, hp.breaks_orderText (o := .takeId) trivial,
    hp.breaks_orderText (o := .align) trivial, hp.breaks_orderText (o := .dropNew) trivial,
    Bool.or_false, Bool.false_or]

theorem breaks_setVariant {variant : String} (hv : IsToken variant) (commands : List String) :
    (texts (p.statements (setVariant variant commands))).any breaks = commands.any breaks := by
  have husage : IsToken ("set_variant/" ++ variant) :=
    IsToken.append (List.all_eq_true.mp rfl) hv
  rw [texts_setVariant]
  simp only [List.any_cons, List.any_append, List.any_nil, hp.breaks_rootCondition,
    hp.breaks_rememberedHead, hp.breaks_orderText (o := .rememberId) trivial,
    hp.breaks_orderText (o := .usage _) husage, Bool.or_false, Bool.false_or]

end IsPlain

end Correlation

/-! ### The data of bones -/

namespace EntityTypes

/-- The name of the entry that says of which type an entity is, where that has to be said. -/
def riding (types : EntityTypes) : List String :=
  if types.boneDisplay.isSome then ["id"] else []

/-- The names of the entries that an export writes over, whatever the bone brings. -/
def replaced (types : EntityTypes) : List String :=
  Assoc.keys (Bone.flags true) ++ types.riding

/-- **What a bone brings that an export does not write over.** -/
def brought (types : EntityTypes) (own : Entries) : Entries :=
  own.filter fun e => e.1 ∉ types.replaced

end EntityTypes

namespace Tag

/-- Something under a name goes over a line. -/
def breaksAt (es : Entries) (k : String) : Prop :=
  ∃ t, es.lookup k = some t ∧ (Statuary.breaks k || t.breaks) = true

/-- Entries go over a line where one of them does. -/
theorem breaks_filter_iff {es : Entries} (h : (Assoc.keys es).Nodup) (names : List String) :
    (compound (es.filter fun e => e.1 ∉ names)).breaks = true ↔
      ∃ k, k ∉ names ∧ breaksAt es k := by
  rw [breaks, breaksEntries_eq, List.any_eq_true]
  constructor
  · rintro ⟨⟨k, t⟩, he, hbreaks⟩
    obtain ⟨he, hk⟩ := List.mem_filter.mp he
    exact ⟨k, of_decide_eq_true hk, t, Assoc.lookup_of_mem h he, hbreaks⟩
  · rintro ⟨k, hname, t, hk, hbreaks⟩
    exact ⟨(k, t), List.mem_filter.mpr ⟨Assoc.mem_of_lookup hk, decide_eq_true hname⟩, hbreaks⟩

theorem breaksAt_congr {es fs : Entries} {k : String} (h : es.lookup k = fs.lookup k) :
    breaksAt es k ↔ breaksAt fs k := by
  rw [breaksAt, breaksAt, h]

/-- What stands under a name where nothing goes over a line. -/
theorem not_breaksAt {es : Entries} {k : String} {t : Tag} (hk : es.lookup k = some t)
    (hkey : Statuary.breaks k = false) (ht : t.breaks = false) : ¬ breaksAt es k := by
  rintro ⟨u, hu, hbreaks⟩
  rw [hk, Option.some.injEq] at hu
  subst hu
  rw [hkey, ht] at hbreaks
  cases hbreaks

theorem breaksAt_iff {es : Entries} {k : String} {t : Tag} (hk : es.lookup k = some t)
    (hkey : Statuary.breaks k = false) : breaksAt es k ↔ t.breaks = true := by
  constructor
  · rintro ⟨u, hu, hbreaks⟩
    rw [hk, Option.some.injEq] at hu
    rwa [hu, ← Bool.false_or u.breaks, ← hkey]
  · intro ht
    exact ⟨t, hk, by rw [ht, Bool.or_true]⟩

end Tag

section Data

variable {b : Bone} {tags : Tags} {s : Settings}

/-- A flag under its name is a number. -/
theorem not_breaksAt_flag {c : Entries} (h : b.payload tags s = .ok c) {k : String}
    (hk : k ∈ Assoc.keys (Bone.flags true)) : ¬ breaksAt c k := by
  obtain ⟨own, items, pose, -, -, -, rfl⟩ := Bone.payload_eq_ok.mp h
  have hnumber : ∃ t, (Bone.flagged s (b.dressed tags s own items pose)).lookup k = some t ∧
      t.breaks = false := by
    simp only [Bone.flags, Assoc.keys, List.map_cons, List.map_nil, List.mem_cons,
      List.not_mem_nil, or_false] at hk
    simp only [Bone.flagged, Bone.flags, List.foldl_cons, List.foldl_nil, Assoc.lookup_put]
    rcases hk with rfl | rfl | rfl | rfl
    all_goals exact ⟨_, rfl, rfl⟩
  have hnames : ∀ k ∈ Assoc.keys (Bone.flags true), breaks k = false := by decide
  have hkey : breaks k = false := hnames k hk
  obtain ⟨t, ht, hnone⟩ := hnumber
  exact not_breaksAt ht hkey hnone

theorem breaks_pose (b : Bone) (pose : Entries) :
    (compound (Assoc.putNew "Head" b.headPose pose)).breaks = (compound pose).breaks := by
  rw [Assoc.putNew]
  split_ifs with hhead
  · rfl
  · have hnew : "Head" ∉ Assoc.keys pose := fun hmem => hhead (Assoc.isSome_lookup_iff.mpr hmem)
    rw [Assoc.put_of_notMem _ hnew, Tag.breaks, Tag.breaks, breaksEntries_eq, breaksEntries_eq,
      List.any_append]
    have hadded : ([("Head", b.headPose)] : Entries).any (fun e => breaks e.1 || e.2.breaks) =
        false := by
      simp [Bone.headPose, Tag.breaks, breaksItems, breaks, isBreak]
    rw [hadded, Bool.or_false]

theorem breaks_ownTags {own : Entries} {items : List Tag} (h : b.ownTags own = .ok items) :
    (items.any Tag.breaks = true) ↔ breaksAt own "Tags" := by
  rw [Bone.ownTags] at h
  split at h
  · rename_i hlookup
    cases h
    refine ⟨fun h => absurd h Bool.false_ne_true, ?_⟩
    rintro ⟨t, ht, -⟩
    rw [hlookup] at ht
    cases ht
  · rename_i hlookup
    split_ifs at h
    cases h
    rw [breaksAt_iff hlookup (by decide), Tag.breaks, breaksItems_eq]
  · cases h

theorem breaks_ownPose {own pose : Entries} (h : b.ownPose own = .ok pose) :
    ((compound pose).breaks = true) ↔ breaksAt own "Pose" := by
  rw [Bone.ownPose] at h
  split at h
  · rename_i hlookup
    cases h
    refine ⟨fun h => absurd h Bool.false_ne_true, ?_⟩
    rintro ⟨t, ht, -⟩
    rw [hlookup] at ht
    cases ht
  · rename_i hlookup
    cases h
    rw [breaksAt_iff hlookup (by decide)]
  · cases h

/-- **An export brings no line break**: where it does not write over what a bone brings, the data
goes over a line exactly where the bone brought that. -/
theorem breaksAt_payload {own c : Entries} (h : b.payload tags s = .ok c)
    (hown : parseCompound b.nbt = .ok own) (htags : ∀ t ∈ b.addedTags tags, breaks t = false)
    (hitem : breaks s.rigItem = false) {k : String}
    (hk : k ∉ Assoc.keys (Bone.flags true)) : breaksAt c k ↔ breaksAt own k := by
  obtain ⟨own', items, pose, hown', hitems, hpose, hc⟩ := Bone.payload_eq_ok.mp h
  obtain rfl : own = own' := Except.ok.inj (hown.symm.trans hown')
  by_cases hkTags : k = "Tags"
  · subst hkTags
    have hlookup : c.lookup "Tags" =
        some (.list .string (items ++ (b.addedTags tags).map .string)) := by
      rw [hc, Bone.lookup_flagged s (by decide), Bone.dressed, Assoc.lookup_putNew,
        if_neg (by decide), Assoc.lookup_put, if_neg (by decide), Assoc.lookup_put, if_pos rfl]
    have hadded : ((b.addedTags tags).map Tag.string).any Tag.breaks = false := by
      rw [List.any_map, List.any_eq_false]
      intro t ht
      rw [Function.comp_apply, Tag.breaks, htags t ht]
      exact Bool.false_ne_true
    rw [← breaks_ownTags hitems, breaksAt_iff hlookup (by decide), Tag.breaks, breaksItems_eq,
      List.any_append, hadded, Bool.or_false]
  by_cases hkPose : k = "Pose"
  · subst hkPose
    have hlookup := Bone.lookup_pose b tags s own items pose
    rw [← hc] at hlookup
    rw [← breaks_ownPose hpose, breaksAt_iff hlookup (by decide), breaks_pose]
  by_cases hkArmor : k = "ArmorItems"
  · subst hkArmor
    have hlookup : c.lookup "ArmorItems" =
        some ((own.lookup "ArmorItems").getD (Bone.defaultArmor s.rigItem)) := by
      rw [hc, Bone.lookup_flagged s (by decide), Bone.dressed, Assoc.lookup_putNew, if_pos rfl,
        Assoc.lookup_put, if_neg (by decide), Assoc.lookup_put, if_neg (by decide)]
      cases own.lookup "ArmorItems" <;> rfl
    cases hbrought : own.lookup "ArmorItems" with
    | some t =>
      rw [hbrought] at hlookup
      exact breaksAt_congr (hlookup.trans hbrought.symm)
    | none =>
      rw [hbrought] at hlookup
      have hnone : (Bone.defaultArmor s.rigItem).breaks = false := by
        simp only [Bone.defaultArmor, Tag.breaks, breaksItems, breaksEntries, hitem]
        simp [breaks, isBreak, placeholder]
      refine iff_of_false (not_breaksAt hlookup (by decide) hnone) ?_
      rintro ⟨t, ht, -⟩
      rw [hbrought] at ht
      cases ht
  · refine breaksAt_congr (Bone.lookup_payload h hown ?_ hk)
    simp only [List.mem_cons, List.not_mem_nil, or_false, not_or]
    exact ⟨hkTags, hkPose, hkArmor⟩

end Data

/-- The type of a rider is on one line. -/
theorem breaks_worn_eq {types : EntityTypes} (htypes : ∀ d ∈ types.boneDisplay, breaks d = false)
    {c : Entries} (h : (Assoc.keys c).Nodup) : (compound (types.worn c)).breaks =
      (compound (c.filter fun e => e.1 ∉ types.riding)).breaks := by
  rw [types.worn_eq h, EntityTypes.riding]
  cases hdisplay : types.boneDisplay with
  | none =>
    have hkeep : (c.filter fun e => e.1 ∉ if (none : Option String).isSome then ["id"] else []) =
        c := List.filter_eq_self.mpr fun e _ => by simp
    rw [hkeep]
  | some display =>
    have hfilter : (c.filter fun e => e.1 ∉ if (some display).isSome then ["id"] else []) =
        c.filter (·.1 ≠ "id") := List.filter_congr fun e _ => by simp
    have hrider : (breaks "id" || (Tag.string display).breaks) = false := by
      rw [Tag.breaks, htypes display hdisplay]
      decide
    rw [hfilter, Tag.breaks, breaksEntries_eq, List.any_cons, hrider, Bool.false_or, Tag.breaks,
      breaksEntries_eq]

/-! ### Commands of bones -/

theorem breaks_boneDisplay (s : Settings) : ∀ d ∈ s.entityTypes.boneDisplay, breaks d = false := by
  intro d hd
  refine (isToken_of_mem_entityTypes (EntityTypes.ofBoneType_members s.project s.rootEntityType
    s.boneType d ?_)).breaks
  exact List.mem_cons_of_mem _ (Option.mem_toList.mpr hd)

namespace Bone

section Command

variable {b : Bone} {s : Settings} {own c : Entries} (hs : s.Accepted) (hname : IsToken b.name)
  (h : b.payload s.tags s = .ok c) (hown : parseCompound b.nbt = .ok own)

include hs hname h hown

/-- The data of the entity that wears the model goes over a line exactly if the bone brought that.
-/
theorem breaks_worn :
    (compound (s.entityTypes.worn c)).breaks = (compound (s.entityTypes.brought own)).breaks := by
  have hnodup := (isWellFormed_compound.mp (isWellFormed_of_parseCompound hown)).1
  have htags : ∀ t ∈ b.addedTags s.tags, breaks t = false := by
    simp only [addedTags, List.forall_mem_cons]
    exact ⟨by decide, hs.isToken_model.breaks, hs.isToken_allBones.breaks,
      (hs.isToken_bone hname).breaks, fun _ ht => absurd ht List.not_mem_nil⟩
  have hitem := (isToken_of_isResource hs.rigItem).breaks
  rw [breaks_worn_eq (breaks_boneDisplay s) (nodup_keys_payload h), Bool.eq_iff_iff,
    breaks_filter_iff (nodup_keys_payload h), EntityTypes.brought, breaks_filter_iff hnodup]
  refine exists_congr fun k => ?_
  rw [EntityTypes.replaced, List.mem_append, not_or]
  constructor
  · rintro ⟨hriding, hbreaks⟩
    have hflag : k ∉ Assoc.keys (flags true) := fun hk => not_breaksAt_flag h hk hbreaks
    exact ⟨⟨hflag, hriding⟩, (breaksAt_payload h hown htags hitem hflag).mp hbreaks⟩
  · rintro ⟨⟨hflag, hriding⟩, hbreaks⟩
    exact ⟨hriding, (breaksAt_payload h hown htags hitem hflag).mpr hbreaks⟩

/-- **The command that summons a bone goes over a line exactly if the bone brought that.** -/
theorem breaks_summonCommand (offset : Double) :
    breaks (b.summonCommand c s.tags s.entityTypes offset) =
      (compound (s.entityTypes.brought own)).breaks := by
  have hroot : breaks s.entityTypes.boneRoot = false :=
    (isToken_of_mem_entityTypes (EntityTypes.ofBoneType_members s.project s.rootEntityType
      s.boneType _ (List.mem_cons_self ..))).breaks
  have hcoordinate : ∀ x, breaks (coordinate x) = false := fun x =>
    IsToken.breaks fun c hc => isTokenChar_of_isBareChar (isBareChar_of_mem_coordinate hc)
  have hhead : breaks (b.summonHead s.entityTypes offset) = false := by
    change breaks ("summon " ++ s.entityTypes.boneRoot ++ " " ++ ("^" ++ coordinate b.pos.x ++
      " ^" ++ coordinate (b.pos.y.add offset) ++ " ^" ++ coordinate b.pos.z) ++ " ") = false
    simp only [breaks_append, hroot, hcoordinate]
    simp [breaks, isBreak]
  have hmount : (b.mount s.tags).any (fun e => breaks e.1 || e.2.breaks) = false := by
    simp only [mount, List.any_cons, List.any_nil, Tag.breaks, strings, breaksItems_eq,
      List.map_cons, List.map_nil, hs.isToken_model.breaks, (hs.isToken_bone hname).breaks]
    simp [breaks, isBreak, newTag]
  have hsummoned : (b.summoned s.tags s.entityTypes
      (compound (s.entityTypes.worn c))).breaks = (compound (s.entityTypes.worn c)).breaks := by
    rw [summoned]
    split
    · rfl
    · have hkey : breaks "Passengers" = false := by decide
      rw [Tag.breaks, breaksEntries_eq, List.any_append, hmount, Bool.false_or, List.any_cons,
        List.any_nil, Bool.or_false, hkey, Bool.false_or]
      change (breaksItems [compound (s.entityTypes.worn c)]) = _
      rw [breaksItems_eq, List.any_cons, List.any_nil, Bool.or_false]
  change breaks (b.summonHead s.entityTypes offset ++
    (b.summonTag c s.tags s.entityTypes).render .compact) = _
  rw [breaks_append, hhead, Bool.false_or, breaks_render, summonTag_eq, hsummoned,
    breaks_worn hs hname h hown]

end Command

/-- The command that gives a bone its model is on one line. -/
theorem breaks_modelCommand {b : Bone} {s : Settings} (hs : s.Accepted) (hname : IsToken b.name)
    (v : Variant) : breaks (b.modelCommand s.tags v) = false := by
  have hnumber : breaks (toString (b.modelIn v).toInt) = false := breaks_toString _
  change breaks ("data modify entity @s[tag=" ++ s.tags.bone b.name ++
    "] ArmorItems[-1].tag.CustomModelData set value " ++ toString (b.modelIn v).toInt) = false
  simp only [breaks_append, (hs.isToken_bone hname).breaks, hnumber]
  simp [breaks, isBreak]

end Bone

/-! ### The program -/

namespace Build

variable {s : Settings} {r : Rig} {summons : List (Bone × String)}

/-- The functions that change the variant of a statue which stands. -/
def changes (s : Settings) (r : Rig) : List (List String × List Statement) :=
  if r.touchesAny then
    r.variants.map fun v => (["set_variant", v.name], (correlation s r).statements
      (Correlation.setVariant v.name (modelCommands r s.tags v)))
  else []

theorem functions_statue (s : Settings) (r : Rig) (summons : List (Bone × String)) :
    (statue s r summons).functions =
      [(["install"], (correlation s r).statements (correlation s r).install),
        (["remove", "all"], (correlation s r).statements Correlation.removeAll),
        (["remove", "this"], (correlation s r).statements Correlation.removeThis)] ++
      (r.variants.map fun v => (["summon", v.name], (correlation s r).statements
        (Correlation.summon (summonsIn summons v)))) ++ changes s r := by
  rw [Program.functions, statue, functionsIn_append, changes]
  dsimp only
  simp only [functionsIn, functionsOf, functionsIn_map, List.append_nil, List.nil_append,
    List.cons_append]
  split_ifs
  · simp only [functionsIn, functionsOf, functionsIn_map, List.append_nil]
    rfl
  · rfl

/-- **Which summon commands are on one line each**: those of bones that bring no line break. -/
theorem breaks_summons (hs : s.Accepted) {bones : List Bone} (hbones : ∀ b ∈ bones, IsToken b.name)
    (h : Build.summons s bones = .ok summons) :
    (∀ p ∈ summons, breaks p.2 = false) ↔ ∀ b ∈ bones, ∃ own, parseCompound b.nbt = .ok own ∧
      (compound (s.entityTypes.brought own)).breaks = false := by
  -- bones and commands are made one from the other, in order
  have hpairs := forall₂_of_mapM h
  clear h
  induction hpairs with
  | nil => simp
  | @cons b p bones summons hp _ ih =>
    obtain ⟨hname, hbones⟩ := List.forall_mem_cons.mp hbones
    obtain ⟨payload, hpayload, hp⟩ := bind_eq_ok.mp hp
    cases hp
    obtain ⟨own, items, pose, hown, -⟩ := Bone.payload_eq_ok.mp hpayload
    rw [List.forall_mem_cons, List.forall_mem_cons,
      Bone.breaks_summonCommand hs hname hpayload hown]
    refine and_congr ⟨fun hb => ⟨own, hown, hb⟩, ?_⟩ (ih hbones)
    rintro ⟨own', hown', hb⟩
    rwa [Except.ok.inj (hown.symm.trans hown')]

/-- Filling in the models leaves the line breaks of the summon commands as they are. -/
theorem breaks_summonsIn (v : Variant) :
    (summonsIn summons v).any breaks = summons.any fun p => breaks p.2 := by
  rw [summonsIn, List.any_map]
  refine any_congr_of_mem fun p _ => ?_
  exact breaks_substituteFirst (by decide) (breaks_toString _) p.2

/-- **What breaks a line in a program is the summon command of a bone.** -/
theorem breaks_statue (hs : s.Accepted) (hr : r.variants ≠ [])
    (hvariants : ∀ v ∈ r.variants, IsToken v.name)
    (hbones : ∀ b ∈ r.exportedBones, IsToken b.name) :
    (statue s r summons).texts.any breaks = summons.any fun p => breaks p.2 := by
  have hp := isPlain_correlation hs r
  have hchanges : (changes s r).any (fun f => (texts f.2).any breaks) = false := by
    rw [changes]
    split_ifs
    · rw [List.any_map, List.any_eq_false]
      intro v hv
      rw [Function.comp_apply, hp.breaks_setVariant (hvariants v hv), modelCommands, List.any_map]
      rw [Bool.not_eq_true, List.any_eq_false]
      intro b hb
      rw [Function.comp_apply, Bone.breaks_modelCommand hs
        (hbones b (List.mem_of_mem_filter hb)) v]
      exact Bool.false_ne_true
    · rfl
  have hsummon : (r.variants.map fun v => ((["summon", v.name] : List String),
      (correlation s r).statements (Correlation.summon (summonsIn summons v)))).any
        (fun f => (texts f.2).any breaks) = summons.any fun p => breaks p.2 := by
    obtain ⟨v, vs, hvs⟩ := List.exists_cons_of_ne_nil hr
    have hall : ∀ w ∈ r.variants, ((fun f : List String × List Statement =>
        (texts f.2).any breaks) ∘ fun v => (["summon", v.name],
          (correlation s r).statements (Correlation.summon (summonsIn summons v)))) w =
        summons.any fun p => breaks p.2 := fun w _ => by
      rw [Function.comp_apply, hp.breaks_summon, breaks_summonsIn]
    rw [List.any_map, any_congr_of_mem hall, hvs, List.any_cons]
    cases summons.any fun p => breaks p.2
    · simp
    · rfl
  rw [Program.texts, functions_statue, List.any_flatMap, List.any_append, List.any_append, hsummon,
    hchanges, List.any_cons, List.any_cons, List.any_cons, hp.breaks_install, hp.breaks_removeAll,
    hp.breaks_removeThis]
  simp

theorem breaks_names (hvariants : ∀ v ∈ r.variants, IsToken v.name) :
    ∀ n ∈ itemsNames (statue s r summons).items, breaks n = false := by
  have hgroup : ∀ t ∈ (correlation s r).types.group, breaks t = false := fun t ht =>
    (isToken_of_mem_entityTypes (EntityTypes.ofBoneType_members _ _ _ t ht)).breaks
  have hnames : ∀ n ∈ r.variants.map (·.name), breaks n = false :=
    List.forall_mem_map.mpr fun v hv => (hvariants v hv).breaks
  have hchanges : ∀ n ∈ itemsNames (if r.touchesAny then
      [Item.dir "set_variant" (r.variants.map fun v => .function v.name ((correlation s r).statements
        (Correlation.setVariant v.name (modelCommands r (correlation s r).tags v))))] else []),
      breaks n = false := by
    split_ifs
    · rw [itemsNames, itemNames, itemsNames_map, itemsNames, List.append_nil]
      exact List.forall_mem_cons.mpr ⟨by decide, hnames⟩
    · exact fun _ hn => absurd hn List.not_mem_nil
  rw [statue]
  dsimp only
  rw [itemsNames_append, List.forall_mem_append]
  refine ⟨?_, hchanges⟩
  have hnil : ∀ n ∈ ([] : List String), breaks n = false := fun _ hn => absurd hn List.not_mem_nil
  simp only [itemsNames, itemNames, itemsNames_map, Option.getD_some, List.forall_mem_append,
    List.forall_mem_cons]
  exact ⟨⟨by decide, hnil⟩, ⟨by decide, hgroup⟩,
    ⟨by decide, ⟨by decide, hnil⟩, ⟨by decide, hnil⟩, hnil⟩, ⟨by decide, hnames⟩, hnil⟩

end Build

theorem Export.oneLine_packOptions {s : Settings} (hs : s.Accepted) :
    (packOptions s).OneLine where
  space := (isToken_ofText _).breaks
  generated := by
    change breaks "zzz" = false
    decide
  flagObjective := (isToken_of_isObjective hs.internalObjective).breaks

/-- **Which statues have one command a line**: those whose exported bones bring no line break in a
text or name that is not written over. Their source text and the functions of their pack consist of
the lines they were made of. -/
theorem build_breaks_iff {s : Settings} {rig : Rig} {out : Build} (hs : s.validate = .ok ())
    (h : build s (some rig) = .ok out) :
    ∃ r, rig.normalize = .ok r ∧
      ((∀ t ∈ out.program.texts, breaks t = false) ↔ ∀ b ∈ r.exportedBones, ∃ own,
        parseCompound b.nbt = .ok own ∧ (compound (s.entityTypes.brought own)).breaks = false) ∧
      ((∀ t ∈ out.program.texts, breaks t = false) →
        IsLines out.program.source out.program.lines ∧
        ∀ part ∈ out.program.packParts, ∀ lines, part.lines? = some lines →
          IsLines (part.file (Export.packOptions s) out.program.header).data
            (out.program.header.map ("#" ++ ·) ++ lines.map (·.text (Export.packOptions s)))) := by
  have hs := Settings.accepted_of_validate hs
  obtain ⟨r, hr, h⟩ := bind_eq_ok.mp h
  rw [mapError_eq_ok] at hr h
  obtain ⟨summons, hsummons, h⟩ := bind_eq_ok.mp h
  cases h
  dsimp only
  have hvariants : ∀ v ∈ r.variants, IsToken v.name :=
    fun v hv => ((Rig.variants_of_normalize hr).2 v hv).1
  have hbones : ∀ b ∈ r.exportedBones, IsToken b.name :=
    fun b hb => (Rig.bones_of_normalize hr).2 b (List.mem_of_mem_filter hb)
  have hheader : ∀ t ∈ [Build.header], breaks t = false := by decide
  refine ⟨r, hr, ?_, fun htexts => ⟨?_, fun part hpart lines hlines => ?_⟩⟩
  · have hbreaks : (Build.statue s r summons).texts.any breaks = summons.any fun p => breaks p.2 :=
      Build.breaks_statue hs (Rig.variants_ne_nil hr) hvariants hbones
    have hiff : (∀ t ∈ (Build.statue s r summons).texts, breaks t = false) ↔
        ∀ p ∈ summons, breaks p.2 = false := by
      simp only [← Bool.not_eq_true]
      rw [← List.any_eq_false, ← List.any_eq_false (p := fun p : Bone × String => breaks p.2),
        hbreaks]
    rw [hiff, Build.breaks_summons hs hbones hsummons]
  · exact Program.isLines_source hheader htexts (Build.breaks_names hvariants)
  · exact Program.isLines_function hheader htexts (Export.oneLine_packOptions hs) hpart hlines

/-- A bone whose own name is on two lines. -/
def Bone.twoLined : Bone where
  name := "b"
  pos := .zero
  rot := .zero
  exported := true
  nbt := (compound [("CustomName", .string "a\nb")]).render .compact
  model := 1

/-- The rig of that bone alone has a program, and a command of it goes over a line. -/
theorem build_breaks_iff_twoLined :
    ({} : Settings).validate = .ok () ∧ ∃ out,
      build {} (some ⟨[Bone.twoLined], .zero false, [], []⟩) = .ok out ∧
      ∃ t ∈ out.program.texts, breaks t = true := by
  have hown : parseCompound Bone.twoLined.nbt = .ok [("CustomName", .string "a\nb")] :=
    parseCompound_render .compact rfl
  have hnormal : Rig.normalize ⟨[Bone.twoLined], .zero false, [], []⟩ =
      .ok ⟨[Bone.twoLined], .zero false, [Rig.defaultVariant], []⟩ := rfl
  obtain ⟨out, hout⟩ := exists_build (s := {}) hnormal (List.forall_mem_singleton.mpr
    ⟨_, Bone.payload_eq_ok.mpr ⟨_, [], [], hown, rfl, rfl, rfl⟩⟩)
  refine ⟨Settings.validate_default, out, hout, ?_⟩
  obtain ⟨r, hr, hiff, -⟩ := build_breaks_iff Settings.validate_default hout
  obtain rfl := Except.ok.inj (hr.symm.trans hnormal)
  by_contra hnone
  have hall : ∀ t ∈ out.program.texts, breaks t = false := fun t ht =>
    Bool.eq_false_iff.mpr fun hbreaks => hnone ⟨t, ht, hbreaks⟩
  obtain ⟨own, hown', hbrought⟩ := hiff.mp hall Bone.twoLined (List.mem_singleton_self _)
  obtain rfl := Except.ok.inj (hown'.symm.trans hown)
  exact absurd hbrought (by decide)

end Statuary
