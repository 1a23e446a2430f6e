import Statuary.Proofs.Correlation.Steps
import Statuary.Proofs.Game.Command
import Statuary.Proofs.Tag.RoundTrip

/-!
# What the texts of a statue are read as

Every step of a statue has a text, and here each of these texts is read. **Nothing is lost and
nothing is added**: the names in a text stand for themselves, so the words and the selectors are
found as they were put together, the distance is read as the number it was written from
(`Statuary.readFilter_within`), and the data of a root gives the tags that were written into it.
-/

namespace Statuary

/-- Words and then a text are read one after the other. -/
theorem words_append {ws : List String} (hne : ws ≠ []) (h : ∀ w ∈ ws, ' ' ∉ w.toList)
    (text : String) : words (unwords ws ++ " " ++ text) = ws ++ words text := by
  rw [words, show " " = String.singleton ' ' from rfl, cutAt_append]
  exact congrArg (· ++ cutAt ' ' text) (words_unwords hne h)

/-- A text that is put together from words without blanks has these words. -/
theorem words_eq {ws : List String} {text : String} (hne : ws ≠ [])
    (h : ∀ w ∈ ws, ' ' ∉ w.toList) (htext : text = unwords ws) : words text = ws :=
  htext ▸ words_unwords hne h

theorem IsToken.notMem_blank {s : String} (h : IsToken s) : ' ' ∉ s.toList :=
  h.notMem rfl

theorem IsToken.notMem_comma {s : String} (h : IsToken s) : ',' ∉ s.toList :=
  h.notMem rfl

namespace Correlation

variable {p : Correlation}

/-! ### Selectors -/

section Selector

variable {type : String} {tags more : List String} (htype : IsToken type)
  (htags : ∀ t ∈ tags, IsToken t)

include htype htags

/-- The filters of a selector hold no character that its names do not hold. -/
theorem notMem_filters {c : Char} (hc : isTokenChar c = false)
    (hplain : c ∉ "type=".toList ∧ c ∉ "tag=".toList) (hmore : ∀ m ∈ more, c ∉ m.toList) :
    ∀ x ∈ ("type=" ++ type) :: tags.map ("tag=" ++ ·) ++ more, c ∉ x.toList := by
  have hnot : ∀ {a b : String}, c ∉ a.toList → c ∉ b.toList → c ∉ (a ++ b).toList :=
    fun ha hb => by simp [ha, hb]
  refine List.forall_mem_append.mpr ⟨List.forall_mem_cons.mpr
    ⟨hnot hplain.1 (htype.notMem hc), List.forall_mem_map.mpr fun t ht => ?_⟩, hmore⟩
  exact hnot hplain.2 ((htags t ht).notMem hc)

/-- A selector is one word. -/
theorem notMem_blank_selector (hmore : ∀ m ∈ more, ' ' ∉ m.toList) :
    ' ' ∉ (selector type tags more).toList := by
  have hfilters : ' ' ∉ (",".intercalate
      (("type=" ++ type) :: tags.map ("tag=" ++ ·) ++ more)).toList := by
    rw [String.toList_intercalate]
    exact notMem_intercalate (by decide)
      (List.forall_mem_map.mpr (notMem_filters htype htags rfl (by decide) hmore))
  rw [selector, String.toList_append, String.toList_append, List.mem_append, List.mem_append,
    not_or, not_or]
  exact ⟨⟨by decide, hfilters⟩, by decide⟩

/-- **A selector is read as it was put together.** -/
theorem readTarget_selector (hmore : ∀ m ∈ more, ',' ∉ m.toList) {filters : List Filter}
    (hread : more.mapM Filter.read? = some filters) :
    Target.read? (selector type tags more) =
      some (.all (.type type :: (tags.map .tag ++ filters))) := by
  have htagsRead : (tags.map ("tag=" ++ ·)).mapM Filter.read? = some (tags.map .tag) := by
    clear hread hmore
    induction tags with
    | nil => rfl
    | cons t ts ih =>
      obtain ⟨ht, hts⟩ := List.forall_mem_cons.mp htags
      rw [List.map_cons, List.mapM_cons, ht.readFilter_tag, ih hts]
      rfl
  have hall : (("type=" ++ type) :: tags.map ("tag=" ++ ·) ++ more).mapM Filter.read? =
      some (.type type :: (tags.map .tag ++ filters)) := by
    rw [List.cons_append, List.mapM_cons, List.mapM_append, htype.readFilter_type, htagsRead, hread]
    rfl
  have hfilters : readFilters (",".intercalate (("type=" ++ type) :: tags.map ("tag=" ++ ·) ++
      more) ++ "]").toList = some (.type type :: (tags.map .tag ++ filters)) :=
    readFilters_intercalate (List.append_ne_nil_of_left_ne_nil (List.cons_ne_nil _ _) _)
      (notMem_filters htype htags rfl (by decide) hmore) hall
  have htext : (selector type tags more).toList = '@' :: 'e' :: '[' :: (",".intercalate
      (("type=" ++ type) :: tags.map ("tag=" ++ ·) ++ more) ++ "]").toList := by
    rw [selector, String.append_assoc, String.toList_append]
    rfl
  rw [Target.read?, htext]
  simp only [hfilters, Option.map_some]

end Selector

/-! ### Who is meant -/

/-- Every root of the rig. -/
def roots (p : Correlation) : Target :=
  .all [.type p.types.root, .tag p.tags.model]

/-- Every bone of the rig. -/
def bones (p : Correlation) : Target :=
  .all [.type p.types.bone, .tag p.tags.model]

/-- The bones of the rig near by. -/
def nearBones (p : Correlation) : Target :=
  .all [.type p.types.bone, .tag p.tags.model, .within p.distance]

/-- The new root near by. -/
def newRoot (p : Correlation) : Target :=
  .all [.type p.types.root, .tag p.tags.root, .tag newTag, .within (.ofInt 1), .limit 1]

/-- The new bones near by. -/
def newBones (p : Correlation) : Target :=
  .all [.type p.types.bone, .tag p.tags.model, .tag newTag, .within p.distance]

/-- The entities near by that wear models. -/
def displays (p : Correlation) : Target :=
  .all [.type p.types.display, .tag p.tags.allBones, .within p.distance]

/-- The executing entity has the remembered number. -/
def isRemembered (p : Correlation) : Clause :=
  .ifScore (.self []) p.objectives.id (.holder thisHolder) p.objectives.id

/-! ### The distance -/

theorem notMem_comma_reach (p : Correlation) :
    ∀ m ∈ ["distance=.." ++ p.reach], ',' ∉ m.toList := by
  simp [p.isToken_reach.notMem_comma]

theorem notMem_blank_reach (p : Correlation) :
    ∀ m ∈ ["distance=.." ++ p.reach], ' ' ∉ m.toList := by
  simp [p.isToken_reach.notMem_blank]

/-- The distance is read as the number it was written from. -/
theorem mapM_readFilter_reach (p : Correlation) :
    ["distance=.." ++ p.reach].mapM Filter.read? = some [.within p.distance] := by
  rw [List.mapM_cons, reach, readFilter_within]
  rfl

theorem isToken_newTag : ∀ t ∈ [newTag], IsToken t :=
  List.forall_mem_singleton.mpr (List.all_eq_true.mp rfl)

/-! ### Orders that name nothing -/

theorem read_align : Command.read? (p.orderText .align) =
    some ⟨none, [], .bring (.self [])⟩ := by
  have hwords : words (p.orderText .align) = ["tp", "@s", "~", "~", "~", "~", "~"] :=
    words_eq (by simp) (by simp) rfl
  rw [Command.read?, hwords]
  rfl

theorem read_dropNew : Command.read? (p.orderText .dropNew) =
    some ⟨none, [], .untag (.self []) newTag⟩ := by
  have hwords : words (p.orderText .dropNew) = ["tag", "@s", "remove", newTag] :=
    words_eq (by simp) (by simp [newTag]) rfl
  rw [Command.read?, hwords]
  rfl

theorem read_killSelf : Command.read? (p.orderText .killSelf) =
    some ⟨none, [], .kill (.self [])⟩ := by
  have hwords : words (p.orderText .killSelf) = ["kill", "@s"] :=
    words_eq (by simp) (by simp) rfl
  rw [Command.read?, hwords]
  rfl

theorem words_usage (function : String) : words (p.orderText (.usage function)) =
    ["tellraw", "@s"] ++ words (usageMessage (p.project ++ ":" ++ function) p.tags.root) := by
  have htext : p.orderText (.usage function) = unwords ["tellraw", "@s"] ++ " " ++
      usageMessage (p.project ++ ":" ++ function) p.tags.root := by
    change "tellraw @s " ++ _ = _
    apply String.toList_inj.mp
    simp [unwords]
  rw [htext, words_append (by simp) (by simp)]

theorem read_usage (function : String) :
    Command.read? (p.orderText (.usage function)) = some ⟨none, [], .tell⟩ := by
  rw [Command.read?, words_usage]
  rfl

namespace IsPlain

variable (hp : p.IsPlain)

include hp

/-- A selector by the tag of the model. -/
theorem readTarget_model {type : String} (htype : IsToken type) :
    Target.read? (selector type [p.tags.model] []) = some (.all [.type type, .tag p.tags.model]) :=
  readTarget_selector htype (List.forall_mem_singleton.mpr hp.model) (by simp) rfl

theorem readTarget_nearBones : Target.read? (selector p.types.bone [p.tags.model]
    ["distance=.." ++ p.reach]) = some p.nearBones :=
  readTarget_selector hp.boneType (List.forall_mem_singleton.mpr hp.model)
    p.notMem_comma_reach p.mapM_readFilter_reach

theorem readTarget_newRoot : Target.read? (selector p.types.root [p.tags.root, newTag]
    ["distance=..1", "limit=1"]) = some p.newRoot :=
  readTarget_selector hp.rootType (List.forall_mem_cons.mpr ⟨hp.root, isToken_newTag⟩)
    (by decide) rfl

theorem readTarget_newBones : Target.read? (selector p.types.bone [p.tags.model, newTag]
    ["distance=.." ++ p.reach]) = some p.newBones :=
  readTarget_selector hp.boneType (List.forall_mem_cons.mpr ⟨hp.model, isToken_newTag⟩)
    p.notMem_comma_reach p.mapM_readFilter_reach

theorem readTarget_displays : Target.read? (selector p.types.display [p.tags.allBones]
    ["distance=.." ++ p.reach]) = some p.displays :=
  readTarget_selector hp.displayType (List.forall_mem_singleton.mpr hp.allBones)
    p.notMem_comma_reach p.mapM_readFilter_reach

/-! ### Orders -/

theorem words_summonRoot : words (p.orderText .summonRoot) =
    ["summon", p.types.root, "~", "~", "~"] ++ words ((Tag.compound [("Tags",
      .strings [p.tags.model, p.tags.root, newTag])]).render .compact) := by
  have htext : p.orderText .summonRoot = unwords ["summon", p.types.root, "~", "~", "~"] ++ " " ++
      (Tag.compound [("Tags", .strings [p.tags.model, p.tags.root, newTag])]).render .compact := by
    change "summon " ++ p.types.root ++ " ~ ~ ~ " ++ _ = _
    apply String.toList_inj.mp
    simp [unwords]
  rw [htext, words_append (by simp) (by simp [hp.rootType.notMem_blank])]

theorem read_summonRoot : Command.read? (p.orderText .summonRoot) =
    some ⟨none, [], .summon p.types.root [p.tags.model, p.tags.root, newTag]⟩ := by
  have htags : readTags ((Tag.compound [("Tags",
      .strings [p.tags.model, p.tags.root, newTag])]).render .compact) =
        some [p.tags.model, p.tags.root, newTag] := by
    rw [readTags, Tag.parse_render]
    simp [Tag.readBack, Tag.readBackEntries, Tag.readBackItems, Tag.strings, Tag.gather, Tag.listOf,
      Tag.ofEntries, Assoc.ofList, Assoc.put, Tag.kind]
  have hwords := hp.words_summonRoot
  -- the data may have blanks of its own, so it is what is left of the words
  generalize (Tag.compound [("Tags", .strings [p.tags.model, p.tags.root, newTag])]).render
    .compact = data at htags hwords
  rw [Command.read?, hwords]
  change ((readTags (unwords (words data))).map (Action.summon p.types.root)).map _ = _
  rw [unwords_words, htags]
  rfl

theorem words_mintId : words (p.orderText .mintId) = ["execute", "store", "result", "score", "@s",
    p.objectives.id, "run", "scoreboard", "players", "add", lastIdHolder, p.objectives.internal,
    "1"] := by
  refine words_eq (by simp)
    (by simp [hp.id.notMem_blank, hp.internal.notMem_blank, lastIdHolder]) ?_
  change "execute store result score @s " ++ p.objectives.id ++
    " run scoreboard players add " ++ lastIdHolder ++ " " ++ p.objectives.internal ++ " 1" = _
  apply String.toList_inj.mp
  simp [unwords, lastIdHolder]

theorem read_mintId : Command.read? (p.orderText .mintId) =
    some ⟨some (.self [], p.objectives.id), [],
      .add (.holder lastIdHolder) p.objectives.internal 1⟩ := by
  rw [Command.read?, hp.words_mintId]
  rfl

theorem words_takeId : words (p.orderText .takeId) = ["scoreboard", "players", "operation", "@s",
    p.objectives.id, "=", lastIdHolder, p.objectives.internal] := by
  refine words_eq (by simp)
    (by simp [hp.id.notMem_blank, hp.internal.notMem_blank, lastIdHolder]) ?_
  change "scoreboard players operation @s " ++ p.objectives.id ++ " = " ++ lastIdHolder ++ " " ++
    p.objectives.internal = _
  apply String.toList_inj.mp
  simp [unwords, lastIdHolder]

theorem read_takeId : Command.read? (p.orderText .takeId) = some ⟨none, [],
    .copy (.self []) p.objectives.id (.holder lastIdHolder) p.objectives.internal⟩ := by
  rw [Command.read?, hp.words_takeId]
  rfl

theorem words_kill {type : String} (htype : IsToken type) :
    words ("kill " ++ selector type [p.tags.model] []) =
      ["kill", selector type [p.tags.model] []] := by
  have hblank : ' ' ∉ (selector type [p.tags.model] []).toList :=
    notMem_blank_selector htype (List.forall_mem_singleton.mpr hp.model) (by simp)
  refine words_eq (by simp) (by simp [hblank]) ?_
  apply String.toList_inj.mp
  simp [unwords]

/-- A command that kills what one selector finds. -/
theorem read_kill {type : String} (htype : IsToken type) :
    Command.read? ("kill " ++ selector type [p.tags.model] []) =
      some ⟨none, [], .kill (.all [.type type, .tag p.tags.model])⟩ := by
  rw [Command.read?, hp.words_kill htype]
  change ((Target.read? _).map Action.kill).map _ = _
  rw [hp.readTarget_model htype]
  rfl

theorem read_killRoots : Command.read? (p.orderText .killRoots) =
    some ⟨none, [], .kill p.roots⟩ := by
  change Command.read? ("kill " ++ selector p.types.root [p.tags.model] []) = _
  exact hp.read_kill hp.rootType

theorem read_killBones : Command.read? (p.orderText .killBones) =
    some ⟨none, [], .kill p.bones⟩ := by
  change Command.read? ("kill " ++ selector p.types.bone [p.tags.model] []) = _
  exact hp.read_kill hp.boneType

theorem words_rememberId : words (p.orderText .rememberId) = ["scoreboard", "players", "operation",
    thisHolder, p.objectives.id, "=", "@s", p.objectives.id] := by
  refine words_eq (by simp) (by simp [hp.id.notMem_blank, thisHolder]) ?_
  change "scoreboard players operation " ++ thisHolder ++ " " ++ p.objectives.id ++ " = @s " ++
    p.objectives.id = _
  apply String.toList_inj.mp
  simp [unwords, thisHolder]

theorem read_rememberId : Command.read? (p.orderText .rememberId) = some ⟨none, [],
    .copy (.holder thisHolder) p.objectives.id (.self []) p.objectives.id⟩ := by
  rw [Command.read?, hp.words_rememberId]
  rfl

theorem words_killRemembered : words (p.orderText .killRemembered) = ["execute", "as",
    selector p.types.bone [p.tags.model] ["distance=.." ++ p.reach], "if", "score", "@s",
    p.objectives.id, "=", thisHolder, p.objectives.id, "run", "kill", "@s"] := by
  have hblank : ' ' ∉ (selector p.types.bone [p.tags.model] ["distance=.." ++ p.reach]).toList :=
    notMem_blank_selector hp.boneType (List.forall_mem_singleton.mpr hp.model) p.notMem_blank_reach
  refine words_eq (by simp) (by simp [hblank, hp.id.notMem_blank, thisHolder]) ?_
  change "execute as " ++ selector p.types.bone [p.tags.model] ["distance=.." ++ p.reach] ++
    " if score @s " ++ p.objectives.id ++ " = " ++ thisHolder ++ " " ++ p.objectives.id ++
      " run kill @s" = _
  apply String.toList_inj.mp
  simp [unwords, thisHolder]

theorem read_killRemembered : Command.read? (p.orderText .killRemembered) =
    some ⟨none, [.as p.nearBones, p.isRemembered], .kill (.self [])⟩ := by
  rw [Command.read?, hp.words_killRemembered]
  change ((readClauses.push ((Target.read? _).map Clause.as) _).bind _) = _
  rw [hp.readTarget_nearBones]
  rfl

/-! ### Heads and conditions -/

theorem words_newRootHead : words p.newRootHead = ["execute", "as",
    selector p.types.root [p.tags.root, newTag] ["distance=..1", "limit=1"], "at", "@s", "rotated",
    "~", "0", "run"] := by
  have hblank : ' ' ∉ (selector p.types.root [p.tags.root, newTag]
      ["distance=..1", "limit=1"]).toList :=
    notMem_blank_selector hp.rootType (List.forall_mem_cons.mpr ⟨hp.root, isToken_newTag⟩)
      (by decide)
  refine words_eq (by simp) (by simp [hblank]) ?_
  change "execute as " ++ selector p.types.root [p.tags.root, newTag]
    ["distance=..1", "limit=1"] ++ " at @s rotated ~ 0 run" = _
  apply String.toList_inj.mp
  simp [unwords]

theorem read_newRootHead :
    readHead p.newRootHead = some [.as p.newRoot, .at (.self []), .rotated] := by
  rw [readHead_of_words hp.words_newRootHead, readClauses_as hp.readTarget_newRoot]
  rfl

theorem words_newBonesHead : words p.newBonesHead = ["execute", "as",
    selector p.types.bone [p.tags.model, newTag] ["distance=.." ++ p.reach], "positioned", "as",
    "@s", "run"] := by
  have hblank : ' ' ∉ (selector p.types.bone [p.tags.model, newTag]
      ["distance=.." ++ p.reach]).toList :=
    notMem_blank_selector hp.boneType (List.forall_mem_cons.mpr ⟨hp.model, isToken_newTag⟩)
      p.notMem_blank_reach
  refine words_eq (by simp) (by simp [hblank]) ?_
  change "execute as " ++ selector p.types.bone [p.tags.model, newTag]
    ["distance=.." ++ p.reach] ++ " positioned as @s run" = _
  apply String.toList_inj.mp
  simp [unwords]

theorem read_newBonesHead :
    readHead p.newBonesHead = some [.as p.newBones, .positioned (.self [])] := by
  rw [readHead_of_words hp.words_newBonesHead, readClauses_as hp.readTarget_newBones]
  rfl

theorem words_rememberedHead : words p.rememberedHead = ["execute", "as",
    selector p.types.display [p.tags.allBones] ["distance=.." ++ p.reach], "if", "score", "@s",
    p.objectives.id, "=", thisHolder, p.objectives.id, "run"] := by
  have hblank : ' ' ∉ (selector p.types.display [p.tags.allBones]
      ["distance=.." ++ p.reach]).toList :=
    notMem_blank_selector hp.displayType (List.forall_mem_singleton.mpr hp.allBones)
      p.notMem_blank_reach
  refine words_eq (by simp) (by simp [hblank, hp.id.notMem_blank, thisHolder]) ?_
  change "execute as " ++ selector p.types.display [p.tags.allBones]
    ["distance=.." ++ p.reach] ++ " if score @s " ++ p.objectives.id ++ " = " ++ thisHolder ++
      " " ++ p.objectives.id ++ " run" = _
  apply String.toList_inj.mp
  simp [unwords, thisHolder]

/-- A head is no command, for nothing is done in it. -/
theorem read_rememberedHead_command : Command.read? p.rememberedHead = none := by
  rw [Command.read?, hp.words_rememberedHead]
  change ((readClauses.push ((Target.read? _).map Clause.as) _).bind _) = _
  rw [hp.readTarget_displays]
  rfl

theorem words_rootCondition : words p.rootCondition =
    ["if", "entity", "@s[tag=" ++ p.tags.root ++ "]", "at", "@s"] := by
  refine words_eq (by simp) (by simp [hp.root.notMem_blank]) ?_
  change "if entity @s[tag=" ++ p.tags.root ++ "] at @s" = _
  apply String.toList_inj.mp
  simp [unwords]

theorem read_rootCondition :
    readCondition p.rootCondition =
      some [.ifEntity (.self [.tag p.tags.root]), .at (.self [])] := by
  rw [readCondition, hp.words_rootCondition]
  change (readClauses.push ((Target.read? _).map Clause.ifEntity) _).map _ = _
  rw [readTarget_selfTag hp.root]
  rfl

end IsPlain

end Correlation

end Statuary
