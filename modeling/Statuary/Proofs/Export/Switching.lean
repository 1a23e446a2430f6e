import Statuary.Proofs.Correlation.Reading
import Statuary.Proofs.Export.Summon
import Statuary.Proofs.Export.Unmarked
import Statuary.Proofs.Rig.Changes

/-!
# Changing the variant of a statue

A program has two ways to give the bones of a statue their models. The function that summons a
statue in a variant writes a model into the data of **every** bone; the function that changes the
variant of a statue which stands gives models **only to some** bones, those that some variant
changes. The second relies on what the first wrote for the others.

Both are read from their commands here: a summon command by the data that is read from it
(`Statuary.EntityTypes.modelOf?`), a command that changes a model by the tag it selects
(`Statuary.readAssignment?`). Then a statue that is summoned in one variant and changed to another
has the models of a statue summoned in the other, and where no function changes variants, there is
nothing to change (`Statuary.build_switched_eq`). Three facts carry this:

* a bone that is not changed has one model in all variants (`Statuary.Rig.Covers.modelIn_eq`);
* a changed bone gets its model also where the variant leaves the one of the rig;
* no two bones have one tag, so that a command gives its model to one bone.
-/

namespace Statuary

open Tag

/-! ### Which models are written -/

/-- The data in a summon command: what stands behind the type of the entity and its place. -/
def summonedData (command : String) : String :=
  unwords ((words command).drop 5)

/-- **The model that a command summons a bone with**, as far as the command can be read: what stands
in the slot of the entity that wears the model. -/
def EntityTypes.modelOf? (types : EntityTypes) (command : String) : Option Tag :=
  (((parse (summonedData command)).toOption).bind types.wearer).bind
    (·.follow? (modelPath ++ [.key "CustomModelData"]))

/-- A command that summons something. -/
def isSummon (command : String) : Bool :=
  (words command).head? == some "summon"

/-- **The models that a function summons the bones with**, by the names of the bones: behind the
command that summons the root there is one for each bone, in their order. -/
def summonedModels (types : EntityTypes) (bones : List Bone) (body : List Statement)
    (name : String) : Option Tag :=
  (((bones.map (·.name)).zip ((commands body).filter isSummon).tail).lookup name).bind
    types.modelOf?

/-- The place of the model in the data of an entity, as it is written in a command. -/
def modelPlace : String := "ArmorItems[-1].tag.CustomModelData"

/-- **What a command gives a model to**: the tag that it selects, and the model. -/
def readAssignment? (command : String) : Option (String × Tag) :=
  match Command.read? command with
  | some ⟨none, [], .assign (.self [.tag tag]) place model⟩ =>
    if place = modelPlace then some (tag, model) else none
  | _ => none

/-- The models after a command: the bone with the selected tag has a new one, if it was summoned. -/
def assign (tags : Tags) (models : String → Option Tag) (command : String) :
    String → Option Tag :=
  match readAssignment? command with
  | none => models
  | some (tag, model) => fun name =>
    if tags.bone name = tag then (models name).map fun _ => model else models name

/-- **The models after a function** that changes the variant. -/
def switched (tags : Tags) (body : List Statement) (models : String → Option Tag) :
    String → Option Tag :=
  (commands body).foldl (assign tags) models

/-! ### The models of summon commands -/

namespace Slotted

variable {item : String} {es : Entries} {model : Tag}

/-- The slot is read as it was filled in. -/
theorem follow?_readBack (h : Slotted item es) (hmodel : readBack model = some model) {u : Tag}
    (hu : readBack (.compound (Assoc.put armorKey (armorOf item model) es)) = some u) :
    u.follow? (modelPath ++ [.key "CustomModelData"]) = some model := by
  obtain ⟨pre, post, rfl, hpre, hpost, -⟩ := h.exists_split
  rw [Assoc.put_append_self _ _ hpre] at hu
  obtain ⟨w, hw, hchild⟩ := child?_of_readBack hpost hu
  rw [readBack_armorOf hmodel] at hw
  cases hw
  change (u.child? (.key armorKey)).bind _ = _
  rw [hchild]
  rfl

/-- Whether the data is read does not depend on what is filled in. -/
theorem isSome_readBack_put (h : Slotted item es) (hmodel : readBack model = some model) :
    (readBack (.compound (Assoc.put armorKey (armorOf item model) es))).isSome =
      (readBack (.compound es)).isSome := by
  obtain ⟨pre, post, rfl, hpre, -, -⟩ := h.exists_split
  have hread : ∀ slot, readBack slot = some slot →
      (readBack (.compound (pre ++ (armorKey, armorOf item slot) :: post))).isSome =
        ((readBackEntries pre).isSome && (readBackEntries post).isSome) := by
    intro slot hslot
    rw [readBack, readBackEntries_eq_collect, List.map_append, collect_append,
      ← readBackEntries_eq_collect, ← readBackEntries_eq_collect, readBackEntries,
      readBack_armorOf hslot]
    cases readBackEntries pre <;> cases readBackEntries post <;> rfl
  rw [Assoc.put_append_self _ _ hpre, hread model hmodel, defaultArmor_eq, hread _ rfl]

end Slotted

theorem readBack_number (n : ℤ) :
    readBack (scalar (intDigits n)) = some (scalar (intDigits n)) := by
  rw [scalar_intDigits]
  split_ifs <;> rfl

namespace Bone

/-- **The bone leaves its model to the export**: it brings no worn item, and the placeholder occurs
neither in what it brings nor in the tags it gets. -/
structure LeavesModel (b : Bone) (tags : Tags) : Prop where
  /-- It brings no worn item. -/
  bare : ∀ own, parseCompound b.nbt = .ok own → own.lookup armorKey = none
  /-- The placeholder does not occur in what it brings. -/
  clear : ∀ own, parseCompound b.nbt = .ok own → (compound own).IsClear
  /-- The placeholder does not occur in its tags. -/
  tags : ∀ x ∈ b.addedTags tags, contains placeholder x = false

variable {b : Bone} {s : Settings} {c : Entries}

theorem words_summonHead (b : Bone) (s : Settings) (offset : Double) (text : String) :
    words (b.summonHead s.entityTypes offset ++ text) =
      ["summon", s.entityTypes.boneRoot, "^" ++ coordinate b.pos.x,
        "^" ++ coordinate (b.pos.y.add offset), "^" ++ coordinate b.pos.z] ++ words text := by
  have hroot : ' ' ∉ s.entityTypes.boneRoot.toList :=
    (isToken_of_mem_entityTypes (EntityTypes.ofBoneType_members s.project s.rootEntityType
      s.boneType _ (List.mem_cons_self ..))).notMem_blank
  have hplace : ∀ x, ' ' ∉ (coordinate x).toList := fun x hmem =>
    absurd (isBareChar_of_mem_coordinate hmem) (by decide)
  have htext : b.summonHead s.entityTypes offset ++ text =
      unwords ["summon", s.entityTypes.boneRoot, "^" ++ coordinate b.pos.x,
        "^" ++ coordinate (b.pos.y.add offset), "^" ++ coordinate b.pos.z] ++ " " ++ text := by
    apply String.toList_inj.mp
    simp [summonHead, summonPlace, unwords]
  rw [htext, words_append (by simp) (by simp [hroot, hplace])]

theorem summonedData_summonHead (b : Bone) (s : Settings) (offset : Double) (text : String) :
    summonedData (b.summonHead s.entityTypes offset ++ text) = text := by
  rw [summonedData, words_summonHead]
  exact unwords_words text

/-- **A bone that leaves its model to the export is summoned with the number that is filled in**, if
its command can be read at all, and that does not depend on the number. -/
theorem exists_modelOf? (hs : s.validate = .ok ()) (h : b.payload s.tags s = .ok c)
    (hb : b.LeavesModel s.tags) : ∃ readable : Bool,
      (b.bringsHead = true ∨ b.narrows = true → readable = true) ∧ ∀ n : ℤ,
        s.entityTypes.modelOf? (substituteFirst
          (b.summonCommand c s.tags s.entityTypes s.effectiveOffset) placeholder (toString n)).1 =
          if readable then some (scalar (intDigits n)) else none := by
  obtain ⟨own, items, pose, hown, -⟩ := payload_eq_ok.mp h
  have hslot := slotted_payload h hown (hb.bare own hown)
  have hworn := hslot.worn s.entityTypes
  have hclear := marksBeside_of_isClear h hown (hb.clear own hown) hb.tags
  refine ⟨(readBack (.compound (s.entityTypes.worn c))).isSome, fun hhead => ?_, fun n => ?_⟩
  · have hwf := (isWellFormed_worn_iff h hslot.nodup s.entityTypes).mpr hhead
    obtain ⟨u, hu, -⟩ := (same_readBack_iff _).mpr hwf
    rw [hu]
    rfl
  · obtain ⟨o, ho, hwearer⟩ :=
      exists_filled_clear hslot s.entityTypes n h (Settings.marked_rigItem hs) hclear
    obtain ⟨text, hcommand, hparse⟩ :=
      exists_substituteFirst (notMem_boneRoot s) ho s.effectiveOffset
    rw [hcommand, EntityTypes.modelOf?, summonedData_summonHead, hparse, hwearer,
      ← hworn.isSome_readBack_put (readBack_number n)]
    cases hread : readBack (.compound (Assoc.put armorKey (armorOf s.rigItem
        (scalar (intDigits n))) (s.entityTypes.worn c))) with
    | none => rfl
    | some u => exact hworn.follow?_readBack (readBack_number n) hread

end Bone

/-! ### The models of a summoned statue -/

theorem commands_append (xs ys : List Statement) :
    commands (xs ++ ys) = commands xs ++ commands ys := by
  induction xs with
  | nil => rfl
  | cons x xs ih => rw [List.cons_append, commands, commands, ih, List.append_assoc]

theorem commands_lines (texts : List String) : commands (texts.map .line) = texts := by
  induction texts with
  | nil => rfl
  | cons c cs ih =>
    rw [List.map_cons, commands, ih]
    rfl

namespace Correlation

variable {p : Correlation}

/-- **Which commands of a function summon**: one for the root, and those it was given. -/
theorem filter_isSummon (hp : p.IsPlain) {texts : List String}
    (h : ∀ c ∈ texts, isSummon c = true) :
    (commands (p.statements (summon texts))).filter isSummon =
      p.orderText .summonRoot :: texts := by
  have hcommands : commands (p.statements (summon texts)) =
      p.orderText .summonRoot :: p.newRootHead :: p.orderText .mintId :: (texts ++
        [p.newBonesHead, p.orderText .takeId, p.orderText .align, p.orderText .dropNew,
          p.orderText .dropNew]) := by
    rw [statements_summon]
    simp [commands, statementCommands, commands_append, commands_lines]
  have hroot : isSummon (p.orderText .summonRoot) = true := by
    rw [isSummon, hp.words_summonRoot]
    rfl
  have hothers : ∀ c ∈ [p.newRootHead, p.orderText .mintId, p.newBonesHead, p.orderText .takeId,
      p.orderText .align, p.orderText .dropNew], isSummon c = false := by
    have halign : isSummon "tp @s ~ ~ ~ ~ ~" = false := by decide
    have hdrop : isSummon ("tag @s remove " ++ newTag) = false := by decide
    simp only [List.forall_mem_cons]
    refine ⟨?_, ?_, ?_, ?_, halign, hdrop, fun _ hc => absurd hc List.not_mem_nil⟩
    · rw [isSummon, hp.words_newRootHead]
      rfl
    · rw [isSummon, hp.words_mintId]
      rfl
    · rw [isSummon, hp.words_newBonesHead]
      rfl
    · rw [isSummon, hp.words_takeId]
      rfl
  simp only [List.forall_mem_cons] at hothers
  obtain ⟨hnewRoot, hmint, hnewBones, htake, halign, hdrop, -⟩ := hothers
  rw [hcommands, List.filter_cons_of_pos hroot]
  simp [hnewRoot, hmint, hnewBones, htake, halign, hdrop, List.filter_eq_self.mpr h]

end Correlation

theorem Bone.isSummon_substituted (b : Bone) (s : Settings) (c : Entries) (expr : String) :
    isSummon (substituteFirst (b.summonCommand c s.tags s.entityTypes s.effectiveOffset)
      placeholder expr).1 = true := by
  obtain ⟨text, htext⟩ := Bone.exists_append_substituteFirst (notMem_boneRoot s) c s.tags
    s.effectiveOffset expr (b := b)
  rw [htext, isSummon, Bone.words_summonHead]
  rfl

/-- In two lists that belong together, nothing stands alone. -/
theorem exists_of_mem_right {α β : Type} {R : α → β → Prop} {xs : List α} {ys : List β}
    (h : List.Forall₂ R xs ys) {y : β} (hy : y ∈ ys) : ∃ x, R x y := by
  induction h with
  | nil => cases hy
  | cons hxy _ ih =>
    rcases List.mem_cons.mp hy with rfl | hy
    · exact ⟨_, hxy⟩
    · exact ih hy

/-- In two lists that belong together, each name leads to what belongs to it. -/
theorem exists_lookup_zip {α β : Type} {R : α → β → Prop} {key : α → String} {xs : List α}
    {ys : List β} (h : List.Forall₂ R xs ys) (hnodup : (xs.map key).Nodup) {x : α} (hx : x ∈ xs) :
    ∃ y, R x y ∧ ((xs.map key).zip ys).lookup (key x) = some y := by
  induction h with
  | nil => cases hx
  | @cons a b xs ys hab _ ih =>
    obtain ⟨hnew, hnodup⟩ := List.nodup_cons.mp hnodup
    rcases List.mem_cons.mp hx with rfl | hx
    · exact ⟨b, hab, List.lookup_cons_self⟩
    · obtain ⟨y, hy, hlookup⟩ := ih hnodup hx
      have hne : key x ≠ key a := fun he => hnew (List.mem_map.mpr ⟨x, hx, he⟩)
      refine ⟨y, hy, ?_⟩
      rw [List.map_cons, List.zip_cons_cons, List.lookup_cons, beq_eq_false_iff_ne.mpr hne]
      exact hlookup

namespace Build

variable {s : Settings} {r : Rig} {summons : List (Bone × String)}

/-- The commands of a variant, each with its bone. -/
theorem forall₂_summonsIn {bones : List Bone} (h : Build.summons s bones = .ok summons)
    (v : Variant) : List.Forall₂ (fun b command => ∃ c, b.payload s.tags s = .ok c ∧
      command = (substituteFirst (b.summonCommand c s.tags s.entityTypes s.effectiveOffset)
        placeholder (toString (b.modelIn v).toInt)).1) bones (summonsIn summons v) := by
  rw [summonsIn, List.forall₂_map_right_iff]
  refine (forall₂_of_mapM h).imp fun b q hq => ?_
  obtain ⟨c, hc, hq⟩ := bind_eq_ok.mp hq
  cases hq
  exact ⟨c, hc, rfl⟩

theorem isSummon_of_mem_summonsIn {bones : List Bone} (h : Build.summons s bones = .ok summons)
    (v : Variant) : ∀ command ∈ summonsIn summons v, isSummon command = true := by
  intro command hcommand
  obtain ⟨b, c, -, rfl⟩ := exists_of_mem_right (forall₂_summonsIn h v) hcommand
  exact b.isSummon_substituted s c _

/-- **The model that a bone is summoned with**: the number of the variant, if the command of the
bone can be read. -/
theorem exists_summonedModels (hs : s.validate = .ok ()) (hnodup : (r.bones.map (·.name)).Nodup)
    (h : Build.summons s r.exportedBones = .ok summons) {b : Bone} (hb : b ∈ r.exportedBones)
    (hleaves : b.LeavesModel s.tags) : ∃ readable : Bool,
      (b.bringsHead = true ∨ b.narrows = true → readable = true) ∧ ∀ v : Variant,
        summonedModels s.entityTypes r.exportedBones
          ((correlation s r).statements (Correlation.summon (summonsIn summons v))) b.name =
          if readable then some (scalar (intDigits (b.modelIn v).toInt)) else none := by
  have hexported : (r.exportedBones.map (·.name)).Nodup :=
    hnodup.sublist (List.filter_sublist.map _)
  have hplain := isPlain_correlation (Settings.accepted_of_validate hs) r
  obtain ⟨q, hq, -⟩ := exists_lookup_zip (forall₂_of_mapM h) hexported hb
  obtain ⟨c, hc, -⟩ := bind_eq_ok.mp hq
  obtain ⟨readable, hreadable, hmodel⟩ := Bone.exists_modelOf? hs hc hleaves
  refine ⟨readable, hreadable, fun v => ?_⟩
  obtain ⟨command, ⟨c', hc', rfl⟩, hlookup⟩ :=
    exists_lookup_zip (forall₂_summonsIn h v) hexported hb
  obtain rfl : c = c' := Except.ok.inj (hc.symm.trans hc')
  rw [summonedModels, Correlation.filter_isSummon hplain (isSummon_of_mem_summonsIn h v),
    List.tail_cons, hlookup, Option.bind_some]
  exact hmodel _

end Build

/-! ### The models of a changed statue -/

theorem words_model {tag text : String} (htag : IsToken tag) (htext : ' ' ∉ text.toList) :
    words ("data modify entity @s[tag=" ++ tag ++
      "] ArmorItems[-1].tag.CustomModelData set value " ++ text) =
      ["data", "modify", "entity", "@s[tag=" ++ tag ++ "]", modelPlace, "set", "value", text] := by
  refine words_eq (by simp) (by simp [htag.notMem_blank, htext, modelPlace]) ?_
  apply String.toList_inj.mp
  simp [unwords, modelPlace]

/-- A command that changes the model of the entity with a tag. -/
theorem read_model {tag text : String} {model : Tag} (htag : IsToken tag)
    (htext : ' ' ∉ text.toList) (hparse : (parse text).toOption = some model) :
    Command.read? ("data modify entity @s[tag=" ++ tag ++
      "] ArmorItems[-1].tag.CustomModelData set value " ++ text) =
      some ⟨none, [], .assign (.self [.tag tag]) modelPlace model⟩ := by
  rw [Command.read?, words_model htag htext]
  change ((Target.read? _).bind fun t => ((parse (unwords [text])).toOption).map
    (Action.assign t modelPlace)).map (fun a => (⟨none, [], a⟩ : Command)) = _
  rw [readTarget_selfTag htag, unwords, String.intercalate_singleton, hparse]
  rfl

theorem isToken_toString (n : ℤ) : IsToken (toString n) := by
  intro c hc
  rw [toList_toString] at hc
  exact isTokenChar_of_isBareChar ((isWord_number n).2 c hc)

theorem Bone.read_modelCommand {b : Bone} {tags : Tags} (htag : IsToken (tags.bone b.name))
    (v : Variant) : Command.read? (b.modelCommand tags v) =
      some ⟨none, [], .assign (.self [.tag (tags.bone b.name)]) modelPlace
        (scalar (intDigits (b.modelIn v).toInt))⟩ := by
  refine read_model htag (isToken_toString _).notMem_blank ?_
  rw [← String.ofList_toList (s := toString (b.modelIn v).toInt), toList_toString]
  exact (reads_word (isWord_number _)).parse

theorem Bone.readAssignment?_modelCommand {b : Bone} {tags : Tags}
    (htag : IsToken (tags.bone b.name)) (v : Variant) : readAssignment? (b.modelCommand tags v) =
      some (tags.bone b.name, scalar (intDigits (b.modelIn v).toInt)) := by
  rw [readAssignment?, Bone.read_modelCommand htag]
  exact if_pos rfl

namespace Correlation

variable {p : Correlation}

/-- What is no command that changes a model changes no model. -/
theorem switched_setVariant (hp : p.IsPlain) (variant : String) (texts : List String)
    (models : String → Option Tag) :
    switched p.tags (p.statements (setVariant variant texts)) models =
      texts.foldl (assign p.tags) models := by
  have hcommands : commands (p.statements (setVariant variant texts)) =
      p.orderText .rememberId :: p.rememberedHead ::
        (texts ++ [p.orderText (.usage ("set_variant/" ++ variant))]) := by
    rw [statements_setVariant]
    simp [commands, statementCommands, commands_lines]
  have hnone : ∀ {text}, readAssignment? text = none → ∀ m, assign p.tags m text = m :=
    fun h m => by rw [assign, h]
  have hremember : readAssignment? (p.orderText .rememberId) = none := by
    rw [readAssignment?, hp.read_rememberId]
  have husage : readAssignment? (p.orderText (.usage ("set_variant/" ++ variant))) = none := by
    rw [readAssignment?, read_usage]
  have hhead : readAssignment? p.rememberedHead = none := by
    -- nothing is done in the clauses of a head
    rw [readAssignment?, hp.read_rememberedHead_command]
  rw [switched, hcommands, List.foldl_cons, List.foldl_cons, List.foldl_append, List.foldl_cons,
    List.foldl_nil, hnone hremember, hnone hhead, hnone husage]

end Correlation

theorem assign_modelCommand {tags : Tags} (htags : Function.Injective tags.bone) {b : Bone}
    (htag : IsToken (tags.bone b.name)) (v : Variant) (models : String → Option Tag)
    (name : String) : assign tags models (b.modelCommand tags v) name =
      if name = b.name then (models name).map fun _ => scalar (intDigits (b.modelIn v).toInt)
      else models name := by
  rw [assign, Bone.readAssignment?_modelCommand htag]
  dsimp only
  by_cases hname : name = b.name
  · rw [if_pos (congrArg tags.bone hname), if_pos hname]
  · rw [if_neg (htags.ne hname), if_neg hname]

/-- A bone without a command keeps its model. -/
theorem foldl_modelCommand_of_notMem {tags : Tags} (htags : Function.Injective tags.bone)
    {bones : List Bone} (htoken : ∀ b ∈ bones, IsToken (tags.bone b.name)) (v : Variant)
    (models : String → Option Tag) {name : String} (hname : name ∉ bones.map (·.name)) :
    (bones.map (·.modelCommand tags v)).foldl (assign tags) models name = models name := by
  induction bones generalizing models with
  | nil => rfl
  | cons b bones ih =>
    obtain ⟨htag, htoken⟩ := List.forall_mem_cons.mp htoken
    obtain ⟨hne, hname⟩ := List.ne_and_not_mem_of_not_mem_cons hname
    rw [List.map_cons, List.foldl_cons, ih htoken _ hname, assign_modelCommand htags htag,
      if_neg hne]

/-- **A bone with a command has the model of the variant.** -/
theorem foldl_modelCommand {tags : Tags} (htags : Function.Injective tags.bone)
    {bones : List Bone} (htoken : ∀ b ∈ bones, IsToken (tags.bone b.name)) (v : Variant)
    (models : String → Option Tag) (hnodup : (bones.map (·.name)).Nodup) {b : Bone}
    (hb : b ∈ bones) : (bones.map (·.modelCommand tags v)).foldl (assign tags) models b.name =
      (models b.name).map fun _ => scalar (intDigits (b.modelIn v).toInt) := by
  induction bones generalizing models with
  | nil => cases hb
  | cons a bones ih =>
    obtain ⟨htag, hrest⟩ := List.forall_mem_cons.mp htoken
    obtain ⟨hnew, hnodup⟩ := List.nodup_cons.mp hnodup
    rw [List.map_cons, List.foldl_cons]
    rcases List.mem_cons.mp hb with rfl | hb
    · rw [foldl_modelCommand_of_notMem htags hrest v _ hnew, assign_modelCommand htags htag,
        if_pos rfl]
    · have hne : b.name ≠ a.name := fun he => hnew (List.mem_map.mpr ⟨b, hb, he⟩)
      rw [ih hrest _ hnodup hb, assign_modelCommand htags htag, if_neg hne]

/-! ### Changing the variant -/

namespace Build

variable {s : Settings} {r : Rig} {summons : List (Bone × String)} {v : Variant}

theorem lookup_set_variant_eq_none_iff :
    (statue s r summons).lookup "set_variant" = none ↔ r.touchesAny = false := by
  have hpath : (splitOnChar '/' "set_variant".toList).map String.ofList = ["set_variant"] := by
    decide
  rw [Program.lookup, hpath, statue]
  dsimp only
  cases r.touchesAny with
  | false => exact iff_of_true rfl rfl
  | true => exact iff_of_false (Option.some_ne_none _) Bool.noConfusion

theorem function?_set_variant (htouches : r.touchesAny = true) (hv : v ∈ r.variants)
    (hnodup : (r.variants.map (·.name)).Nodup) (hslash : '/' ∉ v.name.toList) :
    (statue s r summons).function? ("set_variant/" ++ v.name) =
      some ((correlation s r).statements
        (Correlation.setVariant v.name (modelCommands r s.tags v))) := by
  have hdir : (statue s r summons).items.find? (·.name = "set_variant") =
      some (.dir "set_variant" (r.variants.map fun w => .function w.name
        ((correlation s r).statements
          (Correlation.setVariant w.name (modelCommands r s.tags w))))) := by
    rw [statue, if_pos htouches]
    rfl
  exact Program.function?_variant hdir (by decide) hv hnodup hslash

/-- Where no bone of the statue is changed, none is. -/
theorem isTouched_of_touchesAny (htouches : r.touchesAny = false) {b : Bone}
    (hb : b ∈ r.exportedBones) : r.isTouched b.name = false := by
  obtain ⟨hb, hexported⟩ := List.mem_filter.mp hb
  have hnone := List.any_eq_false.mp htouches b hb
  rw [hexported, Bool.true_and, Bool.not_eq_true] at hnone
  exact hnone

/-- **What a function that changes the variant does to a bone of the statue**: one that is changed
gets its model in the variant, and another one keeps what it has. -/
theorem switched_modelCommands (hs : s.Accepted) (hbones : (r.bones.map (·.name)).Nodup)
    (htokens : ∀ b ∈ r.bones, IsToken b.name) (v : Variant) (models : String → Option Tag)
    {b : Bone} (hb : b ∈ r.exportedBones) :
    switched s.tags ((correlation s r).statements
      (Correlation.setVariant v.name (modelCommands r s.tags v))) models b.name =
        if r.isTouched b.name then
          (models b.name).map fun _ => scalar (intDigits (b.modelIn v).toInt)
        else models b.name := by
  have htags : Function.Injective s.tags.bone := Tags.bone_injective hs.bone_ne
  have htoken : ∀ a ∈ r.exportedBones.filter fun b => r.isTouched b.name,
      IsToken (s.tags.bone a.name) := fun a ha => hs.isToken_bone
    (htokens a (List.mem_of_mem_filter (List.mem_of_mem_filter ha)))
  refine (congrFun (Correlation.switched_setVariant (isPlain_correlation hs r) v.name
    (modelCommands r s.tags v) _) b.name).trans ?_
  change ((r.exportedBones.filter fun b => r.isTouched b.name).map
    (·.modelCommand s.tags v)).foldl (assign s.tags) _ b.name = _
  cases hchanged : r.isTouched b.name with
  | true =>
    have hnodup : ((r.exportedBones.filter fun b => r.isTouched b.name).map (·.name)).Nodup :=
      hbones.sublist ((List.filter_sublist.trans List.filter_sublist).map _)
    rw [foldl_modelCommand htags htoken v _ hnodup (List.mem_filter.mpr ⟨hb, hchanged⟩)]
    rfl
  | false =>
    have hname : b.name ∉ (r.exportedBones.filter fun b => r.isTouched b.name).map (·.name) := by
      intro hmem
      obtain ⟨a, ha, hname⟩ := List.mem_map.mp hmem
      have hchanged' := (List.mem_filter.mp ha).2
      rw [hname, hchanged] at hchanged'
      cases hchanged'
    rw [foldl_modelCommand_of_notMem htags htoken v _ hname]
    rfl

end Build

/-- **Changing the variant of a statue comes to the same as summoning it in the other variant.**
Where the rig does not say itself which bones are changed, and for bones that leave their models to
the export: a statue that is summoned in variant `u` and changed to `v` has the models of a statue
summoned in `v`; without functions that change variants, statues have the same models in all of
them. A bone whose command can be read is summoned with the number of the variant. -/
theorem build_switched_eq {s : Settings} {rig : Rig} {out : Build} (hs : s.validate = .ok ())
    (h : build s (some rig) = .ok out) (htouched : rig.touched = []) :
    ∃ r, rig.normalize = .ok r ∧ ∀ u ∈ r.variants, ∀ v ∈ r.variants, ∃ inU inV,
      out.program.function? ("summon/" ++ u.name) = some inU ∧
      out.program.function? ("summon/" ++ v.name) = some inV ∧
      (∀ b ∈ r.exportedBones, b.LeavesModel s.tags → b.bringsHead = true ∨ b.narrows = true →
        summonedModels s.entityTypes r.exportedBones inU b.name =
          some (scalar (intDigits (b.modelIn u).toInt))) ∧
      (out.program.lookup "set_variant" = none → ∀ b ∈ r.exportedBones, b.LeavesModel s.tags →
        summonedModels s.entityTypes r.exportedBones inU b.name =
          summonedModels s.entityTypes r.exportedBones inV b.name) ∧
      (out.program.lookup "set_variant" ≠ none → ∃ toV,
        out.program.function? ("set_variant/" ++ v.name) = some toV ∧
        ∀ b ∈ r.exportedBones, b.LeavesModel s.tags →
          switched s.tags toV (summonedModels s.entityTypes r.exportedBones inU) b.name =
            summonedModels s.entityTypes r.exportedBones inV b.name) := by
  obtain ⟨r, summons, hr, hsummons, hprogram⟩ := exists_statue_of_build h
  rw [hprogram]
  have accepted := Settings.accepted_of_validate hs
  obtain ⟨hvariants, hslash⟩ := Rig.variants_of_normalize hr
  obtain ⟨hbones, htokens⟩ := Rig.bones_of_normalize hr
  have hcovers : r.Covers := (Rig.covers_iff hr).mpr (.inl htouched)
  refine ⟨r, hr, fun u hu v hv => ⟨_, _, Build.function?_summon hu hvariants (hslash u hu).2,
    Build.function?_summon hv hvariants (hslash v hv).2, ?_, ?_, ?_⟩⟩
  · intro b hb hleaves hhead
    obtain ⟨readable, hreadable, hmodels⟩ :=
      Build.exists_summonedModels hs hbones hsummons hb hleaves
    rw [hmodels u, if_pos (hreadable hhead)]
  · intro hnone b hb hleaves
    have hkept := Build.isTouched_of_touchesAny (Build.lookup_set_variant_eq_none_iff.mp hnone) hb
    obtain ⟨readable, -, hmodels⟩ := Build.exists_summonedModels hs hbones hsummons hb hleaves
    rw [hmodels u, hmodels v, hcovers.modelIn_eq hkept hu, hcovers.modelIn_eq hkept hv]
  · intro hsome
    have htouches : r.touchesAny = true := by
      by_contra hnot
      exact hsome (Build.lookup_set_variant_eq_none_iff.mpr (Bool.not_eq_true _ ▸ hnot))
    refine ⟨_, Build.function?_set_variant htouches hv hvariants (hslash v hv).2, ?_⟩
    intro b hb hleaves
    obtain ⟨readable, -, hmodels⟩ := Build.exists_summonedModels hs hbones hsummons hb hleaves
    rw [Build.switched_modelCommands accepted hbones htokens v _ hb, hmodels u, hmodels v]
    cases hchanged : r.isTouched b.name with
    | true => cases readable <;> rfl
    | false =>
      rw [hcovers.modelIn_eq hchanged hu, hcovers.modelIn_eq hchanged hv]
      rfl

/-- A rig of one bone, which has another model in one of two variants. -/
def Rig.twofold : Rig where
  bones := [⟨"b", .zero, .zero, true, "", 1⟩]
  maxDistance := .zero false
  variants := [⟨"day", []⟩, ⟨"night", [("b", 2)]⟩]
  touched := []

/-- The bone of that rig, summoned by day with the one model, has the other one at night. -/
theorem build_switched_eq_twofold :
    ({} : Settings).validate = .ok () ∧ ∃ out r inDay toNight,
      build {} (some Rig.twofold) = .ok out ∧ Rig.twofold.normalize = .ok r ∧
      out.program.function? ("summon/" ++ "day") = some inDay ∧
      out.program.function? ("set_variant/" ++ "night") = some toNight ∧
      summonedModels ({} : Settings).entityTypes r.exportedBones inDay "b" = some (.int 1) ∧
      switched ({} : Settings).tags toNight
        (summonedModels ({} : Settings).entityTypes r.exportedBones inDay) "b" = some (.int 2) := by
  have hnormal : Rig.twofold.normalize = .ok { Rig.twofold with touched := ["b"] } := rfl
  have hbone : (⟨"b", .zero, .zero, true, "", 1⟩ : Bone).LeavesModel ({} : Settings).tags := by
    have hown : parseCompound "" = .ok [] := rfl
    refine ⟨fun own h => ?_, fun own h => ?_, by decide⟩
    · rw [Except.ok.inj (h.symm.trans hown)]
      rfl
    · rw [Except.ok.inj (h.symm.trans hown)]
      exact fun x hx => absurd hx List.not_mem_nil
  have hexported : ∀ b ∈ ({ Rig.twofold with touched := ["b"] } : Rig).exportedBones,
      ∃ payload, b.payload ({} : Settings).tags {} = .ok payload :=
    List.forall_mem_singleton.mpr ⟨_, Bone.payload_eq_ok.mpr ⟨[], [], [], rfl, rfl, rfl, rfl⟩⟩
  obtain ⟨out, hout⟩ := exists_build (s := {}) hnormal hexported
  obtain ⟨r, hr, hall⟩ := build_switched_eq Settings.validate_default hout rfl
  obtain rfl := Except.ok.inj (hr.symm.trans hnormal)
  have hmem : (⟨"b", .zero, .zero, true, "", 1⟩ : Bone) ∈
      ({ Rig.twofold with touched := ["b"] } : Rig).exportedBones := List.mem_singleton_self _
  have hnarrows : (⟨"b", .zero, .zero, true, "", 1⟩ : Bone).narrows = true := by decide
  have hset : out.program.lookup "set_variant" ≠ none := by
    obtain ⟨r, summons, hr', -, hprogram⟩ := exists_statue_of_build hout
    obtain rfl := Except.ok.inj (hr'.symm.trans hnormal)
    rw [hprogram, Ne, Build.lookup_set_variant_eq_none_iff]
    decide
  have hday : (⟨"day", []⟩ : Variant) ∈ Rig.twofold.variants := List.mem_cons_self ..
  have hnight : (⟨"night", [("b", 2)]⟩ : Variant) ∈ Rig.twofold.variants :=
    List.mem_cons_of_mem _ (List.mem_singleton_self _)
  obtain ⟨inDay, inNight, hinDay, hinNight, hone, -, hchange⟩ := hall _ hday _ hnight
  obtain ⟨inNight', -, hinNight', -, htwo, -⟩ := hall _ hnight _ hday
  obtain rfl := Option.some.inj (hinNight'.symm.trans hinNight)
  obtain ⟨toNight, htoNight, hswitched⟩ := hchange hset
  refine ⟨Settings.validate_default, out, _, inDay, toNight, hout, hnormal, hinDay, htoNight, ?_, ?_⟩
  · rw [hone _ hmem hbone (.inr hnarrows)]
    exact congrArg some (scalar_int 1)
  · rw [hswitched _ hmem hbone, htwo _ hmem hbone (.inr hnarrows)]
    exact congrArg some (scalar_int 2)

end Statuary
