import Statuary.Export.Build
import Statuary.Proofs.Export.Worn
import Statuary.Proofs.Files.Path

/-!
# Which bones are summoned with their models

The summon command of a bone is written once, and for each variant the number of its model is filled
in at the first place that looks like the open slot. The bone should come out of that with the model
of the variant and otherwise as its data says (`Statuary.Bone.SummonsModel`). It does **not
always**: the first such place need not be the slot. For a bone that brings no worn item of its own,
`Statuary.build_summonsModel_iff` says when it does. Three things are needed, each of which can fail
in a program that is built without complaint:

* the number is one of 32 bits, since digits that make a greater number are read as a text;
* the rotation of the head has a value in 32 bits or is brought by the bone;
* nothing in the data but the slot is marked, be it a text, a name or a tag.

The head of the command, with the place of the bone in it, has no quotes and is never in the way
(`Statuary.Bone.exists_substituteFirst`).
-/

namespace Statuary

open Tag

/-! ### The command -/

namespace Bone

/-- The command that summons a bone, up to the data. -/
def summonHead (b : Bone) (types : EntityTypes) (offset : Double) : String :=
  "summon " ++ types.boneRoot ++ " " ++ b.summonPlace offset ++ " "

theorem isBareChar_of_mem_coordinate {x : Double} {c : Char} (h : c ∈ (coordinate x).toList) :
    isBareChar c = true := by
  rw [coordinate] at h
  split_ifs at h
  · rw [List.mem_singleton.mp (show c ∈ ['0'] from h)]
    rfl
  · exact isBareChar_of_mem_plain h

theorem notMem_summonHead (b : Bone) {types : EntityTypes} (h : '"' ∉ types.boneRoot.toList)
    (offset : Double) : '"' ∉ (b.summonHead types offset).toList := by
  have hcoordinate : ∀ x, '"' ∉ (coordinate x).toList :=
    fun x hmem => absurd (isBareChar_of_mem_coordinate hmem) (by decide)
  simp [summonHead, summonPlace, h, hcoordinate]

/-- The placeholder is found in the data, never in the head of the command. -/
theorem atMarker_summonCommand (b : Bone) {types : EntityTypes} (h : '"' ∉ types.boneRoot.toList)
    (payload : Entries) (tags : Tags) (offset : Double) :
    atMarker (b.summonCommand payload tags types offset).toList =
      (atMarker (write .compact 0 (b.summonTag payload tags types) [])).map
        fun r => ((b.summonHead types offset).toList ++ r.1, r.2) := by
  -- the placeholder begins with a quote, and there is none before the data
  have hhead : Passes (b.summonHead types offset).toList :=
    passes_of_notMem (b.notMem_summonHead h offset) (by simp [Apart, summonHead])
  have hdata : Apart (write .compact 0 (b.summonTag payload tags types) []) := by
    rw [summonTag]
    split <;> simp [write, Apart]
  have hcommand : (b.summonCommand payload tags types offset).toList =
      (b.summonHead types offset).toList ++
        write .compact 0 (b.summonTag payload tags types) [] := by
    rw [summonCommand, String.toList_append, render, String.toList_ofList]
    rfl
  rw [hcommand]
  exact hhead.split _ hdata

/-- Filling in a number leaves the head of the command alone. -/
theorem exists_substituteFirst {b : Bone} {types : EntityTypes} (h : '"' ∉ types.boneRoot.toList)
    {n : ℤ} {payload : Entries} {tags : Tags} {o : Option Tag}
    (hfilled : Filled n 0 (b.summonTag payload tags types) o) (offset : Double) :
    ∃ text, (substituteFirst (b.summonCommand payload tags types offset) placeholder
      (toString n)).1 = b.summonHead types offset ++ text ∧ (parse text).toOption = o := by
  obtain ⟨Y, ⟨before, after, hsplit, rfl⟩, -, hread⟩ := hfilled
  refine ⟨String.ofList (before ++ intDigits n ++ after), ?_, hread.parse⟩
  have hat : splitAtFirst (quote placeholder)
      (b.summonCommand payload tags types offset).toList =
        some ((b.summonHead types offset).toList ++ before, after) := by
    have hfirst := hsplit []
    rw [List.append_nil, List.append_nil] at hfirst
    exact (b.atMarker_summonCommand h payload tags offset).trans (by rw [hfirst]; rfl)
  rw [substituteFirst, hat, toList_toString]
  apply String.toList_inj.mp
  simp

/-- Whatever is filled in, the head of the command is left alone. -/
theorem exists_append_substituteFirst {b : Bone} {types : EntityTypes}
    (h : '"' ∉ types.boneRoot.toList) (payload : Entries) (tags : Tags) (offset : Double)
    (expr : String) : ∃ text, (substituteFirst (b.summonCommand payload tags types offset)
      placeholder expr).1 = b.summonHead types offset ++ text := by
  have hat := b.atMarker_summonCommand h payload tags offset
  rw [atMarker] at hat
  rw [substituteFirst, hat]
  cases atMarker (write .compact 0 (b.summonTag payload tags types) []) with
  | none => exact ⟨_, rfl⟩
  | some r =>
    refine ⟨String.ofList (r.1 ++ expr.toList ++ r.2), ?_⟩
    apply String.toList_inj.mp
    simp

/-! ### The model of a bone -/

/-- **A command summons a bone with a model**: what stands behind the head of the command is read,
and the entity that wears the model is the data of the bone with the number of the model in the
slot, and nothing else changed. -/
def SummonsModel (b : Bone) (s : Settings) (payload : Entries) (model : ℤ) (command : String) :
    Prop :=
  ∃ text u w, command = b.summonHead s.entityTypes s.effectiveOffset ++ text ∧
    parse text = .ok u ∧ s.entityTypes.wearer u = some w ∧
    ∃ (n : Int32) (e : Tag), n.toInt = model ∧
      (Edit.set "CustomModelData" (some (.int n))).applyAt modelPath
        (.compound (s.entityTypes.worn payload)) = some (.ok e) ∧ e.same w = true

/-- Equal compounds have equal values under a name. -/
theorem exists_child?_same {es : Entries} {w t : Tag} {k : String}
    (h : (compound es).same w = true) (hk : es.lookup k = some t) :
    ∃ v, w.child? (.key k) = some v ∧ t.same v = true := by
  cases w with
  | compound fs =>
    rw [same, sameEntries_iff] at h
    induction h with
    | nil => cases hk
    | @cons e f es fs he _ ih =>
      obtain ⟨j, v⟩ := f
      obtain ⟨i, t'⟩ := e
      obtain ⟨rfl, hsame⟩ := he
      rw [List.lookup_cons] at hk
      simp only [child?, List.lookup_cons]
      cases hki : k == i with
      | true =>
        rw [hki] at hk
        cases hk
        exact ⟨v, rfl, hsame⟩
      | false =>
        rw [hki] at hk
        exact ih hk
  | _ => cases h

/-- A number in the slot is not the open slot. -/
theorem same_armorOf_open (item : String) (n : Int32) :
    (armorOf item (.int n)).same (defaultArmor item) = false := by
  simp [armorOf, defaultArmor, same, sameItems, sameEntries]

theorem notMem_boneRoot (s : Settings) : '"' ∉ s.entityTypes.boneRoot.toList := by
  rw [Settings.entityTypes, EntityTypes.ofBoneType]
  split_ifs <;> simp

/-- The model that a command summons a bone with, by what its data is read as. -/
theorem summonsModel_iff_same {b : Bone} {s : Settings} {c : Entries} {item text : String}
    (hworn : Slotted item (s.entityTypes.worn c)) (model : ℤ) {o : Option Tag}
    (hparse : (parse text).toOption = o) :
    b.SummonsModel s c model (b.summonHead s.entityTypes s.effectiveOffset ++ text) ↔
      ∃ n : Int32, n.toInt = model ∧ ∃ w, o.bind s.entityTypes.wearer = some w ∧
        (compound (Assoc.put armorKey (armorOf item (.int n)) (s.entityTypes.worn c))).same w =
          true := by
  constructor
  · rintro ⟨text', u, w, htext, hu, hw, n, e, hn, he, hsame⟩
    obtain rfl : text = text' := String.append_right_inj _ |>.mp htext
    rw [hworn.applyAt_set] at he
    cases he
    rw [hu] at hparse
    exact ⟨n, hn, w, by rw [← hparse]; exact hw, hsame⟩
  · rintro ⟨n, hn, w, hw, hsame⟩
    obtain ⟨u, hu, hw⟩ := Option.bind_eq_some_iff.mp hw
    exact ⟨text, u, w, rfl, eq_ok_of_toOption (hparse.trans hu), hw, n, _, hn,
      hworn.applyAt_set _, hsame⟩

/-- **Which bones are summoned with their models**: those whose model is a number of 32 bits, whose
rotation can be written, and in whose data nothing but the slot is marked. -/
theorem summonsModel_iff {b : Bone} {s : Settings} {c own : Entries} (hs : s.validate = .ok ())
    (h : b.payload s.tags s = .ok c) (hown : parseCompound b.nbt = .ok own)
    (hbare : own.lookup armorKey = none) (model : ℤ) :
    b.SummonsModel s c model (substituteFirst
      (b.summonCommand c s.tags s.entityTypes s.effectiveOffset) placeholder (toString model)).1 ↔
      isSigned 32 model = true ∧ (b.bringsHead = true ∨ b.narrows = true) ∧
        marksBeside (s.entityTypes.worn c) = false := by
  have hslot := slotted_payload h hown hbare
  have hworn := hslot.worn s.entityTypes
  rw [← isWellFormed_worn_iff h hslot.nodup s.entityTypes]
  cases hmarked : marksBeside (s.entityTypes.worn c) with
  | true =>
    obtain ⟨o, ho, hopen⟩ := exists_filled_marked hslot s.entityTypes model hmarked
    obtain ⟨text, hcommand, hparse⟩ :=
      exists_substituteFirst (notMem_boneRoot s) ho s.effectiveOffset
    rw [hcommand, summonsModel_iff_same hworn model hparse]
    -- whatever was hit, the slot is read as the placeholder, which is no number
    refine ⟨?_, fun hclear => absurd hclear.2.2 (by decide)⟩
    rintro ⟨n, -, w, hw, hsame⟩
    obtain ⟨v, hchild, hsame⟩ := exists_child?_same hsame (by rw [Assoc.lookup_put, if_pos rfl])
    rw [hopen w hw] at hchild
    cases hchild
    rw [same_armorOf_open] at hsame
    cases hsame
  | false =>
    obtain ⟨o, ho, hwearer⟩ :=
      exists_filled_clear hslot s.entityTypes model h (Settings.marked_rigItem hs) hmarked
    obtain ⟨text, hcommand, hparse⟩ :=
      exists_substituteFirst (notMem_boneRoot s) ho s.effectiveOffset
    rw [hcommand, summonsModel_iff_same hworn model hparse, hwearer]
    constructor
    · -- the entity is read as the expected tree would be, so the question is which trees come back
      rintro ⟨n, rfl, hback⟩
      rw [scalar_int, same_readBack_iff, hworn.isWellFormed_put_iff rfl] at hback
      exact ⟨isSigned_iff.mpr ⟨n.le_toInt, n.toInt_lt⟩, hback, rfl⟩
    · rintro ⟨hmodel, hwf, -⟩
      obtain ⟨hlow, hhigh⟩ := isSigned_iff.mp hmodel
      have hn : (Int32.ofInt model).toInt = model := Int32.toInt_ofInt_of_le hlow hhigh
      refine ⟨Int32.ofInt model, hn, ?_⟩
      rw [scalar_intDigits, if_pos hmodel, same_readBack_iff, hworn.isWellFormed_put_iff rfl]
      exact hwf

end Bone

/-! ### The functions that summon a statue -/

/-- A member of a directory is looked for in two steps. -/
theorem Program.lookup_member (p : Program) {dir name : String} (hdir : '/' ∉ dir.toList)
    (hname : '/' ∉ name.toList) : p.lookup (dir ++ "/" ++ name) = find p.items [dir, name] := by
  have hpath : Path.segments (dir ++ "/" ++ name) = [dir, name] := by
    rw [Path.segments_append, Path.segments_of_notMem hname, Path.segments_of_notMem hdir]
    rfl
  exact congrArg (find p.items) hpath

/-- In a directory of functions, one for each variant, the function of a variant is the one of its
name. -/
theorem Program.function?_variant {p : Program} {dir : String} {vs : List Variant}
    {body : Variant → List Statement}
    (hdir : p.items.find? (·.name = dir) =
      some (.dir dir (vs.map fun w => .function w.name (body w))))
    (hplain : '/' ∉ dir.toList) {v : Variant} (hv : v ∈ vs) (hnodup : (vs.map (·.name)).Nodup)
    (hslash : '/' ∉ v.name.toList) : p.function? (dir ++ "/" ++ v.name) = some (body v) := by
  have hfind : vs.find? (fun w => w.name = v.name) = some v := by
    have hsome : (vs.find? fun w => w.name = v.name).isSome = true :=
      List.find?_isSome.mpr ⟨v, hv, decide_eq_true rfl⟩
    obtain ⟨w, hw⟩ := Option.isSome_iff_exists.mp hsome
    have hname : w.name = v.name := by simpa using List.find?_some hw
    rw [hw, List.inj_on_of_nodup_map hnodup (List.mem_of_find?_eq_some hw) hv hname]
  have hlookup : p.lookup (dir ++ "/" ++ v.name) = some (.function v.name (body v)) := by
    rw [Program.lookup_member p hplain hslash, find, hdir]
    · change ((vs.map fun w => Item.function w.name _).find? (·.name = v.name)) = _
      rw [List.find?_map]
      exact congrArg (Option.map _) hfind
    · exact List.cons_ne_nil _ _
  rw [Program.function?, hlookup]

/-- A directory that is not there has no functions. -/
theorem Program.function?_eq_none {p : Program} {dir name : String}
    (hdir : p.items.find? (·.name = dir) = none) (hplain : '/' ∉ dir.toList)
    (hslash : '/' ∉ name.toList) : p.function? (dir ++ "/" ++ name) = none := by
  have hlookup : p.lookup (dir ++ "/" ++ name) = none := by
    rw [Program.lookup_member p hplain hslash, find, hdir]
    exact List.cons_ne_nil _ _
  rw [Program.function?, hlookup]

namespace Build

theorem function?_summon {s : Settings} {r : Rig} {summons : List (Bone × String)} {v : Variant}
    (hv : v ∈ r.variants) (hnodup : (r.variants.map (·.name)).Nodup)
    (hslash : '/' ∉ v.name.toList) :
    (statue s r summons).function? ("summon/" ++ v.name) =
      some ((correlation s r).statements (Correlation.summon (summonsIn summons v))) := by
  have hdir : (statue s r summons).items.find? (·.name = "summon") =
      some (.dir "summon" (r.variants.map fun w => .function w.name
        ((correlation s r).statements (Correlation.summon (summonsIn summons w))))) := rfl
  exact Program.function?_variant hdir (by decide) hv hnodup hslash

end Build

/-- An accepted rig whose exported bones all have data has a program. -/
theorem exists_build {s : Settings} {rig r : Rig} (hr : rig.normalize = .ok r)
    (h : ∀ b ∈ r.exportedBones, ∃ payload, b.payload s.tags s = .ok payload) :
    ∃ out, build s (some rig) = .ok out := by
  have hsummons : ∃ summons, Build.summons s r.exportedBones = .ok summons := by
    refine exists_mapM fun b hb => ?_
    obtain ⟨payload, hpayload⟩ := h b hb
    exact ⟨_, bind_eq_ok.mpr ⟨payload, hpayload, rfl⟩⟩
  obtain ⟨summons, hsummons⟩ := hsummons
  exact ⟨_, bind_eq_ok.mpr ⟨r, mapError_eq_ok.mpr hr,
    mapError_eq_ok.mpr (bind_eq_ok.mpr ⟨summons, hsummons, rfl⟩)⟩⟩

/-- **What a built program is**: the one of the accepted rig and the summon commands of its
bones. -/
theorem exists_statue_of_build {s : Settings} {rig : Rig} {out : Build}
    (h : build s (some rig) = .ok out) : ∃ r summons, rig.normalize = .ok r ∧
      Build.summons s r.exportedBones = .ok summons ∧ out.program = Build.statue s r summons := by
  obtain ⟨r, hr, h⟩ := bind_eq_ok.mp h
  rw [mapError_eq_ok] at hr h
  obtain ⟨summons, hsummons, h⟩ := bind_eq_ok.mp h
  cases h
  exact ⟨r, summons, hr, hsummons, rfl⟩

/-- **Which bones are summoned with their models** by the program of a rig: in the function of every
variant there is one command for each exported bone, in the order of the bones, and for a bone that
brings no worn item the command gives it the model of the variant exactly if the model is a number
of 32 bits, the rotation of the head can be written, and nothing but the slot is marked. -/
theorem build_summonsModel_iff {s : Settings} {rig : Rig} {out : Build}
    (hs : s.validate = .ok ()) (h : build s (some rig) = .ok out) :
    ∃ r, rig.normalize = .ok r ∧ ∀ v ∈ r.variants, ∃ commands,
      out.program.function? ("summon/" ++ v.name) =
        some ((Build.correlation s r).statements (Correlation.summon commands)) ∧
      List.Forall₂ (fun b command => ∃ own payload, parseCompound b.nbt = .ok own ∧
        b.payload s.tags s = .ok payload ∧ (own.lookup armorKey = none →
          (b.SummonsModel s payload (b.modelIn v).toInt command ↔
            isSigned 32 (b.modelIn v).toInt = true ∧ (b.bringsHead = true ∨ b.narrows = true) ∧
              marksBeside (s.entityTypes.worn payload) = false))) r.exportedBones commands := by
  obtain ⟨r, hr, h⟩ := bind_eq_ok.mp h
  rw [mapError_eq_ok] at hr h
  obtain ⟨summons, hsummons, h⟩ := bind_eq_ok.mp h
  cases h
  obtain ⟨hnodup, hslash⟩ := Rig.variants_of_normalize hr
  refine ⟨r, hr, fun v hv => ⟨Build.summonsIn summons v,
    Build.function?_summon hv hnodup (hslash v hv).2, ?_⟩⟩
  rw [Build.summonsIn, List.forall₂_map_right_iff]
  refine (forall₂_of_mapM hsummons).imp fun b p hp => ?_
  obtain ⟨payload, hpayload, hp⟩ := bind_eq_ok.mp hp
  cases hp
  obtain ⟨own, items, pose, hown, -⟩ := Bone.payload_eq_ok.mp hpayload
  exact ⟨own, payload, hown, hpayload, fun hbare =>
    Bone.summonsModel_iff hs hpayload hown hbare (b.modelIn v).toInt⟩

/-- A bone whose own name is the text that stands for the number of its model. -/
def Bone.namesake : Bone where
  name := "b"
  pos := .zero
  rot := .zero
  exported := true
  nbt := (compound [("CustomName", .string placeholder)]).render .compact
  model := 1

/-- The rig of that bone alone has a program, but the bone is summoned without its model. -/
theorem build_summonsModel_iff_namesake :
    ({} : Settings).validate = .ok () ∧ ∃ out r payload command,
      build {} (some ⟨[Bone.namesake], .zero false, [], []⟩) = .ok out ∧
      Bone.namesake.payload ({} : Settings).tags {} = .ok payload ∧
      out.program.function? ("summon/" ++ Rig.defaultVariant.name) =
        some ((Build.correlation {} r).statements (Correlation.summon [command])) ∧
      ¬ Bone.namesake.SummonsModel {} payload 1 command := by
  have hown : parseCompound Bone.namesake.nbt = .ok [("CustomName", .string placeholder)] :=
    parseCompound_render .compact rfl
  have hnormal : Rig.normalize ⟨[Bone.namesake], .zero false, [], []⟩ =
      .ok ⟨[Bone.namesake], .zero false, [Rig.defaultVariant], []⟩ := rfl
  obtain ⟨out, hout⟩ := exists_build (s := {}) hnormal (List.forall_mem_singleton.mpr
    ⟨_, Bone.payload_eq_ok.mpr ⟨_, [], [], hown, rfl, rfl, rfl⟩⟩)
  obtain ⟨r, hr, hall⟩ := build_summonsModel_iff Settings.validate_default hout
  obtain rfl := Except.ok.inj (hr.symm.trans hnormal)
  obtain ⟨commands, hfunction, hcommands⟩ := hall Rig.defaultVariant (List.mem_singleton_self _)
  cases hcommands with
  | cons hcommand hrest =>
    cases hrest
    obtain ⟨own, payload, hown', hpayload, hiff⟩ := hcommand
    obtain rfl := Except.ok.inj (hown'.symm.trans hown)
    have hslot := slotted_payload hpayload hown rfl
    have hlookup : payload.lookup "CustomName" = some (.string placeholder) :=
      Bone.lookup_payload hpayload hown (by decide) (by decide)
    have hmarked := EntityTypes.marksBeside_worn ({} : Settings).entityTypes hslot.nodup hlookup
      (by decide) (by decide) (by simp [marks, marked])
    refine ⟨Settings.validate_default, out, _, payload, _, hout, hpayload, hfunction,
      fun hmodel => ?_⟩
    have hclear := ((hiff rfl).mp hmodel).2.2
    rw [hmarked] at hclear
    cases hclear

end Statuary
