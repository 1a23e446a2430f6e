import Statuary.Proofs.Export.Payload
import Statuary.Proofs.Tag.Marker

/-!
# The slot of the model in the data of a bone

Where a bone brings no worn item, an export writes one whose model is open, and the number is filled
in at the first place of the summon command that looks like the open slot. This file says what that
does to the data:

* if nothing else in the data of the entity that wears the model is marked, the number goes into the
  slot, and the command is read as the data with the number in it
  (`Statuary.Bone.exists_filled_clear`);
* otherwise the number goes elsewhere, and **the slot stays open**, however the rest is read
  (`Statuary.Bone.exists_filled_marked`).

The flags are written behind the slot, so what matters stands before it, whichever way the bone is
summoned (`Statuary.Slotted`). A bone on a cloud is hit in the tags of the cloud first; these are
tags of the bone as well, so the condition is the same.
-/

namespace Statuary

open Tag

/-- The name of the entry that holds what is worn. -/
def armorKey : String := "ArmorItems"

/-- No name that an export writes is marked. -/
theorem marked_name : ∀ k ∈ ["id", "Count", "tag", "CustomModelData", "ArmorItems", "Passengers",
    "Tags", "Age", "Duration", "WaitTime", "Marker", "NoGravity", "Invisible", "DisabledSlots"],
    marked k = false := by
  intro k hk
  refine marked_of_notMem ?_
  revert k
  decide

/-- What a bone wears, given what stands in the slot of the model. -/
def armorOf (item : String) (slot : Tag) : Tag :=
  .list .compound [.compound [], .compound [], .compound [],
    .compound [("id", .string item), ("Count", .byte 1),
      ("tag", .compound [("CustomModelData", slot)])]]

theorem defaultArmor_eq (item : String) :
    Bone.defaultArmor item = armorOf item (.string placeholder) := rfl

theorem marks_armorOf {item : String} {slot : Tag} (h : marks slot = true) :
    marks (armorOf item slot) = true := by
  simp [armorOf, marks, marksItems, marksEntries, h]

theorem readBack_armorOf {item : String} {slot : Tag} (h : readBack slot = some slot) :
    readBack (armorOf item slot) = some (armorOf item slot) := by
  simp [armorOf, readBack, readBackItems, readBackEntries, h, gather, listOf, ofEntries,
    Assoc.ofList, Assoc.put, Tag.kind]

theorem isWellFormed_armorOf {item : String} {slot : Tag} (h : slot.isWellFormed = true) :
    (armorOf item slot).isWellFormed = true := by
  simp [armorOf, isWellFormed, areWellFormed, entriesWellFormed, h, Tag.kind, Assoc.keys]

/-- The number is filled into what is worn. -/
theorem filled_armor {item : String} (hitem : marked item = false) (n : ℤ) (d : ℕ) :
    Filled n d (Bone.defaultArmor item) (readBack (armorOf item (scalar (intDigits n)))) := by
  have hslot : readBack (scalar (intDigits n)) = some (scalar (intDigits n)) := by
    rw [scalar_intDigits]
    split_ifs <;> rfl
  have hitems : marksEntries [("id", .string item), ("Count", .byte 1)] = false := by
    simp [marksEntries, marks, hitem, marked_name]
  have hnumber : Filled n (d + 3) (.string placeholder) (readBack (scalar (intDigits n))) := by
    rw [hslot]
    exact filled_placeholder
  have hmarks : marks (.string placeholder) = true := by simp [marks, marked]
  have htag : Filled n (d + 2) (.compound [("CustomModelData", .string placeholder)])
      (readBack (.compound [("CustomModelData", scalar (intDigits n))])) :=
    hnumber.inCompound (marked_name _ (by decide)) hmarks [] rfl []
  have hworn := htag.inCompound (marked_name "tag" (by decide))
    (by simp [marks, marksEntries, marked]) _ hitems []
  exact hworn.inList (by simp [marks, marksEntries, marked]) .compound
    [.compound [], .compound [], .compound []] rfl []

/-! ### Where the slot is -/

/-- **The slot of the model is open, and nothing behind it is marked.** -/
structure Slotted (item : String) (es : Entries) : Prop where
  /-- The names are distinct. -/
  nodup : (Assoc.keys es).Nodup
  /-- The slot stands before entries that are not marked. -/
  split : ∃ pre post, es = pre ++ (armorKey, Bone.defaultArmor item) :: post ∧
    marksEntries post = false

namespace Slotted

variable {item : String} {es : Entries}

/-- Writing something that is not marked under another name. -/
theorem put (h : Slotted item es) {k : String} {t : Tag} (hk : armorKey ≠ k)
    (hkey : marked k = false) (ht : marks t = false) : Slotted item (Assoc.put k t es) := by
  obtain ⟨hnodup, pre, post, rfl, hpost⟩ := h
  refine ⟨Assoc.nodup_keys_put k t hnodup, ?_⟩
  rw [Assoc.put_append_cons t hk]
  split_ifs
  · exact ⟨Assoc.put k t pre, post, rfl, hpost⟩
  · refine ⟨pre, Assoc.put k t post, rfl, ?_⟩
    rw [marksEntries_eq, List.any_eq_false] at hpost ⊢
    intro e he
    rcases Assoc.mem_put he with rfl | he
    · simp [hkey, ht]
    · exact hpost e he

theorem flagged (h : Slotted item es) (s : Settings) : Slotted item (Bone.flagged s es) := by
  have hmarker := h.put (show armorKey ≠ "Marker" by decide) (marked_name _ (by decide))
    (show marks (.byte (if s.markerArmorStands then 1 else 0)) = false from rfl)
  have hgravity := hmarker.put (show armorKey ≠ "NoGravity" by decide) (marked_name _ (by decide))
    (show marks (.byte 1) = false from rfl)
  have hinvisible := hgravity.put (show armorKey ≠ "Invisible" by decide)
    (marked_name _ (by decide)) (show marks (.byte 1) = false from rfl)
  exact hinvisible.put (show armorKey ≠ "DisabledSlots" by decide) (marked_name _ (by decide)) rfl

end Slotted

/-- The data of a bone that brings no worn item has an open slot. -/
theorem slotted_payload {b : Bone} {tags : Tags} {s : Settings} {own c : Entries}
    (h : b.payload tags s = .ok c) (hown : Tag.parseCompound b.nbt = .ok own)
    (hbare : own.lookup armorKey = none) : Slotted s.rigItem c := by
  obtain ⟨own', items, pose, hown', -, -, rfl⟩ := Bone.payload_eq_ok.mp h
  obtain rfl : own = own' := Except.ok.inj (hown.symm.trans hown')
  have hnodup := (isWellFormed_compound.mp (isWellFormed_of_parseCompound hown)).1
  refine Slotted.flagged ?_ s
  have hnew : armorKey ∉ Assoc.keys
      (Assoc.put "Pose" (.compound (Assoc.putNew "Head" b.headPose pose))
        (Assoc.put "Tags" (.list .string (items ++ (b.addedTags tags).map .string)) own)) := by
    rw [← Assoc.lookup_eq_none_iff, Assoc.lookup_put, if_neg (by decide), Assoc.lookup_put,
      if_neg (by decide), hbare]
  refine ⟨?_, _, [], Assoc.putNew_of_notMem _ hnew, rfl⟩
  exact Assoc.nodup_keys_putNew _ _ (Assoc.nodup_keys_put _ _ (Assoc.nodup_keys_put _ _ hnodup))

/-! ### The entity that wears the model -/

namespace EntityTypes

/-- **The data of the entity that wears the model**, as it is summoned: an entity that rides on
another also says of which type it is. -/
def worn (types : EntityTypes) (payload : Entries) : Entries :=
  match types.boneDisplay with
  | none => payload
  | some display => mergeEntries [("id", .string display)] payload

/-- **The entity that wears the model**, in the entity that a bone is summoned as. -/
def wearer (types : EntityTypes) (u : Tag) : Option Tag :=
  match types.boneDisplay with
  | none => some u
  | some _ => u.follow? [.key "Passengers", .index 0]

/-- A text that is there stays, and every other entry is added behind it. -/
theorem mergeEntries_text {display : String} {dst es : Entries}
    (hid : dst.lookup "id" = some (.string display))
    (hnodup : (Assoc.keys (dst ++ es.filter (·.1 ≠ "id"))).Nodup) :
    mergeEntries dst es = dst ++ es.filter (·.1 ≠ "id") := by
  induction es generalizing dst with
  | nil => rw [mergeEntries, List.filter_nil, List.append_nil]
  | cons e es ih =>
    obtain ⟨k, t⟩ := e
    rw [mergeEntries]
    by_cases hk : k = "id"
    · -- the text that is there wins, also against a compound
      have hmerge : mergeEntry dst k t = dst := by
        subst hk
        cases t <;> simp [mergeEntry, hid]
      rw [List.filter_cons_of_neg (by simpa using hk)] at hnodup ⊢
      rw [hmerge]
      exact ih hid hnodup
    · rw [List.filter_cons_of_pos (by simpa using hk)] at hnodup ⊢
      have hassoc : dst ++ (k, t) :: es.filter (·.1 ≠ "id") =
          (dst ++ [(k, t)]) ++ es.filter (·.1 ≠ "id") := by simp
      have hnew : k ∉ Assoc.keys dst := by
        intro hmem
        rw [Assoc.keys, List.map_append, List.nodup_append] at hnodup
        exact hnodup.2.2 k hmem k (List.mem_cons_self ..) rfl
      have hmerge : mergeEntry dst k t = dst ++ [(k, t)] := by
        rw [← Assoc.put_of_notMem t hnew]
        cases t <;> simp [mergeEntry, Assoc.lookup_eq_none_iff.mpr hnew]
      rw [hassoc] at hnodup ⊢
      rw [hmerge]
      refine ih ?_ hnodup
      rw [List.lookup_append, hid]
      rfl

theorem nodup_keys_rider {payload : Entries} (h : (Assoc.keys payload).Nodup) (display : String) :
    (Assoc.keys (("id", .string display) :: payload.filter (·.1 ≠ "id"))).Nodup := by
  refine List.nodup_cons.mpr ⟨fun hmem => ?_, h.sublist (List.filter_sublist.map _)⟩
  obtain ⟨e, he, hid⟩ := List.mem_map.mp hmem
  exact absurd hid (by simpa using (List.mem_filter.mp he).2)

theorem worn_eq (types : EntityTypes) {payload : Entries} (h : (Assoc.keys payload).Nodup) :
    types.worn payload = match types.boneDisplay with
      | none => payload
      | some display => ("id", .string display) :: payload.filter (·.1 ≠ "id") := by
  rw [worn]
  split
  · rfl
  · exact mergeEntries_text rfl (nodup_keys_rider h _)

theorem nodup_keys_worn (types : EntityTypes) {payload : Entries} (h : (Assoc.keys payload).Nodup) :
    (Assoc.keys (types.worn payload)).Nodup := by
  rw [worn_eq types h]
  split
  · exact h
  · exact nodup_keys_rider h _

/-- What is not the type of an entity is worn as it stands in the data. -/
theorem mem_worn_iff (types : EntityTypes) {payload : Entries} (h : (Assoc.keys payload).Nodup)
    {e : String × Tag} (he : e.1 ≠ "id") : e ∈ types.worn payload ↔ e ∈ payload := by
  rw [worn_eq types h]
  split
  · exact Iff.rfl
  · rw [List.mem_cons, List.mem_filter]
    constructor
    · rintro (rfl | hmem)
      · exact absurd rfl he
      · exact hmem.1
    · exact fun hmem => .inr ⟨hmem, by simpa using he⟩

theorem isWellFormed_worn (types : EntityTypes) {payload : Entries}
    (h : (compound payload).isWellFormed = true) :
    (compound (types.worn payload)).isWellFormed = true := by
  obtain ⟨hkeys, hall⟩ := isWellFormed_compound.mp h
  refine isWellFormed_compound.mpr ⟨nodup_keys_worn types hkeys, ?_⟩
  rw [worn_eq types hkeys]
  split
  · exact hall
  · exact List.forall_mem_cons.mpr ⟨rfl, fun e he => hall e (List.mem_filter.mp he).1⟩

end EntityTypes

theorem Slotted.worn {item : String} {payload : Entries} (h : Slotted item payload)
    (types : EntityTypes) : Slotted item (types.worn payload) := by
  refine ⟨types.nodup_keys_worn h.nodup, ?_⟩
  rw [types.worn_eq h.nodup]
  obtain ⟨-, pre, post, rfl, hpost⟩ := h
  split
  · exact ⟨pre, post, rfl, hpost⟩
  · rename_i display _
    refine ⟨("id", .string display) :: pre.filter (·.1 ≠ "id"), post.filter (·.1 ≠ "id"), ?_, ?_⟩
    · rw [List.filter_append, List.filter_cons_of_pos (by simp [armorKey]), List.cons_append]
    · rw [marksEntries_eq, List.any_eq_false] at hpost ⊢
      exact fun e he => hpost e (List.mem_filter.mp he).1

/-! ### What filling in the number does to the slot -/

/-- Something beside what is worn is marked. -/
def marksBeside (es : Entries) : Bool :=
  marksEntries (es.filter (·.1 ≠ armorKey))

theorem EntityTypes.marksBeside_worn (types : EntityTypes) {payload : Entries}
    (hnodup : (Assoc.keys payload).Nodup) {k : String} {t : Tag} (hk : payload.lookup k = some t)
    (hid : k ≠ "id") (harmor : k ≠ armorKey) (ht : marks t = true) :
    marksBeside (types.worn payload) = true := by
  rw [marksBeside, marksEntries_eq, List.any_eq_true]
  refine ⟨(k, t), List.mem_filter.mpr ⟨?_, decide_eq_true harmor⟩, by rw [ht, Bool.or_true]⟩
  exact (types.mem_worn_iff hnodup hid).mpr (Assoc.mem_of_lookup hk)

/-- The place of the model in the data of the entity that wears it. -/
def modelPath : List PathStep :=
  [.key armorKey, .index 3, .key "tag"]

namespace Slotted

variable {item : String} {es : Entries}

theorem exists_split (h : Slotted item es) :
    ∃ pre post, es = pre ++ (armorKey, Bone.defaultArmor item) :: post ∧
      armorKey ∉ Assoc.keys pre ∧ armorKey ∉ Assoc.keys post ∧
      marksBeside es = marksEntries pre := by
  obtain ⟨hnodup, pre, post, rfl, hpost⟩ := h
  rw [Assoc.keys, List.map_append, List.map_cons, List.nodup_append, List.nodup_cons] at hnodup
  obtain ⟨-, ⟨hafter, -⟩, hdisjoint⟩ := hnodup
  have hbefore : armorKey ∉ Assoc.keys pre :=
    fun hmem => hdisjoint _ hmem _ (List.mem_cons_self ..) rfl
  have hkeep : ∀ fs : Entries, armorKey ∉ Assoc.keys fs → fs.filter (·.1 ≠ armorKey) = fs := by
    intro fs hfs
    rw [List.filter_eq_self]
    intro e he
    exact decide_eq_true fun hkey => hfs (List.mem_map.mpr ⟨e, he, hkey⟩)
  refine ⟨pre, post, rfl, hbefore, hafter, ?_⟩
  rw [marksBeside, List.filter_append, List.filter_cons_of_neg (by simp), hkeep pre hbefore,
    hkeep post hafter, marksEntries_eq, List.any_append, ← marksEntries_eq, ← marksEntries_eq,
    hpost, Bool.or_false]

theorem isMarked (h : Slotted item es) : marks (.compound es) = true := by
  obtain ⟨-, pre, post, rfl, -⟩ := h
  have harmor : marks (Bone.defaultArmor item) = true := marks_armorOf (by simp [marks, marked])
  rw [marks, marksEntries_eq, List.any_eq_true]
  exact ⟨_, List.mem_append_cons_self, by rw [harmor, Bool.or_true]⟩

theorem lookup (h : Slotted item es) : es.lookup armorKey = some (Bone.defaultArmor item) := by
  obtain ⟨hnodup, pre, post, rfl, -⟩ := h
  exact Assoc.lookup_of_mem hnodup (by simp)

/-- Writing a model into the slot. -/
theorem applyAt_set (h : Slotted item es) (model : Tag) :
    (Edit.set "CustomModelData" (some model)).applyAt modelPath (.compound es) =
      some (.ok (.compound (Assoc.put armorKey (armorOf item model) es))) := by
  have hworn : (Edit.set "CustomModelData" (some model)).applyAt [.index 3, .key "tag"]
      (Bone.defaultArmor item) = some (.ok (armorOf item model)) := rfl
  rw [modelPath, Edit.applyAt]
  simp only [child?, h.lookup, hworn]
  rfl

theorem isWellFormed_put_iff (h : Slotted item es) {model : Tag}
    (hmodel : model.isWellFormed = true) :
    (compound (Assoc.put armorKey (armorOf item model) es)).isWellFormed = true ↔
      (compound es).isWellFormed = true := by
  -- opening the slot again gives the entries back
  have hback : Assoc.put armorKey (Bone.defaultArmor item)
      (Assoc.put armorKey (armorOf item model) es) = es := by
    obtain ⟨pre, post, rfl, hpre, -⟩ := h.exists_split
    rw [Assoc.put_append_self _ _ hpre, Assoc.put_append_self _ _ hpre]
  constructor
  · intro hwf
    rw [← hback]
    exact isWellFormed_put _ hwf (isWellFormed_armorOf rfl)
  · exact fun hwf => isWellFormed_put _ hwf (isWellFormed_armorOf hmodel)

/-- **The number goes into the slot** if nothing else is marked. -/
theorem filled (h : Slotted item es) (hitem : marked item = false)
    (hclear : marksBeside es = false) (n : ℤ) (d : ℕ) :
    Filled n d (.compound es)
      (readBack (.compound (Assoc.put armorKey (armorOf item (scalar (intDigits n))) es))) := by
  obtain ⟨pre, post, rfl, hpre, -, hbeside⟩ := h.exists_split
  rw [Assoc.put_append_self _ _ hpre]
  refine (filled_armor hitem n (d + 1)).inCompound (marked_name _ (by decide)) ?_ pre
    (hbeside.symm.trans hclear) post
  exact marks_armorOf (by simp [marks, marked])

/-- The slot is read as it was written. -/
theorem child?_readBack (h : Slotted item es) {u : Tag} (hu : readBack (.compound es) = some u) :
    u.child? (.key armorKey) = some (Bone.defaultArmor item) := by
  obtain ⟨pre, post, rfl, -, hpost, -⟩ := h.exists_split
  obtain ⟨v, hv, hchild⟩ := child?_of_readBack hpost hu
  rw [hchild, ← hv, defaultArmor_eq, readBack_armorOf rfl]

/-- **The slot stays open** if something else is marked. -/
theorem exists_filled (h : Slotted item es) (hmarked : marksBeside es = true) (n : ℤ) (d : ℕ) :
    ∃ o, Filled n d (.compound es) o ∧
      ∀ u, o = some u → u.child? (.key armorKey) = some (Bone.defaultArmor item) := by
  obtain ⟨pre, post, rfl, -, hpost, hbeside⟩ := h.exists_split
  obtain ⟨o, ho, hslot⟩ := exists_filled_before (n := n) (hbeside.symm.trans hmarked) hpost
    (Bone.defaultArmor item) d
  refine ⟨o, ho, fun u hu => ?_⟩
  obtain ⟨v, hv, hchild⟩ := hslot u hu
  rw [hchild, ← hv, defaultArmor_eq, readBack_armorOf rfl]

end Slotted

/-! ### The entity that a bone is summoned as -/

namespace Bone

/-- The entries of the cloud that carries a bone. -/
def mount (b : Bone) (tags : Tags) : Entries :=
  [("Tags", .strings [newTag, tags.model, tags.bone b.name]), ("Age", .int endless),
    ("Duration", .int (-1)), ("WaitTime", .int endless)]

/-- The entity that a bone is summoned as, given the one that wears the model. -/
def summoned (b : Bone) (tags : Tags) (types : EntityTypes) (t : Tag) : Tag :=
  match types.boneDisplay with
  | none => t
  | some _ => .compound (b.mount tags ++ [("Passengers", .list .compound [t])])

theorem summonTag_eq (b : Bone) (payload : Entries) (tags : Tags) (types : EntityTypes) :
    b.summonTag payload tags types =
      b.summoned tags types (.compound (types.worn payload)) := by
  rw [summonTag, summoned, EntityTypes.worn]
  cases types.boneDisplay <;> rfl

theorem child?_readBack_singleton {k : Kind} {t u : Tag} (h : readBack (.list k [t]) = some u) :
    u.child? (.index 0) = readBack t := by
  rw [readBack, readBackItems, readBackItems] at h
  cases hread : readBack t with
  | none =>
    rw [hread] at h
    cases h
  | some v =>
    rw [hread] at h
    cases h
    rfl

/-- Filling in a number where the cloud is passed over. -/
theorem exists_filled_summoned {b : Bone} {tags : Tags}
    (hmount : marksEntries (b.mount tags) = false) (types : EntityTypes) {n : ℤ} {t : Tag}
    (ht : marks t = true) {p : Option Tag → Prop}
    (h : ∀ d, ∃ o, Filled n d t o ∧ p o) :
    ∃ o, Filled n 0 (b.summoned tags types t) o ∧ p (o.bind types.wearer) := by
  unfold summoned EntityTypes.wearer
  cases types.boneDisplay with
  | none =>
    obtain ⟨o, ho, hp⟩ := h 0
    exact ⟨o, ho, by cases o <;> exact hp⟩
  | some display =>
    obtain ⟨o, ho, hp⟩ := h 2
    -- the cloud is passed over up to its passengers, of which the bone is the only one
    have hlist := ho.list ht .compound (show marksItems [] = false from rfl) []
    have hentry := hlist.entry (marked_name "Passengers" (by decide))
      (by simp [marks, marksItems, ht])
    refine ⟨_, hentry.compound hmount [], ?_⟩
    cases o <;> exact hp

theorem exists_marked_of_mount {b : Bone} {tags : Tags} (h : marksEntries (b.mount tags) = true) :
    ∃ text ∈ b.addedTags tags, marked text = true := by
  simp only [mount, marksEntries, marks, marked_name "Tags" (by decide),
    marked_name "Age" (by decide), marked_name "Duration" (by decide),
    marked_name "WaitTime" (by decide), Bool.false_or, Bool.or_false, strings, marksItems_eq,
    List.any_map, List.any_eq_true] at h
  obtain ⟨text, hmem, htext⟩ := h
  refine ⟨text, ?_, htext⟩
  simp only [List.mem_cons, List.not_mem_nil, or_false] at hmem
  rcases hmem with rfl | rfl | rfl <;> simp [addedTags]

/-- The tags of the cloud are tags of the bone. -/
theorem marksBeside_of_mount {b : Bone} {tags : Tags} {s : Settings} {c : Entries}
    (h : b.payload tags s = .ok c) (hnodup : (Assoc.keys c).Nodup)
    (hmount : marksEntries (b.mount tags) = true) (types : EntityTypes) :
    marksBeside (types.worn c) = true := by
  obtain ⟨own, items, pose, -, -, -, rfl⟩ := payload_eq_ok.mp h
  have hlookup : (flagged s (b.dressed tags s own items pose)).lookup "Tags" =
      some (.list .string (items ++ (b.addedTags tags).map .string)) := by
    rw [lookup_flagged s (by decide), dressed, Assoc.lookup_putNew, if_neg (by decide),
      Assoc.lookup_put, if_neg (by decide), Assoc.lookup_put, if_pos rfl]
  have hmarks : marks (.list .string (items ++ (b.addedTags tags).map .string)) = true := by
    obtain ⟨text, htext, hmarked⟩ := exists_marked_of_mount hmount
    rw [marks, marksItems_eq, List.any_eq_true]
    exact ⟨.string text, List.mem_append_right _ (List.mem_map_of_mem htext), hmarked⟩
  exact types.marksBeside_worn hnodup hlookup (by decide) (by decide) hmarks

section Fill

variable {b : Bone} {tags : Tags} {item : String} {c : Entries} (hslot : Slotted item c)
  (types : EntityTypes) (n : ℤ)

include hslot

/-- **The bone is read with its model** if nothing but the slot is marked. -/
theorem exists_filled_clear {s : Settings} (h : b.payload tags s = .ok c)
    (hitem : marked item = false) (hclear : marksBeside (types.worn c) = false) :
    ∃ o, Filled n 0 (b.summonTag c tags types) o ∧ o.bind types.wearer =
      readBack (.compound (Assoc.put armorKey (armorOf item (scalar (intDigits n)))
        (types.worn c))) := by
  have hmount : marksEntries (b.mount tags) = false := by
    by_contra hmount
    rw [marksBeside_of_mount h hslot.nodup (Bool.not_eq_false _ ▸ hmount) types] at hclear
    cases hclear
  rw [summonTag_eq]
  exact exists_filled_summoned (p := (· = _)) hmount types (hslot.worn types).isMarked fun d =>
    ⟨_, (hslot.worn types).filled hitem hclear n d, rfl⟩

/-- **The bone is read with its slot open**, if it is read, where something else is marked. -/
theorem exists_filled_marked (hmarked : marksBeside (types.worn c) = true) :
    ∃ o, Filled n 0 (b.summonTag c tags types) o ∧ ∀ v, o.bind types.wearer = some v →
      v.child? (.key armorKey) = some (defaultArmor item) := by
  have hworn := hslot.worn types
  rw [summonTag_eq]
  by_cases hmount : marksEntries (b.mount tags) = true
  · -- the tags of the cloud are hit, and all that rides on it is read as it was written
    unfold summoned EntityTypes.wearer
    cases types.boneDisplay with
    | none =>
      obtain ⟨o, ho, hopen⟩ := hworn.exists_filled hmarked n 0
      exact ⟨o, ho, fun v hv => hopen v (by cases o <;> exact hv)⟩
    | some display =>
      obtain ⟨o, ho, hrider⟩ := exists_filled_before (n := n) hmount
        (show "Passengers" ∉ Assoc.keys [] from List.not_mem_nil)
        (.list .compound [.compound (types.worn c)]) 0
      refine ⟨o, ho, fun v hv => ?_⟩
      obtain ⟨u, hu, hfollow⟩ := Option.bind_eq_some_iff.mp hv
      obtain ⟨w, hw, hpassengers⟩ := hrider u hu
      have hfirst : w.child? (.index 0) = some v := by
        simpa [follow?, hpassengers] using hfollow
      exact hworn.child?_readBack ((child?_readBack_singleton hw).symm.trans hfirst)
  · rw [Bool.not_eq_true] at hmount
    exact exists_filled_summoned hmount types hworn.isMarked fun d =>
      hworn.exists_filled hmarked n d

end Fill

/-- The data is well formed for the entity that wears the model exactly if it is for the bone. -/
theorem isWellFormed_worn_iff {b : Bone} {tags : Tags} {s : Settings} {c : Entries}
    (h : b.payload tags s = .ok c) (hnodup : (Assoc.keys c).Nodup) (types : EntityTypes) :
    (compound (types.worn c)).isWellFormed = true ↔ b.bringsHead = true ∨ b.narrows = true := by
  constructor
  · intro hwf
    obtain ⟨own, items, pose, hown, -, hpose, rfl⟩ := payload_eq_ok.mp h
    rw [← isWellFormed_pose_iff hown hpose]
    refine (isWellFormed_compound.mp hwf).2 ("Pose", _) ?_
    exact (types.mem_worn_iff hnodup (show "Pose" ≠ "id" by decide)).mpr
      (Assoc.mem_of_lookup (lookup_pose b tags s own items pose))
  · exact fun hrot => types.isWellFormed_worn ((isWellFormed_payload_iff h).mpr hrot)

end Bone

end Statuary
