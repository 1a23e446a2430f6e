import Statuary.Proofs.Export.Payload

/-!
# How the data of a bone meets what an export adds

What a bone brings of its own is a compound, read from a text that may hold any of the names that an
export writes, in any order and with any values. Of **three of the names** the value matters: the
tags must be texts and the pose must be a compound, and if they are not there is no data at all; the
worn item may be anything (`Statuary.Bone.Unusable` says when there is none).

The data is told here from outside, name by name (`Statuary.Bone.Merged`): what stands under each of
the seven names, that everything else is as the bone brought it, and in which order the names come.
A map is known by its names and their values, so there is one such map only, and
`Statuary.Bone.payload_merges` says that it is the one that is made.

The order needs no case for each set of names that the bone may bring. Whether a name is written
over, given a default or added to, it stays where it was if it was there, and goes to the end
otherwise (`Statuary.Assoc.addKey`), so what counts is only in which order the seven are written.
-/

namespace Statuary

namespace Tag

/-- Items that are all texts. -/
theorem exists_texts {items : List Tag} (h : ∀ t ∈ items, t.kind = .string) :
    ∃ texts : List String, items = texts.map .string := by
  induction items with
  | nil => exact ⟨[], rfl⟩
  | cons t ts ih =>
    obtain ⟨ht, hts⟩ := List.forall_mem_cons.mp h
    obtain ⟨texts, rfl⟩ := ih hts
    cases t with
    | string text => exact ⟨text :: texts, rfl⟩
    | _ => cases ht

theorem WellRead.lookup {u : Entries} (h : (compound u).WellRead) {k : String} {t : Tag}
    (ht : u.lookup k = some t) : t.WellRead where
  isWellFormed := isWellFormed_of_lookup h.isWellFormed ht
  emptiesUntyped := emptiesUntyped_compound.mp h.emptiesUntyped _ (Assoc.mem_of_lookup ht)

end Tag

namespace Bone

/-! ### What a bone brings -/

/-- The compound that a bone brings: the empty one if its text is blank. -/
def Brings (b : Bone) (u : Entries) : Prop :=
  (isBlank b.nbt = true ∧ u = []) ∨ (isBlank b.nbt = false ∧ Tag.parse b.nbt = .ok (.compound u))

/-- The texts that a bone brings as its tags, in a list of whatever kind if there are none. -/
def BringsTags (u : Entries) (texts : List String) : Prop :=
  (u.lookup "Tags" = none ∧ texts = []) ∨
    ∃ elem, u.lookup "Tags" = some (.list elem (texts.map .string))

/-- The pose that a bone brings. -/
def BringsPose (u pose : Entries) : Prop :=
  (u.lookup "Pose" = none ∧ pose = []) ∨ u.lookup "Pose" = some (.compound pose)

/-- **No data can be made** of what a bone brings. -/
inductive Unusable (b : Bone) : Prop
  /-- The text is not blank, and no compound can be read from it. -/
  | text (hblank : isBlank b.nbt = false) (h : ∀ u, Tag.parse b.nbt ≠ .ok (.compound u))
  /-- There are tags, and they are not a list of texts. -/
  | tags {u : Entries} {t : Tag} (hu : b.Brings u) (ht : u.lookup "Tags" = some t)
    (h : ∀ (elem : Kind) (texts : List String), t ≠ .list elem (texts.map .string))
  /-- There is a pose, and it is not a compound. -/
  | pose {u : Entries} {t : Tag} (hu : b.Brings u) (ht : u.lookup "Pose" = some t)
    (h : ∀ pose, t ≠ .compound pose)

theorem parseCompound_eq_ok {b : Bone} {u : Entries} :
    Tag.parseCompound b.nbt = .ok u ↔ b.Brings u := by
  rw [Tag.parseCompound, Brings]
  cases isBlank b.nbt with
  | true => simp [eq_comm]
  | false =>
    cases hparse : Tag.parse b.nbt with
    | error e => simp
    | ok t => cases t <;> simp

theorem Brings.wellRead {b : Bone} {u : Entries} (h : b.Brings u) : (Tag.compound u).WellRead :=
  Tag.wellRead_of_parseCompound (parseCompound_eq_ok.mpr h)

/-- A bone brings one compound at most. -/
theorem Brings.unique {b : Bone} {u v : Entries} (hu : b.Brings u) (hv : b.Brings v) : u = v :=
  Except.ok.inj ((parseCompound_eq_ok.mpr hu).symm.trans (parseCompound_eq_ok.mpr hv))

/-- Of what can be read, the lists that are taken for tags are the lists of texts. -/
theorem ownTags_eq_ok {b : Bone} {u : Entries} (hu : b.Brings u) {items : List Tag} :
    b.ownTags u = .ok items ↔ ∃ texts, BringsTags u texts ∧ items = texts.map .string := by
  constructor
  · intro h
    rw [ownTags] at h
    split at h
    · rename_i hlookup
      cases h
      exact ⟨[], .inl ⟨hlookup, rfl⟩, rfl⟩
    · rename_i elem list hlookup
      split_ifs at h with hkind
      cases h
      -- the items of a list of texts are texts, and a list of no kind has no items
      rcases hkind with rfl | ⟨rfl, hempty⟩
      · obtain ⟨texts, rfl⟩ := Tag.exists_texts fun t ht =>
          (Tag.isWellFormed_list.mp (hu.wellRead.lookup hlookup).isWellFormed t ht).1
        exact ⟨texts, .inr ⟨_, hlookup⟩, rfl⟩
      · obtain rfl := List.isEmpty_iff.mp hempty
        exact ⟨[], .inr ⟨_, hlookup⟩, rfl⟩
    · cases h
  · rintro ⟨texts, ⟨hnone, rfl⟩ | ⟨elem, hsome⟩, rfl⟩
    · rw [ownTags, hnone]
      rfl
    · have hread := hu.wellRead.lookup hsome
      have hkind : elem = .string ∨ (elem = .untyped ∧ (texts.map Tag.string).isEmpty) := by
        cases texts with
        | nil => exact .inr ⟨(Tag.emptiesUntyped_list.mp hread.emptiesUntyped).1 rfl, rfl⟩
        | cons text texts =>
          have hall := Tag.isWellFormed_list.mp hread.isWellFormed
          exact .inl (hall (.string text) (List.mem_cons_self ..)).1.symm
      rw [ownTags, hsome]
      exact if_pos hkind

theorem ownPose_eq_ok {b : Bone} {u pose : Entries} :
    b.ownPose u = .ok pose ↔ BringsPose u pose := by
  rw [ownPose, BringsPose]
  cases u.lookup "Pose" with
  | none => simp [eq_comm]
  | some t => cases t <;> simp

theorem payload_eq_ok_iff {b : Bone} {tags : Tags} {s : Settings} {c : Entries} :
    b.payload tags s = .ok c ↔ ∃ u texts pose, b.Brings u ∧ BringsTags u texts ∧
      BringsPose u pose ∧ c = flagged s (b.dressed tags s u (texts.map .string) pose) := by
  rw [payload_eq_ok]
  constructor
  · rintro ⟨u, items, pose, hu, hitems, hpose, hc⟩
    have hu := parseCompound_eq_ok.mp hu
    obtain ⟨texts, htexts, rfl⟩ := (ownTags_eq_ok hu).mp hitems
    exact ⟨u, texts, pose, hu, htexts, ownPose_eq_ok.mp hpose, hc⟩
  · rintro ⟨u, texts, pose, hu, htexts, hpose, hc⟩
    exact ⟨u, _, pose, parseCompound_eq_ok.mpr hu, (ownTags_eq_ok hu).mpr ⟨texts, htexts, rfl⟩,
      ownPose_eq_ok.mpr hpose, hc⟩

/-! ### When there is no data -/

theorem exists_brings_or (b : Bone) : (∃ u, b.Brings u) ∨
    (isBlank b.nbt = false ∧ ∀ u, Tag.parse b.nbt ≠ .ok (.compound u)) := by
  by_cases hblank : isBlank b.nbt = true
  · exact .inl ⟨[], .inl ⟨hblank, rfl⟩⟩
  · have hblank := Bool.eq_false_iff.mpr hblank
    by_cases hread : ∃ u, Tag.parse b.nbt = .ok (.compound u)
    · exact .inl (hread.imp fun u hu => .inr ⟨hblank, hu⟩)
    · exact .inr ⟨hblank, not_exists.mp hread⟩

theorem exists_bringsTags_or (u : Entries) : (∃ texts, BringsTags u texts) ∨
    ∃ t, u.lookup "Tags" = some t ∧
      ∀ (elem : Kind) (texts : List String), t ≠ .list elem (texts.map .string) := by
  cases hlookup : u.lookup "Tags" with
  | none => exact .inl ⟨[], .inl ⟨hlookup, rfl⟩⟩
  | some t =>
    by_cases htexts : ∃ (elem : Kind) (texts : List String), t = .list elem (texts.map .string)
    · obtain ⟨elem, texts, rfl⟩ := htexts
      exact .inl ⟨texts, .inr ⟨elem, hlookup⟩⟩
    · exact .inr ⟨t, rfl, fun elem texts ht => htexts ⟨elem, texts, ht⟩⟩

theorem exists_bringsPose_or (u : Entries) : (∃ pose, BringsPose u pose) ∨
    ∃ t, u.lookup "Pose" = some t ∧ ∀ pose, t ≠ .compound pose := by
  cases hlookup : u.lookup "Pose" with
  | none => exact .inl ⟨[], .inl ⟨hlookup, rfl⟩⟩
  | some t =>
    by_cases hpose : ∃ pose, t = .compound pose
    · obtain ⟨pose, rfl⟩ := hpose
      exact .inl ⟨pose, .inr hlookup⟩
    · exact .inr ⟨t, rfl, not_exists.mp hpose⟩

/-- What can be made use of is not unusable. -/
theorem not_unusable {b : Bone} {u : Entries} {texts : List String} {pose : Entries}
    (hu : b.Brings u) (htexts : BringsTags u texts) (hpose : BringsPose u pose) :
    ¬ b.Unusable := by
  rintro (⟨hblank, hread⟩ | ⟨hv, ht, hno⟩ | ⟨hv, ht, hno⟩)
  · rcases hu with ⟨hblank', -⟩ | ⟨-, hparse⟩
    · exact absurd (hblank.symm.trans hblank') Bool.false_ne_true
    · exact hread u hparse
  · rw [← hu.unique hv] at ht
    rcases htexts with ⟨hnone, -⟩ | ⟨elem, hsome⟩
    · cases hnone.symm.trans ht
    · exact hno elem texts (Option.some.inj (ht.symm.trans hsome))
  · rw [← hu.unique hv] at ht
    rcases hpose with ⟨hnone, -⟩ | hsome
    · cases hnone.symm.trans ht
    · exact hno pose (Option.some.inj (ht.symm.trans hsome))

theorem payload_eq_error_iff {b : Bone} {tags : Tags} {s : Settings} :
    (∃ e, b.payload tags s = .error e) ↔ b.Unusable := by
  constructor
  · rintro ⟨e, he⟩
    have hnone : ¬ ∃ c, b.payload tags s = .ok c := fun ⟨c, hc⟩ => by cases he.symm.trans hc
    rcases b.exists_brings_or with ⟨u, hu⟩ | ⟨hblank, hread⟩
    · rcases exists_bringsTags_or u with ⟨texts, htexts⟩ | ⟨t, ht, hno⟩
      · rcases exists_bringsPose_or u with ⟨pose, hpose⟩ | ⟨t, ht, hno⟩
        · exact absurd ⟨_, payload_eq_ok_iff.mpr ⟨u, texts, pose, hu, htexts, hpose, rfl⟩⟩ hnone
        · exact .pose hu ht hno
      · exact .tags hu ht hno
    · exact .text hblank hread
  · intro h
    cases hc : b.payload tags s with
    | error e => exact ⟨e, rfl⟩
    | ok c =>
      obtain ⟨u, texts, pose, hu, htexts, hpose, -⟩ := payload_eq_ok_iff.mp hc
      exact absurd h (not_unusable hu htexts hpose)

/-! ### What stands in the data -/

/-- The names that an export writes, in the order in which it does. -/
def written : List String :=
  ["Tags", "Pose", "ArmorItems", "Marker", "NoGravity", "Invisible", "DisabledSlots"]

/-- **What a bone brings and what an export adds**, name by name: `u` is what the bone brings,
`texts` are its own tags and `pose` is its own pose. -/
structure Merged (b : Bone) (tags : Tags) (s : Settings) (u : Entries) (texts : List String)
    (pose c : Entries) : Prop where
  /-- The tags of the bone come first. -/
  tags : c.lookup "Tags" =
    some (.strings (texts ++ [newTag, tags.model, tags.allBones, tags.bone b.name]))
  /-- The head is turned unless the bone turns it. -/
  pose : c.lookup "Pose" = some (.compound
    (if "Head" ∈ Assoc.keys pose then pose else pose ++ [("Head", b.headPose)]))
  /-- The item is worn unless the bone says what it wears. -/
  armor : c.lookup "ArmorItems" =
    some ((u.lookup "ArmorItems").getD (defaultArmor s.rigItem))
  /-- Whether the bone takes up room is a matter of the settings. -/
  marker : c.lookup "Marker" = some (.byte (if s.markerArmorStands then 1 else 0))
  /-- It does not fall. -/
  gravity : c.lookup "NoGravity" = some (.byte 1)
  /-- It is not seen. -/
  invisible : c.lookup "Invisible" = some (.byte 1)
  /-- Its slots are locked. -/
  slots : c.lookup "DisabledSlots" = some (.int 4144959)
  /-- Everything else is as the bone brings it. -/
  other : ∀ k ∉ written, c.lookup k = u.lookup k
  /-- The names that the bone brings stay in front. -/
  keys : Assoc.keys c = Assoc.keys u ++ written.filter (· ∉ Assoc.keys u)

theorem keys_flagged_dressed (b : Bone) (tags : Tags) (s : Settings) (u : Entries)
    (items : List Tag) (pose : Entries) :
    Assoc.keys (flagged s (b.dressed tags s u items pose)) =
      Assoc.keys u ++ written.filter (· ∉ Assoc.keys u) := by
  -- a name is added at the end where it is missing, whether its value counts or not
  rw [← Assoc.foldl_addKey (by decide)]
  simp only [flagged, flags, dressed, written, List.foldl_cons, List.foldl_nil,
    Assoc.keys_put_eq_addKey, Assoc.keys_putNew]

theorem merged_payload {b : Bone} {tags : Tags} {s : Settings} {u c : Entries}
    {texts : List String} {pose : Entries} (hu : b.Brings u) (hc : b.payload tags s = .ok c)
    (h : c = flagged s (b.dressed tags s u (texts.map .string) pose)) :
    b.Merged tags s u texts pose c where
  tags := by
    rw [h, lookup_flagged s (by decide), dressed, Assoc.lookup_putNew, if_neg (by decide),
      Assoc.lookup_put, if_neg (by decide), Assoc.lookup_put, if_pos rfl, Tag.strings,
      List.map_append]
    rfl
  pose := by rw [h, lookup_pose, Assoc.putNew_eq_ite]
  armor := by
    rw [h, lookup_flagged s (by decide), dressed, Assoc.lookup_putNew, if_pos rfl,
      Assoc.lookup_put, if_neg (by decide), Assoc.lookup_put, if_neg (by decide)]
    cases u.lookup "ArmorItems" <;> rfl
  marker := by simp [h, flagged, flags, Assoc.lookup_put]
  gravity := by simp [h, flagged, flags, Assoc.lookup_put]
  invisible := by simp [h, flagged, flags, Assoc.lookup_put]
  slots := by simp [h, flagged, flags, Assoc.lookup_put, disabledSlots]
  other k hk := by
    have hk : k ∉ ["Tags", "Pose", "ArmorItems"] ++
      ["Marker", "NoGravity", "Invisible", "DisabledSlots"] := hk
    rw [List.mem_append, not_or] at hk
    exact lookup_payload hc (parseCompound_eq_ok.mpr hu) hk.1 hk.2
  keys := h ▸ keys_flagged_dressed ..

/-- There is one such map only. -/
theorem Merged.unique {b : Bone} {tags : Tags} {s : Settings} {u c d : Entries}
    {texts : List String} {pose : Entries} (hnodup : (Assoc.keys c).Nodup)
    (hc : b.Merged tags s u texts pose c) (hd : b.Merged tags s u texts pose d) : c = d := by
  refine Assoc.eq_of_lookup hnodup (hc.keys.trans hd.keys.symm) fun k => ?_
  by_cases hk : k ∈ written
  · simp only [written, List.mem_cons, List.not_mem_nil, or_false] at hk
    rcases hk with rfl | rfl | rfl | rfl | rfl | rfl | rfl
    · rw [hc.tags, hd.tags]
    · rw [hc.pose, hd.pose]
    · rw [hc.armor, hd.armor]
    · rw [hc.marker, hd.marker]
    · rw [hc.gravity, hd.gravity]
    · rw [hc.invisible, hd.invisible]
    · rw [hc.slots, hd.slots]
  · rw [hc.other k hk, hd.other k hk]

/-- Data that is made is what a bone brings and what an export adds. -/
theorem exists_merged {b : Bone} {tags : Tags} {s : Settings} {c : Entries}
    (hc : b.payload tags s = .ok c) : ∃ u texts pose, b.Brings u ∧ BringsTags u texts ∧
      BringsPose u pose ∧ b.Merged tags s u texts pose c := by
  obtain ⟨u, texts, pose, hu, htexts, hpose, h⟩ := payload_eq_ok_iff.mp hc
  exact ⟨u, texts, pose, hu, htexts, hpose, merged_payload hu hc h⟩

/-- **What a bone brings and what an export adds meet** as they should: there is no data exactly if
what the bone brings cannot be used, and otherwise the data is the one map in which the two are put
together. -/
theorem payload_merges (b : Bone) (tags : Tags) (s : Settings) :
    ((∃ e, b.payload tags s = .error e) ↔ b.Unusable) ∧
    ∀ c, b.payload tags s = .ok c ↔ ∃ u texts pose, b.Brings u ∧ BringsTags u texts ∧
      BringsPose u pose ∧ b.Merged tags s u texts pose c := by
  refine ⟨payload_eq_error_iff, fun c => ⟨exists_merged, ?_⟩⟩
  rintro ⟨u, texts, pose, hu, htexts, hpose, h⟩
  have hmade : b.payload tags s = .ok (flagged s (b.dressed tags s u (texts.map .string) pose)) :=
    payload_eq_ok_iff.mpr ⟨u, texts, pose, hu, htexts, hpose, rfl⟩
  rw [hmade, (merged_payload hu hmade rfl).unique (nodup_keys_payload hmade) h]

end Bone

end Statuary
