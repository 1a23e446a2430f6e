import Statuary.Export.Payload
import Statuary.Proofs.Export.Accepted
import Statuary.Proofs.Tag.Parsed

/-!
# The data of a bone as text

The data of a bone is written into a command and read by the game, so it has to come back as it was.
What the bone brings of its own does: it was read from a text, and what is read is well formed. Of
what an export adds, the tags, the worn item and the flags do as well. **The rotation of the head
need not**: it is narrowed to 32 bits, and a rotation that has a value in 64 bits can be beyond all
values in 32. So the data of a bone comes back exactly if the bone brings a rotation of the head of
its own or its rotation can be narrowed (`Statuary.Bone.payload_comes_back_iff`).
-/

namespace Statuary

namespace Tag

theorem isWellFormed_of_lookup {es : Entries} (h : (compound es).isWellFormed = true) {k : String}
    {t : Tag} (hk : es.lookup k = some t) : t.isWellFormed = true :=
  (isWellFormed_compound.mp h).2 _ (Assoc.mem_of_lookup hk)

theorem isWellFormed_put (k : String) {v : Tag} {es : Entries}
    (h : (compound es).isWellFormed = true) (hv : v.isWellFormed = true) :
    (compound (Assoc.put k v es)).isWellFormed = true := by
  obtain ⟨hkeys, hall⟩ := isWellFormed_compound.mp h
  refine isWellFormed_compound.mpr ⟨Assoc.nodup_keys_put k v hkeys, fun e he => ?_⟩
  rcases Assoc.mem_put he with rfl | he
  · exact hv
  · exact hall e he

theorem isWellFormed_putNew (k : String) {v : Tag} {es : Entries}
    (h : (compound es).isWellFormed = true) (hv : v.isWellFormed = true) :
    (compound (Assoc.putNew k v es)).isWellFormed = true := by
  rw [Assoc.putNew]
  split_ifs
  · exact h
  · exact isWellFormed_put k h hv

end Tag

namespace Bone

/-! ### How the data is made -/

/-- The data of a bone before the flags: what the bone brings of its own, the tags, the pose and
what it wears. -/
def dressed (b : Bone) (tags : Tags) (s : Settings) (own : Entries) (items : List Tag)
    (pose : Entries) : Entries :=
  Assoc.putNew "ArmorItems" (defaultArmor s.rigItem)
    (Assoc.put "Pose" (.compound (Assoc.putNew "Head" b.headPose pose))
      (Assoc.put "Tags" (.list .string (items ++ (b.addedTags tags).map .string)) own))

/-- The data with the flags written over it. -/
def flagged (s : Settings) (es : Entries) : Entries :=
  (flags s.markerArmorStands).foldl (fun es e => Assoc.put e.1 e.2 es) es

theorem ownPose_put (b : Bone) (t : Tag) (own : Entries) :
    b.ownPose (Assoc.put "Tags" t own) = b.ownPose own := by
  rw [ownPose, ownPose, Assoc.lookup_put, if_neg (by decide)]

/-- **What the data of a bone is made of.** -/
theorem payload_eq_ok {b : Bone} {tags : Tags} {s : Settings} {c : Entries} :
    b.payload tags s = .ok c ↔ ∃ own items pose, Tag.parseCompound b.nbt = .ok own ∧
      b.ownTags own = .ok items ∧ b.ownPose own = .ok pose ∧
      c = flagged s (b.dressed tags s own items pose) := by
  constructor
  · intro h
    obtain ⟨own, hown, h⟩ := bind_eq_ok.mp h
    obtain ⟨items, hitems, h⟩ := bind_eq_ok.mp h
    obtain ⟨pose, hpose, h⟩ := bind_eq_ok.mp h
    rw [ownPose_put] at hpose
    exact ⟨own, items, pose, mapError_eq_ok.mp hown, hitems, hpose, (Except.ok.inj h).symm⟩
  · rintro ⟨own, items, pose, hown, hitems, hpose, rfl⟩
    refine bind_eq_ok.mpr ⟨own, mapError_eq_ok.mpr hown, ?_⟩
    refine bind_eq_ok.mpr ⟨items, hitems, ?_⟩
    refine bind_eq_ok.mpr ⟨pose, (ownPose_put ..).trans hpose, ?_⟩
    rfl

/-- No name stands twice in the data of a bone. -/
theorem nodup_keys_payload {b : Bone} {tags : Tags} {s : Settings} {c : Entries}
    (h : b.payload tags s = .ok c) : (Assoc.keys c).Nodup := by
  obtain ⟨own, items, pose, hown, -, -, rfl⟩ := payload_eq_ok.mp h
  have hnodup := (Tag.isWellFormed_compound.mp (Tag.isWellFormed_of_parseCompound hown)).1
  have hdressed : (Assoc.keys (b.dressed tags s own items pose)).Nodup :=
    Assoc.nodup_keys_putNew _ _ (Assoc.nodup_keys_put _ _ (Assoc.nodup_keys_put _ _ hnodup))
  simp only [flagged, flags, List.foldl_cons, List.foldl_nil]
  exact Assoc.nodup_keys_put _ _ (Assoc.nodup_keys_put _ _ (Assoc.nodup_keys_put _ _
    (Assoc.nodup_keys_put _ _ hdressed)))

/-! ### Which data is well formed -/

theorem isWellFormed_tags {b : Bone} {own : Entries} {items : List Tag}
    (hown : (Tag.compound own).isWellFormed = true) (h : b.ownTags own = .ok items)
    (added : List String) :
    (Tag.list .string (items ++ added.map .string)).isWellFormed = true := by
  have hitems : ∀ t ∈ items, t.kind = .string ∧ t.isWellFormed = true := by
    rw [ownTags] at h
    split at h
    · cases h
      exact fun t ht => absurd ht List.not_mem_nil
    · rename_i elem _ hlookup
      split_ifs at h with hkind
      cases h
      have hlist := Tag.isWellFormed_list.mp (Tag.isWellFormed_of_lookup hown hlookup)
      rcases hkind with rfl | ⟨rfl, hempty⟩
      · exact hlist
      · rw [List.isEmpty_iff.mp hempty]
        exact fun t ht => absurd ht List.not_mem_nil
    · cases h
  refine Tag.isWellFormed_list.mpr fun t ht => ?_
  rcases List.mem_append.mp ht with ht | ht
  · exact hitems t ht
  · obtain ⟨text, -, rfl⟩ := List.mem_map.mp ht
    exact ⟨rfl, rfl⟩

theorem isWellFormed_ownPose {b : Bone} {own pose : Entries}
    (hown : (Tag.compound own).isWellFormed = true) (h : b.ownPose own = .ok pose) :
    (Tag.compound pose).isWellFormed = true := by
  rw [ownPose] at h
  split at h
  · cases h
    rfl
  · rename_i hlookup
    cases h
    exact Tag.isWellFormed_of_lookup hown hlookup
  · cases h

/-- The rotation has a value in 32 bits. -/
def narrows (b : Bone) : Bool :=
  (b.rot.x.convert : Single).isFinite && (b.rot.y.convert : Single).isFinite &&
    (b.rot.z.convert : Single).isFinite

theorem isWellFormed_headPose (b : Bone) : b.headPose.isWellFormed = b.narrows := by
  simp [headPose, Tag.isWellFormed, Tag.areWellFormed, Tag.kind, narrows, Bool.and_assoc]

theorem isWellFormed_flagged (s : Settings) {es : Entries}
    (h : (Tag.compound es).isWellFormed = true) :
    (Tag.compound (flagged s es)).isWellFormed = true := by
  have hrun : ∀ (fs : Entries), (∀ f ∈ fs, f.2.isWellFormed = true) → ∀ es : Entries,
      (Tag.compound es).isWellFormed = true →
      (Tag.compound (fs.foldl (fun es e => Assoc.put e.1 e.2 es) es)).isWellFormed = true := by
    intro fs
    induction fs with
    | nil => exact fun _ _ hes => hes
    | cons f fs ih =>
      intro hfs es hes
      obtain ⟨hf, hfs⟩ := List.forall_mem_cons.mp hfs
      exact ih hfs _ (Tag.isWellFormed_put f.1 hes hf)
  exact hrun _ (by simp [flags, Tag.isWellFormed]) es h

theorem lookup_flagged (s : Settings) {k : String}
    (hk : k ∉ ["Marker", "NoGravity", "Invisible", "DisabledSlots"]) (es : Entries) :
    (flagged s es).lookup k = es.lookup k := by
  simp only [List.mem_cons, List.not_mem_nil, or_false, not_or] at hk
  obtain ⟨hmarker, hgravity, hinvisible, hslots⟩ := hk
  simp only [flagged, flags, List.foldl_cons, List.foldl_nil, Assoc.lookup_put, if_neg hmarker,
    if_neg hgravity, if_neg hinvisible, if_neg hslots]

/-- What a bone brings under any other name than those that an export writes stays as it is. -/
theorem lookup_payload {b : Bone} {tags : Tags} {s : Settings} {own c : Entries}
    (h : b.payload tags s = .ok c) (hown : Tag.parseCompound b.nbt = .ok own) {k : String}
    (hk : k ∉ ["Tags", "Pose", "ArmorItems"])
    (hflag : k ∉ ["Marker", "NoGravity", "Invisible", "DisabledSlots"]) :
    c.lookup k = own.lookup k := by
  obtain ⟨own', items, pose, hown', -, -, rfl⟩ := payload_eq_ok.mp h
  obtain rfl : own = own' := Except.ok.inj (hown.symm.trans hown')
  simp only [List.mem_cons, List.not_mem_nil, or_false, not_or] at hk
  obtain ⟨htags, hpose, harmor⟩ := hk
  rw [lookup_flagged s hflag, dressed, Assoc.lookup_putNew, if_neg harmor, Assoc.lookup_put,
    if_neg hpose, Assoc.lookup_put, if_neg htags]

/-- The bone brings a rotation of the head of its own. -/
def bringsHead (b : Bone) : Bool :=
  match Tag.parseCompound b.nbt with
  | .error _ => false
  | .ok own =>
    match own.lookup "Pose" with
    | some (.compound pose) => Assoc.has "Head" pose
    | _ => false

theorem bringsHead_eq {b : Bone} {own pose : Entries} (hown : Tag.parseCompound b.nbt = .ok own)
    (hpose : b.ownPose own = .ok pose) : b.bringsHead = Assoc.has "Head" pose := by
  rw [ownPose] at hpose
  rw [bringsHead, hown]
  dsimp only
  split at hpose
  · rename_i hlookup
    cases hpose
    rw [hlookup]
    rfl
  · rename_i hlookup
    cases hpose
    rw [hlookup]
  · cases hpose

/-- The pose of a bone is well formed exactly if the rotation of its head can be written. -/
theorem isWellFormed_pose_iff {b : Bone} {own pose : Entries}
    (hown : Tag.parseCompound b.nbt = .ok own) (hpose : b.ownPose own = .ok pose) :
    (Tag.compound (Assoc.putNew "Head" b.headPose pose)).isWellFormed = true ↔
      b.bringsHead = true ∨ b.narrows = true := by
  have hwf := isWellFormed_ownPose (Tag.isWellFormed_of_parseCompound hown) hpose
  rw [bringsHead_eq hown hpose, ← isWellFormed_headPose]
  constructor
  · intro h
    by_cases hhead : Assoc.has "Head" pose = true
    · exact .inl hhead
    · have hnone : pose.lookup "Head" = none := Option.not_isSome_iff_eq_none.mp hhead
      have hnew : (Assoc.putNew "Head" b.headPose pose).lookup "Head" = some b.headPose := by
        rw [Assoc.lookup_putNew, if_pos rfl, hnone]
        rfl
      exact .inr (Tag.isWellFormed_of_lookup h hnew)
  · rintro (hhead | hnarrow)
    · rwa [Assoc.putNew, if_pos (show (pose.lookup "Head").isSome = true from hhead)]
    · exact Tag.isWellFormed_putNew _ hwf hnarrow

/-- The pose in the data of a bone. -/
theorem lookup_pose (b : Bone) (tags : Tags) (s : Settings) (own : Entries) (items : List Tag)
    (pose : Entries) : (flagged s (b.dressed tags s own items pose)).lookup "Pose" =
      some (.compound (Assoc.putNew "Head" b.headPose pose)) := by
  rw [lookup_flagged s (by decide), dressed, Assoc.lookup_putNew, if_neg (by decide),
    Assoc.lookup_put, if_pos rfl]

/-- The data of a bone is well formed exactly if the rotation of its head can be written. -/
theorem isWellFormed_payload_iff {b : Bone} {tags : Tags} {s : Settings} {c : Entries}
    (h : b.payload tags s = .ok c) :
    (Tag.compound c).isWellFormed = true ↔ b.bringsHead = true ∨ b.narrows = true := by
  obtain ⟨own, items, pose, hown, hitems, hpose, rfl⟩ := payload_eq_ok.mp h
  have hwf := Tag.isWellFormed_of_parseCompound hown
  rw [← isWellFormed_pose_iff hown hpose]
  constructor
  · exact fun hc => Tag.isWellFormed_of_lookup hc (lookup_pose b tags s own items pose)
  · intro hposed
    -- tags, worn item and flags are well formed whatever the bone brings
    refine isWellFormed_flagged s (Tag.isWellFormed_putNew _ (Tag.isWellFormed_put _
      (Tag.isWellFormed_put _ hwf (isWellFormed_tags hwf hitems _)) hposed) ?_)
    rfl

/-- **The data of a bone comes back from its text** exactly if the bone brings a rotation of the
head of its own, or its rotation has a value in 32 bits. -/
theorem payload_comes_back_iff {b : Bone} {tags : Tags} {s : Settings} {c : Entries}
    (h : b.payload tags s = .ok c) :
    (∃ u, Tag.parse ((Tag.compound c).render .compact) = .ok u ∧
        (Tag.compound c).same u = true) ↔ b.bringsHead = true ∨ b.narrows = true := by
  rw [← isWellFormed_payload_iff h, ← Tag.same_readBack_iff, ← Tag.parse_render .compact]
  constructor
  · rintro ⟨u, hu, hsame⟩
    exact ⟨u, by rw [hu]; rfl, hsame⟩
  · rintro ⟨u, hu, hsame⟩
    exact ⟨u, eq_ok_of_toOption hu, hsame⟩

/-- A bone without data of its own, turned by an angle that is beyond all values in 32 bits. -/
def overturned : Bone where
  name := "b"
  pos := .zero
  rot := ⟨.ofInt (10 ^ 39), .zero false, .zero false⟩
  exported := true
  nbt := ""
  model := 1

/-- The rig of that bone alone and the usual settings are accepted, and its data is made, but lost.
-/
theorem payload_comes_back_iff_overturned :
    (∃ r, (Rig.mk [overturned] (.zero false) [] []).normalize = .ok r ∧ overturned ∈ r.bones) ∧
    ({} : Settings).validate = .ok () ∧
    ∃ c, overturned.payload ({} : Settings).tags {} = .ok c ∧
      ¬ ∃ u, Tag.parse ((Tag.compound c).render .compact) = .ok u ∧
        (Tag.compound c).same u = true := by
  obtain ⟨c, hc⟩ : ∃ c, overturned.payload ({} : Settings).tags {} = .ok c := ⟨_, rfl⟩
  refine ⟨⟨_, rfl, List.mem_singleton_self _⟩, Settings.validate_default, c, hc, fun h => ?_⟩
  exact absurd ((payload_comes_back_iff hc).mp h) (by decide)

end Bone

end Statuary
