import Statuary.Proofs.Export.Worn
import Statuary.Proofs.Text.Split

/-!
# Data without the placeholder

The number of a model goes into the slot of a bone if nothing beside the slot is marked. Whoever
writes the data of a bone should not have to know what is marked: it is enough that the placeholder
**occurs nowhere** in it (`Statuary.Tag.IsClear`), nor in the tags that the bone gets. All that an
export adds besides is fixed, or a name in which the placeholder cannot occur
(`Statuary.Bone.marksBeside_of_isClear`).
-/

namespace Statuary

namespace Tag

/-! ### The texts in a tree -/

mutual

/-- **The texts and names in a tree**, in the order in which they are written. -/
def contents : Tag → List String
  | .string s => [s]
  | .list _ items => contentsItems items
  | .compound es => contentsEntries es
  | .byte _ | .short _ | .int _ | .long _ | .float _ | .double _ => []
  | .byteArray _ | .intArray _ | .longArray _ => []

/-- The texts and names in the items of a list. -/
def contentsItems : List Tag → List String
  | [] => []
  | t :: ts => contents t ++ contentsItems ts

/-- The texts and names in the entries of a compound. -/
def contentsEntries : Entries → List String
  | [] => []
  | (k, t) :: es => k :: contents t ++ contentsEntries es

end

theorem contentsItems_eq (items : List Tag) : contentsItems items = items.flatMap contents := by
  induction items with
  | nil => rfl
  | cons t ts ih => rw [contentsItems, ih, List.flatMap_cons]

theorem contentsEntries_eq (es : Entries) :
    contentsEntries es = es.flatMap fun e => e.1 :: e.2.contents := by
  induction es with
  | nil => rfl
  | cons e es ih =>
    obtain ⟨k, t⟩ := e
    rw [contentsEntries, ih, List.flatMap_cons]

/-- **The placeholder occurs nowhere in a tree.** -/
def IsClear (t : Tag) : Prop :=
  ∀ x ∈ t.contents, contains placeholder x = false

theorem isClear_list {elem : Kind} {items : List Tag} :
    (list elem items).IsClear ↔ ∀ t ∈ items, t.IsClear := by
  simp only [IsClear, contents, contentsItems_eq, List.mem_flatMap]
  exact ⟨fun h t ht x hx => h x ⟨t, ht, hx⟩, fun h x ⟨t, ht, hx⟩ => h t ht x hx⟩

theorem isClear_compound {es : Entries} :
    (compound es).IsClear ↔ ∀ e ∈ es, contains placeholder e.1 = false ∧ e.2.IsClear := by
  simp only [IsClear, contents, contentsEntries_eq, List.mem_flatMap, List.mem_cons]
  constructor
  · exact fun h e he => ⟨h e.1 ⟨e, he, .inl rfl⟩, fun x hx => h x ⟨e, he, .inr hx⟩⟩
  · rintro h x ⟨e, he, rfl | hx⟩
    · exact (h e he).1
    · exact (h e he).2 x hx

/-- Nothing is marked in a tree in which the placeholder does not occur. -/
theorem IsClear.marks {t : Tag} (h : t.IsClear) : marks t = false := by
  induction t using induct with
  | string s => exact marked_of_contains (h s (List.mem_singleton_self s))
  | list elem items ih =>
    rw [Tag.marks, marksItems_eq, List.any_eq_false]
    intro t ht
    rw [ih t ht (isClear_list.mp h t ht)]
    exact Bool.false_ne_true
  | compound es ih =>
    rw [Tag.marks, marksEntries_eq, List.any_eq_false]
    intro e he
    obtain ⟨hkey, hvalue⟩ := isClear_compound.mp h e he
    rw [marked_of_contains hkey, ih e he hvalue]
    exact Bool.false_ne_true
  | _ => rfl

theorem IsClear.lookup {es : Entries} (h : (compound es).IsClear) {k : String} {t : Tag}
    (hk : es.lookup k = some t) : t.IsClear :=
  (isClear_compound.mp h _ (Assoc.mem_of_lookup hk)).2

end Tag

open Tag

/-! ### The data of a bone -/

namespace Bone

theorem mem_flagged {s : Settings} {es : Entries} {e : String × Tag} (h : e ∈ flagged s es) :
    e ∈ flags s.markerArmorStands ∨ e ∈ es := by
  have hrun : ∀ fs es : Entries, e ∈ fs.foldl (fun es f => Assoc.put f.1 f.2 es) es →
      e ∈ fs ∨ e ∈ es := by
    intro fs
    induction fs with
    | nil => exact fun _ he => .inr he
    | cons f fs ih =>
      intro es he
      rcases ih _ he with he | he
      · exact .inl (List.mem_cons_of_mem _ he)
      · rcases Assoc.mem_put he with rfl | he
        · exact .inl (List.mem_cons_self ..)
        · exact .inr he
  exact hrun _ _ h

/-- **What stands in the data of a bone**: the flags, what an export makes of worn item, pose and
tags, and what the bone brought. -/
theorem mem_dressed {b : Bone} {tags : Tags} {s : Settings} {own pose : Entries} {items : List Tag}
    {e : String × Tag} (h : e ∈ b.dressed tags s own items pose) :
    e = (armorKey, defaultArmor s.rigItem) ∨
      e = ("Pose", .compound (Assoc.putNew "Head" b.headPose pose)) ∨
      e = ("Tags", .list .string (items ++ (b.addedTags tags).map .string)) ∨ e ∈ own := by
  rcases Assoc.mem_putNew h with he | he
  · exact .inl he
  · rcases Assoc.mem_put he with he | he
    · exact .inr (.inl he)
    · exact .inr (.inr (Assoc.mem_put he))

variable {b : Bone} {tags : Tags} {s : Settings} {own c : Entries}

theorem isClear_ownTags {items : List Tag} (hclear : (compound own).IsClear)
    (h : b.ownTags own = .ok items) : ∀ t ∈ items, t.IsClear := by
  rw [ownTags] at h
  split at h
  · cases h
    exact fun t ht => absurd ht List.not_mem_nil
  · rename_i hlookup
    split_ifs at h
    cases h
    exact isClear_list.mp (hclear.lookup hlookup)
  · cases h

theorem isClear_ownPose {pose : Entries} (hclear : (compound own).IsClear)
    (h : b.ownPose own = .ok pose) : (compound pose).IsClear := by
  rw [ownPose] at h
  split at h
  · cases h
    exact fun x hx => absurd hx List.not_mem_nil
  · rename_i hlookup
    cases h
    exact hclear.lookup hlookup
  · cases h

/-- Of the data of a bone without the placeholder nothing is marked but the slot. -/
theorem marks_of_mem_payload (h : b.payload tags s = .ok c) (hown : parseCompound b.nbt = .ok own)
    (hclear : (compound own).IsClear)
    (htags : ∀ x ∈ b.addedTags tags, contains placeholder x = false) {e : String × Tag}
    (he : e ∈ c) (harmor : e.1 ≠ armorKey) : (marked e.1 || marks e.2) = false := by
  obtain ⟨own', items, pose, hown', hitems, hpose, rfl⟩ := payload_eq_ok.mp h
  obtain rfl : own = own' := Except.ok.inj (hown.symm.trans hown')
  rcases mem_flagged he with he | he
  · have hflags : (flags s.markerArmorStands).any (fun e => marked e.1 || marks e.2) = false := by
      simp [flags, marked_name, marks]
    exact Bool.eq_false_iff.mpr (List.any_eq_false.mp hflags e he)
  rcases mem_dressed he with rfl | rfl | rfl | he
  · exact absurd rfl harmor
  · -- the rotation of the head is made of numbers
    refine Bool.or_eq_false_iff.mpr
      ⟨marked_of_notMem (show '%' ∉ "Pose".toList by decide), ?_⟩
    rw [marks, marksEntries_eq, List.any_eq_false]
    intro e he
    rcases Assoc.mem_putNew he with rfl | he
    · simp [headPose, marks, marksItems, marked_of_notMem (show '%' ∉ "Head".toList by decide)]
    · obtain ⟨hkey, hvalue⟩ := isClear_compound.mp (isClear_ownPose hclear hpose) e he
      rw [marked_of_contains hkey, hvalue.marks]
      exact Bool.false_ne_true
  · refine Bool.or_eq_false_iff.mpr
      ⟨marked_name "Tags" (by decide), IsClear.marks (t := .list .string _) ?_⟩
    refine isClear_list.mpr (List.forall_mem_append.mpr ⟨isClear_ownTags hclear hitems, ?_⟩)
    exact List.forall_mem_map.mpr fun x hx => List.forall_mem_singleton.mpr (htags x hx)
  · obtain ⟨hkey, hvalue⟩ := isClear_compound.mp hclear e he
    rw [marked_of_contains hkey, hvalue.marks]
    rfl

/-- **Nothing but the slot is marked** where the placeholder occurs neither in what a bone brings
nor in the tags it gets. -/
theorem marksBeside_of_isClear (h : b.payload tags s = .ok c)
    (hown : parseCompound b.nbt = .ok own) (hclear : (compound own).IsClear)
    (htags : ∀ x ∈ b.addedTags tags, contains placeholder x = false) :
    marksBeside (s.entityTypes.worn c) = false := by
  rw [marksBeside, marksEntries_eq, List.any_eq_false]
  intro e he
  obtain ⟨he, harmor⟩ := List.mem_filter.mp he
  have harmor : e.1 ≠ armorKey := of_decide_eq_true harmor
  rw [Bool.not_eq_true]
  by_cases hid : e.1 = "id"
  · rw [EntityTypes.worn_eq _ (nodup_keys_payload h)] at he
    split at he
    · exact marks_of_mem_payload h hown hclear htags he harmor
    · -- the rider says of which type it is, and nothing else has that name
      rename_i display hdisplay
      rcases List.mem_cons.mp he with rfl | he
      · have hplain : ∀ t ∈ ["minecraft:area_effect_cloud", "minecraft:armor_stand"],
            marked t = false := fun t ht => marked_of_notMem (by revert t; decide)
        have hmarked : marked display = false := hplain display
          (EntityTypes.ofBoneType_members s.project s.rootEntityType s.boneType display
            (List.mem_cons_of_mem _ (Option.mem_toList.mpr hdisplay)))
        simp [marks, hmarked, marked_name]
      · exact absurd hid (by simpa using (List.mem_filter.mp he).2)
  · exact marks_of_mem_payload h hown hclear htags
      ((EntityTypes.mem_worn_iff _ (nodup_keys_payload h) hid).mp he) harmor

end Bone

end Statuary
