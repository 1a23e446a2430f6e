import Statuary.Proofs.Export.Summon
import Statuary.Proofs.Tag.InPlace

/-!
# Both kinds of bones show the same data

A bone is summoned as the entity that wears its model, or as a cloud on which that entity rides. In
both cases **the data is the same**: what stands at the end of the command is read as the data of
the bone, or as the cloud with one passenger, whose data it is but for the type in front
(`Statuary.Bone.summonCommand_reads`). The data may hold whatever names it likes, those of the cloud
too; only its own `id` gives way.

The passenger is made by merging the data into a compound that has the type and nothing else. This
compound is new in memory, so the data stands apart from it and is left as it was
(`Statuary.Memory.exists_merge_into_new`).
-/

namespace Statuary

/-! ### Merging into a new compound -/

namespace Memory

/-- The memory with a new compound behind it, which has one text. -/
def withText (m : Memory) (k text : String) : Memory :=
  m ++ [.compound (.ofEntries [(k, .leaf (.string text))])]

/-- **Merging into a new compound** with one text changes nothing that is there already. -/
theorem exists_merge_into_new {m : Memory} {p : ℕ} {G : List ℕ} {c : Entries}
    (h : m.Stored ⟨.place p, G, .compound c⟩) (k text : String) :
    ∃ m' F, Ends ((m.withText k text).merge m.length p) m' ∧
      m'.Stored ⟨.place m.length, F, .compound (Tag.mergeEntries [(k, .string text)] c)⟩ ∧
      m'.Stored ⟨.place p, G, .compound c⟩ ∧ ∀ x < m.length, m'[x]? = m[x]? := by
  have hprefix : m <+: m.withText k text := List.prefix_append ..
  have hnew : (m.withText k text).Stored
      ⟨.place m.length, [m.length], .compound [(k, .string text)]⟩ :=
    (laid_ofEntries [(k, ⟨.leaf (.string text), [], .string text⟩)] (by simp [withText, words])
      (List.nodup_singleton k) (List.forall_mem_singleton.mpr (.leaf _ rfl))).toStored
  have hapart : List.Disjoint [m.length] G := by
    rw [List.singleton_disjoint]
    exact fun hmem => absurd (h.lt_length _ hmem) (lt_irrefl _)
  have hold := h.of_isPrefix hprefix
  obtain ⟨m', F, hmerge, hbecomes⟩ := merge_spec hnew (List.nodup_singleton _) hold hapart
  refine ⟨m', F, hmerge, hbecomes.stored,
    hold.frame (hold.same_of_grows hbecomes.grows hapart), fun x hx => ?_⟩
  rw [← getElem?_of_isPrefix hprefix hx]
  refine hbecomes.grows.others x (hx.trans_le hprefix.length_le) fun hmem => ?_
  rw [List.mem_singleton.mp hmem] at hx
  exact lt_irrefl _ hx

end Memory

namespace Bone

open Tag

/-! ### What the command is read as -/

/-- A well-formed compound is read as a compound with equal entries. -/
theorem exists_readBack_entries {es : Entries} (h : (compound es).isWellFormed = true) :
    ∃ vs, readBack (.compound es) = some (.compound vs) ∧
      List.Forall₂ (fun e v => e.1 = v.1 ∧ e.2.same v.2 = true) es vs := by
  obtain ⟨u, hread, hsame⟩ := exists_same_of_isWellFormed _ h
  cases u with
  | compound vs => exact ⟨vs, hread, sameEntries_iff.mp hsame⟩
  | _ => cases hsame

/-- The entity that a bone is summoned as is read with the one that wears the model inside. -/
theorem readBack_summoned (b : Bone) (tags : Tags) (types : EntityTypes) {t : Tag} {vs : Entries}
    (h : readBack t = some (.compound vs)) :
    readBack (b.summoned tags types t) = some (b.summoned tags types (.compound vs)) := by
  unfold summoned
  cases types.boneDisplay with
  | none => exact h
  | some display =>
    simp [mount, strings, readBack, readBackEntries, readBackItems, h, gather, listOf, ofEntries,
      Assoc.ofList, Assoc.put, Tag.kind]

/-- **Both kinds of bones show the same data.** What stands behind the head of the command that
summons a bone is read. If the bone is not summoned as a cloud, it is read as the data of the bone.
If it is, it is read as the cloud, which has three tags, and one passenger: the type of the entity
in front, and behind it every entry of the data under another name than `id`, in the order of the
data. The data itself is not changed by making the passenger, wherever it stands in memory. -/
theorem summonCommand_reads (b : Bone) {c : Entries} (hc : (compound c).isWellFormed = true)
    (tags : Tags) (types : EntityTypes) (offset : Double) :
    ∃ text u, b.summonCommand c tags types offset = b.summonHead types offset ++ text ∧
      parse text = .ok u ∧
      match types.boneDisplay with
      | none => (compound c).same u = true
      | some display =>
        (∃ rest,
          u = .compound [("Tags", .strings [newTag, tags.model, tags.bone b.name]),
            ("Age", .int endless), ("Duration", .int (-1)), ("WaitTime", .int endless),
            ("Passengers", .list .compound [.compound (("id", .string display) :: rest)])] ∧
          List.Forall₂ (fun e v => e.1 = v.1 ∧ e.2.same v.2 = true) (c.filter (·.1 ≠ "id")) rest) ∧
        ∀ (m : Memory) p G, m.Stored ⟨.place p, G, .compound c⟩ →
          ∃ m' F, Ends ((m.withText "id" display).merge m.length p) m' ∧
            m'.Stored ⟨.place m.length, F,
              .compound (("id", .string display) :: c.filter (·.1 ≠ "id"))⟩ ∧
            m'.Stored ⟨.place p, G, .compound c⟩ ∧ ∀ x < m.length, m'[x]? = m[x]? := by
  have hkeys := (isWellFormed_compound.mp hc).1
  obtain ⟨vs, hread, hsame⟩ := exists_readBack_entries (types.isWellFormed_worn hc)
  have hsummoned := readBack_summoned b tags types hread
  rw [← summonTag_eq, ← parse_render .compact] at hsummoned
  refine ⟨(b.summonTag c tags types).render .compact, _, rfl, eq_ok_of_toOption hsummoned, ?_⟩
  rw [types.worn_eq hkeys] at hsame
  unfold summoned
  cases htypes : types.boneDisplay with
  | none =>
    rw [htypes] at hsame
    exact sameEntries_iff.mpr hsame
  | some display =>
    rw [htypes] at hsame
    refine ⟨?_, fun m p G h => ?_⟩
    · -- the type of the entity is a text, so it is read as it was written
      cases hsame with
      | @cons _ v _ rest hid hrest =>
        obtain ⟨k, t⟩ := v
        obtain ⟨rfl, hid⟩ := hid
        cases t with
        | string text =>
          rw [same, beq_iff_eq] at hid
          subst hid
          exact ⟨rest, rfl, hrest⟩
        | _ => cases hid
    · have hmerge := Memory.exists_merge_into_new h "id" display
      rwa [EntityTypes.mergeEntries_text rfl (EntityTypes.nodup_keys_rider hkeys display)] at hmerge

/-- Data that has the names of the cloud, and an `id` that is no type. -/
def cloudLike : Entries :=
  [("Age", .int 5), ("id", .compound [("x", .byte 1)]),
    ("Passengers", .list .compound [.compound [("id", .string "minecraft:pig")]]),
    ("Tags", .strings ["mine"])]

theorem summonCommand_reads_cloudLike :
    (compound cloudLike).isWellFormed = true ∧
    (∃ text rest, overturned.summonCommand cloudLike ({} : Settings).tags
        (.ofBoneType "p" "r" cloudType) (.zero false) =
          overturned.summonHead (.ofBoneType "p" "r" cloudType) (.zero false) ++ text ∧
      (∃ u, parse text = .ok u ∧ u.follow? [.key "Passengers", .index 0] =
        some (.compound (("id", .string "minecraft:armor_stand") :: rest))) ∧
      Assoc.keys rest = ["Age", "Passengers", "Tags"]) ∧
    ∃ m p G m', Memory.Stored m ⟨.place p, G, .compound cloudLike⟩ ∧
      Ends ((m.withText "id" "minecraft:armor_stand").merge m.length p) m' ∧
      m'.Stored ⟨.place p, G, .compound cloudLike⟩ := by
  have hwf : (compound cloudLike).isWellFormed = true := by decide
  obtain ⟨text, u, hcommand, hparse, ⟨rest, rfl, hrest⟩, hmemory⟩ :=
    summonCommand_reads overturned hwf ({} : Settings).tags (.ofBoneType "p" "r" cloudType)
      (.zero false)
  obtain ⟨m, q, hcopy⟩ := Memory.exists_isCopy hwf []
  obtain ⟨p, _, ps, hlaid, rfl⟩ := hcopy.stored.exists_laid hcopy.tag
  have hstored := hlaid.toStored
  rw [show Memory.tags ps = cloudLike from compound.inj hcopy.tag] at hstored
  obtain ⟨m', F, hmerge, -, hsame, -⟩ := hmemory m p _ hstored
  refine ⟨hwf, ⟨text, rest, hcommand, ⟨_, hparse, rfl⟩, ?_⟩, m, p, _, m', hstored, hmerge, hsame⟩
  exact (keys_eq_of_sameEntries (sameEntries_iff.mpr hrest)).symm

end Bone

end Statuary
