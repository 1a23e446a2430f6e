import Statuary.Proofs.Export.Lines
import Statuary.Proofs.Program.Filing

/-!
# Where the functions of a statue are filed

The names of variants and that of the project are checked **character by character**, and a point is
a good character in both. So two names get through that are no names in a path, `.` and `..`. The
pack of an accepted project is filed by name if and only if neither is used
(`Statuary.build_filedByName_iff`). Else files are moved, and if two are moved to one place, the
second is written over the first: `summon/..` and `set_variant/..` both become the file
`functions.mcfunction` beside the directory of functions.
-/

namespace Statuary

/-! ### The names that a check of characters lets through -/

namespace Identifier

/-- An identifier is a single name unless it is a detour. -/
theorem isName_ofText_iff (s : String) :
    Path.IsName (ofText s) ↔ ofText s ≠ "." ∧ ofText s ≠ ".." :=
  ⟨fun h => ⟨h.1.2.1, h.1.2.2⟩, fun h => ⟨⟨ofText_ne_empty s, h.1, h.2⟩,
    fun hslash => absurd (isNameChar_of_mem_ofText hslash) (by decide)⟩⟩

end Identifier

theorem Settings.Accepted.internalObjective_ne_empty {s : Settings} (h : s.Accepted) :
    s.internalObjective ≠ "" := by
  intro hempty
  have hobjective := h.internalObjective
  rw [hempty] at hobjective
  exact absurd hobjective (by decide)

/-- The name of a variant is a single name unless it is a detour. -/
theorem Rig.isName_variant_iff {rig r : Rig} (h : rig.normalize = .ok r) {v : Variant}
    (hv : v ∈ r.variants) : Path.IsName v.name ↔ v.name ≠ "." ∧ v.name ≠ ".." :=
  ⟨fun h => ⟨h.1.2.1, h.1.2.2⟩, fun hne => ⟨⟨variant_ne_empty h v hv, hne.1, hne.2⟩,
    ((variants_of_normalize h).2 v hv).2⟩⟩

/-- Filling in the variant of a rig that has none adds no detour. -/
theorem Rig.forall_variants_iff {rig r : Rig} (h : rig.normalize = .ok r) {P : String → Prop}
    (hdefault : P defaultVariant.name) :
    (∀ v ∈ r.variants, P v.name) ↔ ∀ v ∈ rig.variants, P v.name := by
  obtain ⟨-, rfl⟩ := normalize_eq_ok_iff.mp h
  rcases rig.variants_complete with ⟨hnone, hvariants⟩ | ⟨-, hvariants⟩
  · rw [hvariants, hnone, List.forall_mem_singleton]
    exact ⟨fun _ v hv => absurd hv List.not_mem_nil, fun _ => hdefault⟩
  · rw [hvariants]

/-! ### The program of a statue -/

theorem membersNamed_iff (items : List Item) :
    MembersNamed items ↔ ∀ i ∈ items, MemberNamed i := by
  induction items with
  | nil => exact ⟨fun _ _ hi => absurd hi List.not_mem_nil, fun _ => trivial⟩
  | cons i is ih => rw [MembersNamed, ih, List.forall_mem_cons]

/-- Functions with distinct single names below a directory. -/
theorem memberNamed_dir {dir : String} {vs : List Variant} {body : Variant → List Statement}
    (hdir : Path.IsName dir) (hnodup : (vs.map (·.name)).Nodup)
    (hnames : ∀ v ∈ vs, Path.IsName v.name) :
    MemberNamed (.dir dir (vs.map fun v => .function v.name (body v))) := by
  refine ⟨hdir, ?_, (membersNamed_iff _).mpr (List.forall_mem_map.mpr hnames)⟩
  refine List.Nodup.of_map Prod.snd ?_
  rw [List.map_map, List.map_map]
  exact hnodup

namespace Build

variable {s : Settings} {rig r : Rig} {summons : List (Bone × String)}

/-- The names of the functions of a statue. -/
def functionNames (r : Rig) : List String :=
  ["install", "remove/all", "remove/this"] ++ r.variants.map ("summon/" ++ ·.name) ++
    if r.touchesAny then r.variants.map ("set_variant/" ++ ·.name) else []

theorem functionNames_statue (s : Settings) (r : Rig) (summons : List (Bone × String)) :
    (statue s r summons).functions.map (fun f => "/".intercalate f.1) = functionNames r := by
  rw [functions_statue, functionNames, changes, List.map_append, List.map_append, List.map_map]
  congr 1
  split_ifs
  · rw [List.map_map]
    rfl
  · rfl

theorem names_statue (hr : rig.normalize = .ok r) :
    ∀ f ∈ (statue s r summons).functions, f.1 ≠ [] ∧ "" ∉ f.1 := by
  have hvariant : ∀ v ∈ r.variants, ∀ dir, dir ≠ "" → [dir, v.name] ≠ [] ∧ "" ∉ [dir, v.name] := by
    intro v hv dir hdir
    simp [hdir.symm, (Rig.variant_ne_empty hr v hv).symm]
  rw [functions_statue, changes]
  refine List.forall_mem_append.mpr ⟨List.forall_mem_append.mpr ⟨?_, ?_⟩, ?_⟩
  · simp
  · exact List.forall_mem_map.mpr fun v hv => hvariant v hv "summon" (by decide)
  · split_ifs
    · exact List.forall_mem_map.mpr fun v hv => hvariant v hv "set_variant" (by decide)
    · exact fun _ hf => absurd hf List.not_mem_nil

theorem groups_statue (s : Settings) (r : Rig) (summons : List (Bone × String)) :
    (statue s r summons).groups = [([boneGroup], some s.entityTypes.group)] := by
  have hnone : ∀ (dir : String) (body : Variant → List Statement),
      (leavesIn [] [Item.dir dir (r.variants.map fun v => .function v.name (body v))]).filterMap
        groupLeaf? = [] := by
    intro dir body
    refine List.filterMap_eq_nil_iff.mpr fun l hl => ?_
    simp only [leavesIn, leavesOf, leavesIn_eq_flatMap, List.append_nil, List.flatMap_map,
      List.mem_flatMap] at hl
    obtain ⟨v, -, hl⟩ := hl
    rw [List.mem_singleton.mp hl]
    rfl
  rw [Program.groups, statue]
  dsimp only
  rw [leavesIn_eq_flatMap]
  simp only [leavesIn_eq_flatMap, List.flatMap_cons, List.flatMap_nil, List.append_nil] at hnone
  simp only [List.flatMap_append, List.flatMap_cons, List.flatMap_nil, List.append_nil,
    List.filterMap_append, hnone]
  split_ifs
  · simp only [List.flatMap_cons, List.flatMap_nil, List.append_nil, hnone]
    rfl
  · rfl

/-- **A statue without detours in its names is well named.** -/
theorem wellNamed_statue (hr : rig.normalize = .ok r) (hproject : Path.IsName s.project)
    (hvariants : ∀ v ∈ r.variants, Path.IsName v.name) :
    (statue s r summons).WellNamed (Export.packOptions s) := by
  have hnodup := (Rig.variants_of_normalize hr).1
  have hfixed : ∀ n ∈ ["install", boneGroup, "remove", "all", "this", "summon", "set_variant"],
      Path.IsName n := by decide
  constructor
  · rw [statue]
    dsimp only
    split_ifs
    · exact (by decide : [(ItemKind.function, "install"), (.group, "bone_entities"),
        (.dir, "remove"), (.dir, "summon"), (.dir, "set_variant")].Nodup)
    · exact (by decide : [(ItemKind.function, "install"), (.group, "bone_entities"),
        (.dir, "remove"), (.dir, "summon")].Nodup)
  · rw [statue, membersNamed_iff]
    dsimp only
    refine List.forall_mem_append.mpr ⟨?_, ?_⟩
    · refine List.forall_mem_cons.mpr ⟨hfixed "install" (by decide), List.forall_mem_cons.mpr
        ⟨hfixed boneGroup (by decide), List.forall_mem_cons.mpr ⟨?_, List.forall_mem_singleton.mpr
          (memberNamed_dir (hfixed "summon" (by decide)) hnodup hvariants)⟩⟩⟩
      have hapart : [(ItemKind.function, "all"), (.function, "this")].Nodup := by decide
      exact ⟨hfixed "remove" (by decide), hapart, hfixed "all" (by decide),
        hfixed "this" (by decide), trivial⟩
    · split_ifs
      · exact List.forall_mem_singleton.mpr
          (memberNamed_dir (hfixed "set_variant" (by decide)) hnodup hvariants)
      · exact fun _ hi => absurd hi List.not_mem_nil
  · exact hproject
  · exact .inl rfl
  · have hnames : ∀ n ∈ (statue s r summons).items.map Item.name, n ≠ "zzz" := by
      rw [statue]
      dsimp only
      split_ifs
      · exact (by decide : ∀ n ∈ ["install", "bone_entities", "remove", "summon", "set_variant"],
          n ≠ "zzz")
      · exact (by decide : ∀ n ∈ ["install", "bone_entities", "remove", "summon"], n ≠ "zzz")
    exact fun i hi _ => hnames _ (List.mem_map_of_mem hi)

/-- Where the pack of a statue is filed by name, neither its project nor a variant is a detour. -/
theorem ne_of_filedByName (hr : rig.normalize = .ok r) {files : List PackFile}
    (hpack : (statue s r summons).pack (Export.packOptions s) = .ok files)
    (h : (statue s r summons).FiledByName (Export.packOptions s) files) :
    (s.project ≠ "." ∧ s.project ≠ "..") ∧ ∀ v ∈ r.variants, v.name ≠ "." ∧ v.name ≠ ".." := by
  have hplain : ∀ name ∈ functionNames r,
      ∀ t ∈ "data" :: (Path.segments s.project ++ ["functions"]) ++ Path.segments name,
        Path.IsPlain t := by
    rw [← functionNames_statue s r summons]
    refine List.forall_mem_map.mpr fun f hf => ?_
    have hclean := Program.isClean_of_filedByName (Identifier.ofText_ne_empty _)
      (List.cons_ne_nil _ _) (names_statue hr) hpack h hf
    rwa [Path.IsClean, PackOptions.segments_place] at hclean
  constructor
  · have hslash : '/' ∉ s.project.toList := fun h =>
      absurd (Identifier.isNameChar_of_mem_ofText h) (by decide)
    exact (hplain "install" (by simp [functionNames]) s.project
      (by simp [Path.segments_of_notMem hslash])).2
  · intro v hv
    have hmem : "summon" ++ "/" ++ v.name ∈ functionNames r :=
      List.mem_append_left _ (List.mem_append_right _ (List.mem_map_of_mem hv))
    have hslash := ((Rig.variants_of_normalize hr).2 v hv).2
    refine (hplain _ hmem v.name ?_).2
    rw [Path.segments_append, Path.segments_of_notMem hslash]
    simp

end Build

/-- **Which packs of statues are filed by name**: those of projects and variants whose names are no
detours. -/
theorem build_filedByName_iff {s : Settings} {rig : Rig} {out : Build} (hs : s.validate = .ok ())
    (h : build s (some rig) = .ok out) :
    ∃ r files, rig.normalize = .ok r ∧
      out.program.functions.map (fun f => "/".intercalate f.1) = Build.functionNames r ∧
      out.program.groups = [([boneGroup], some s.entityTypes.group)] ∧
      out.program.pack (Export.packOptions s) = .ok files ∧
      (out.program.FiledByName (Export.packOptions s) files ↔
        (s.project ≠ "." ∧ s.project ≠ "..") ∧ ∀ v ∈ rig.variants, v.name ≠ "." ∧ v.name ≠ "..") := by
  obtain ⟨r, summons, hr, -, hprogram⟩ := exists_statue_of_build h
  have hobjective := (Settings.accepted_of_validate hs).internalObjective_ne_empty
  have hpack := (Build.statue s r summons).pack_eq_ok (o := Export.packOptions s)
    (Identifier.ofText_ne_empty _) hobjective
  rw [hprogram]
  refine ⟨r, _, hr, Build.functionNames_statue s r summons, Build.groups_statue s r summons,
    hpack, ?_⟩
  rw [← Rig.forall_variants_iff hr (P := fun n => n ≠ "." ∧ n ≠ "..") (by decide)]
  refine ⟨Build.ne_of_filedByName hr hpack, fun ⟨hproject, hvariants⟩ => ?_⟩
  have hnamed : (Build.statue s r summons).WellNamed (Export.packOptions s) :=
    Build.wellNamed_statue hr ((Identifier.isName_ofText_iff _).mpr hproject) fun v hv =>
      (Rig.isName_variant_iff hr hv).mpr (hvariants v hv)
  refine Program.filedByName_of_wellNamed hnamed hpack fun _ => ?_
  rw [Build.functions_statue]
  exact ⟨_, List.mem_append_left _ (List.mem_append_left _ (List.mem_cons_self ..)), rfl⟩

/-- A rig of one bone, which has another model in a variant whose name leads upwards. -/
def Rig.upward : Rig where
  bones := [⟨"b", .zero, .zero, true, "", 1⟩]
  maxDistance := .zero false
  variants := [⟨"..", [("b", 2)]⟩]
  touched := []

/-- That rig is accepted, and both functions of its variant get one file. -/
theorem build_filedByName_iff_upward :
    ({} : Settings).validate = .ok () ∧ ∃ out files,
      build {} (some Rig.upward) = .ok out ∧
      out.program.functions.map (fun f => "/".intercalate f.1) =
        ["install", "remove/all", "remove/this", "summon/..", "set_variant/.."] ∧
      out.program.pack (Export.packOptions {}) = .ok files ∧
      PackPart.functionPath (Export.packOptions {}) ["summon", ".."] =
        PackPart.functionPath (Export.packOptions {}) ["set_variant", ".."] ∧
      ¬ out.program.FiledByName (Export.packOptions {}) files := by
  have hnormal : Rig.upward.normalize = .ok { Rig.upward with touched := ["b"] } := rfl
  have hexported : ∀ b ∈ ({ Rig.upward with touched := ["b"] } : Rig).exportedBones,
      ∃ payload, b.payload ({} : Settings).tags {} = .ok payload :=
    List.forall_mem_singleton.mpr ⟨_, Bone.payload_eq_ok.mpr ⟨[], [], [], rfl, rfl, rfl, rfl⟩⟩
  obtain ⟨out, hout⟩ := exists_build (s := {}) hnormal hexported
  obtain ⟨r, files, hr, hnames, -, hpack, hiff⟩ :=
    build_filedByName_iff Settings.validate_default hout
  obtain rfl := Except.ok.inj (hr.symm.trans hnormal)
  refine ⟨Settings.validate_default, out, files, hout, hnames, hpack, by decide, fun hfiled => ?_⟩
  exact ((hiff.mp hfiled).2 _ (List.mem_singleton_self _)).2 rfl

end Statuary
