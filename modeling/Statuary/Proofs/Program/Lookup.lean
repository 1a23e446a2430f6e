import Mathlib.Data.List.Pairwise
import Statuary.Proofs.Program.Filing

/-!
# What is looked up and what is filed

A function is looked up by walking down from the top, at each directory to the first member with the
next name and never back. A pack is made by going through the whole tree, and the names on the way
are joined to a path. Both see the same functions if no two neighbours have one name, of whatever
kind they are (`Statuary.MembersTold`): a lookup finds a function exactly if there is a file where
its path says, and then the file is made of the body that was found
(`Statuary.Program.found_iff_filed`). The directory of the generated functions is left out, since
the files in it are not those of functions that can be looked up.

The two ways are compared on **lists of names** (`Statuary.find_eq_some_iff`), by induction on the
names to walk along. That a path of a file spells one list of names only is what the names being
single, and the namespace and the directory being without detours, are for.
-/

namespace Statuary

/-! ### Neighbours with names of their own -/

mutual

/-- The members have single names, and no two neighbours have one name, nor any below them. -/
def MembersTold : List Item → Prop
  | [] => True
  | i :: is => MemberTold i ∧ (∀ j ∈ is, j.name ≠ i.name) ∧ MembersTold is

/-- The same for one member. -/
def MemberTold : Item → Prop
  | .function name _ => Path.IsName name
  | .dir name items => Path.IsName name ∧ MembersTold items
  | .group name _ => Path.IsName name

end

theorem siblingsApart_of_told : ∀ {items : List Item}, MembersTold items → SiblingsApart items
  | [], _ => List.nodup_nil
  | i :: is, h => by
    refine List.nodup_cons.mpr ⟨fun hmem => ?_, siblingsApart_of_told h.2.2⟩
    obtain ⟨j, hj, he⟩ := List.mem_map.mp hmem
    exact h.2.1 j hj (Prod.mk.inj he).2

mutual

theorem membersNamed_of_told : ∀ {items : List Item}, MembersTold items → MembersNamed items
  | [], _ => trivial
  | _ :: _, h => ⟨memberNamed_of_told h.1, membersNamed_of_told h.2.2⟩

theorem memberNamed_of_told : ∀ {i : Item}, MemberTold i → MemberNamed i
  | .function .., h => h
  | .dir .., h => ⟨h.1, siblingsApart_of_told h.2, membersNamed_of_told h.2⟩
  | .group .., h => h

end

namespace MembersTold

variable {items : List Item}

theorem of_mem (h : MembersTold items) {i : Item} (hi : i ∈ items) : MemberTold i := by
  induction items with
  | nil => exact absurd hi List.not_mem_nil
  | cons j items ih =>
    rcases List.mem_cons.mp hi with rfl | hi
    · exact h.1
    · exact ih h.2.2 hi

/-- A member is the first one of its name. -/
theorem find?_eq_some_iff (h : MembersTold items) {name : String} {i : Item} :
    items.find? (·.name = name) = some i ↔ i ∈ items ∧ i.name = name := by
  refine ⟨fun hfind => ⟨List.mem_of_find?_eq_some hfind, by simpa using List.find?_some hfind⟩, ?_⟩
  rintro ⟨hi, rfl⟩
  induction items with
  | nil => exact absurd hi List.not_mem_nil
  | cons j items ih =>
    rcases List.mem_cons.mp hi with rfl | hi
    · exact List.find?_cons_of_pos (decide_eq_true rfl)
    · rw [List.find?_cons_of_neg (by simpa using (h.2.1 i hi).symm)]
      exact ih h.2.2 hi

end MembersTold

/-! ### Walking down -/

section Walk

variable {items : List Item} {i : Item} {name next : String} {rest : List String}

theorem find_singleton_iff (h : MembersTold items) :
    Program.find items [name] = some i ↔ i ∈ items ∧ i.name = name := by
  rw [Program.find, h.find?_eq_some_iff]

/-- A lookup of several names goes on in a directory. -/
theorem find_cons_cons_iff (h : MembersTold items) :
    Program.find items (name :: next :: rest) = some i ↔
      ∃ inner, .dir name inner ∈ items ∧ Program.find inner (next :: rest) = some i := by
  rw [Program.find.eq_def]
  dsimp only
  constructor
  · intro hfind
    split at hfind
    · rename_i n inner hdir
      obtain ⟨hmem, rfl⟩ := h.find?_eq_some_iff.mp hdir
      exact ⟨inner, hmem, hfind⟩
    · exact absurd hfind nofun
  · rintro ⟨inner, hmem, hfind⟩
    have hfirst : items.find? (·.name = name) = some (.dir name inner) :=
      h.find?_eq_some_iff.mpr ⟨hmem, rfl⟩
    rw [hfirst]
    exact hfind

theorem mem_leavesOf_singleton {dirs : List String} (hi : i.kind ≠ .dir) {j : Item} :
    (dirs ++ [name], i) ∈ leavesOf dirs j ↔ j = i ∧ i.name = name := by
  constructor
  · intro hmem
    obtain ⟨rest, hnames, hplace⟩ := names_of_mem_leavesOf j dirs _ hmem
    obtain ⟨rfl, rfl⟩ := List.cons.inj (List.append_cancel_left hnames)
    rcases hplace with ⟨-, hsame⟩ | ⟨hne, -⟩
    · exact ⟨hsame.symm, congrArg Item.name hsame⟩
    · exact absurd rfl hne
  · rintro ⟨rfl, rfl⟩
    cases j with
    | dir => exact absurd rfl hi
    | function => exact List.mem_singleton_self _
    | group => exact List.mem_singleton_self _

theorem mem_leavesOf_cons_cons {dirs : List String} {j : Item} :
    (dirs ++ name :: next :: rest, i) ∈ leavesOf dirs j ↔
      ∃ inner, j = .dir name inner ∧
        (dirs ++ [name] ++ next :: rest, i) ∈ leavesIn (dirs ++ [name]) inner := by
  rw [List.append_assoc]
  constructor
  · intro hmem
    obtain ⟨rest', hnames, hplace⟩ := names_of_mem_leavesOf j dirs _ hmem
    obtain ⟨rfl, rfl⟩ := List.cons.inj (List.append_cancel_left hnames)
    -- the names go on, so what stands at the first of them is a directory
    rcases hplace with ⟨hnil, -⟩ | ⟨-, hdir⟩
    · exact absurd hnil (List.cons_ne_nil _ _)
    · cases j with
      | dir n inner => exact ⟨inner, rfl, hmem⟩
      | function => cases hdir
      | group => cases hdir
  · rintro ⟨inner, rfl, hmem⟩
    exact hmem

/-- **Walking along names** leads to a function or a group exactly if it stands there. -/
theorem find_eq_some_iff (names : List String) (dirs : List String) (h : MembersTold items)
    (hi : i.kind ≠ .dir) :
    Program.find items names = some i ↔ (dirs ++ names, i) ∈ leavesIn dirs items := by
  induction names generalizing items dirs with
  | nil =>
    refine iff_of_false (fun hfind => nomatch hfind) fun hmem => ?_
    obtain ⟨j, -, rest, hnames, -⟩ := names_of_mem_leavesIn items dirs _ hmem
    exact absurd (List.append_cancel_left hnames) (List.cons_ne_nil _ _).symm
  | cons name rest ih =>
    rw [leavesIn_eq_flatMap, List.mem_flatMap]
    cases rest with
    | nil =>
      rw [find_singleton_iff h]
      simp only [mem_leavesOf_singleton hi]
      refine ⟨fun hmem => ⟨i, hmem.1, rfl, hmem.2⟩, ?_⟩
      rintro ⟨j, hj, rfl, hname⟩
      exact ⟨hj, hname⟩
    | cons next rest =>
      rw [find_cons_cons_iff h]
      simp only [mem_leavesOf_cons_cons]
      constructor
      · rintro ⟨inner, hmem, hfind⟩
        exact ⟨_, hmem, inner, rfl, (ih _ (h.of_mem hmem).2).mp hfind⟩
      · rintro ⟨_, hmem, inner, rfl, hleaf⟩
        exact ⟨inner, hmem, (ih _ (h.of_mem hmem).2).mpr hleaf⟩

end Walk

namespace Program

variable {p : Program}

/-- **A function is found exactly if it is one of the program.** -/
theorem function?_eq_some_iff (h : MembersTold p.items) {q : String} {body : List Statement} :
    p.function? q = some body ↔ (Path.segments q, body) ∈ p.functions := by
  have hkind : ∀ name found, (Item.function name found).kind ≠ .dir := by simp [Item.kind]
  rw [functions, functionsIn_eq, List.mem_filterMap]
  constructor
  · intro hfind
    rw [function?] at hfind
    split at hfind
    · rename_i name found hlookup
      cases hfind
      exact ⟨_, (find_eq_some_iff _ [] h (hkind _ _)).mp hlookup, rfl⟩
    · cases hfind
  · rintro ⟨⟨names, i⟩, hmem, hleaf⟩
    cases i with
    | function name found =>
      cases hleaf
      have hlookup : p.lookup q = some (.function name body) :=
        (find_eq_some_iff _ [] h (hkind _ _)).mpr hmem
      rw [function?, hlookup]
    | dir => cases hleaf
    | group => cases hleaf

end Program

/-! ### The path that a name stands for -/

namespace PackOptions

variable {o : PackOptions}

/-- The function does not lie in the directory of the generated functions. -/
def Outside (o : PackOptions) (q : String) : Prop :=
  ¬ Path.segments o.generatedDir <+: (Path.segments q).dropLast

instance (o : PackOptions) (q : String) : Decidable (o.Outside q) :=
  inferInstanceAs (Decidable (¬ _))

theorem namedPath_injective {q q' : String} (h : o.namedPath q = o.namedPath q') : q = q' := by
  rw [namedPath, namedPath, String.append_left_inj, String.append_right_inj] at h
  exact h

/-- Without detours, the path of a function is where it belongs by its name. -/
theorem functionPath_of_isClean (hspace : Path.IsClean o.space) {names : List String}
    (hne : names ≠ []) (h : ∀ s ∈ names, Path.IsClean s) :
    PackPart.functionPath o names = o.namedPath ("/".intercalate names) := by
  obtain ⟨name, rest, rfl⟩ := List.exists_cons_of_ne_nil hne
  have hclean : ∀ s ∈ "data" :: o.space :: "functions" :: name :: rest, Path.IsClean s :=
    List.forall_mem_cons.mpr ⟨by decide, List.forall_mem_cons.mpr ⟨hspace,
      List.forall_mem_cons.mpr ⟨by decide, h⟩⟩⟩
  rw [PackPart.functionPath, Path.join_of_isClean (List.cons_ne_nil _ _) hclean, namedPath_eq]
  simp only [String.intercalate_cons_cons, String.intercalate_singleton]

/-- So is the path of a generated function. -/
theorem generatedPath_of_isClean (hspace : Path.IsClean o.space)
    (hgenerated : Path.IsClean o.generatedDir) (n : ℕ) :
    o.generatedPath n = o.namedPath (o.generatedDir ++ "/" ++ toString n) := by
  have hclean : ∀ s ∈ [o.generatedDir, toString n], Path.IsClean s :=
    List.forall_mem_cons.mpr ⟨hgenerated, List.forall_mem_singleton.mpr
      (Path.isClean_of_isName ⟨isPlain_toString n, slash_notMem_toString n⟩)⟩
  refine (functionPath_of_isClean hspace (List.cons_ne_nil _ _) hclean).trans ?_
  rw [intercalate_generated]

/-- A function outside has not the path of a generated one. -/
theorem Outside.ne_generatedPath {q : String} (hq : o.Outside q) (hspace : Path.IsClean o.space)
    (hgenerated : Path.IsClean o.generatedDir) (n : ℕ) : o.generatedPath n ≠ o.namedPath q := by
  intro h
  rw [generatedPath_of_isClean hspace hgenerated] at h
  have hq : ¬ Path.segments o.generatedDir <+: (Path.segments q).dropLast := hq
  rw [← namedPath_injective h, Path.segments_append,
    Path.segments_of_notMem (slash_notMem_toString n), List.dropLast_concat] at hq
  exact hq (List.prefix_refl _)

end PackOptions

/-- A function's file has another ending than the others. -/
theorem append_mcfunction_ne (q r : String) {e : String} (he : e ∈ [".json", ".mcmeta"]) :
    q ++ ".mcfunction" ≠ r ++ e := by
  intro h
  have hback := congrArg (fun s => s.toList.reverse) h
  rcases List.mem_cons.mp he with rfl | he
  · simp at hback
  · rw [List.mem_singleton.mp he] at hback
    simp at hback

theorem PackPart.mem_segments_groupPath {o : PackOptions} (hspace : Path.IsClean o.space)
    {names : List String} (h : Path.IsLocation names) :
    "entity_types" ∈ Path.segments (groupPath o names) := by
  obtain ⟨dirs, name, rfl⟩ := (List.eq_nil_or_concat' names).resolve_left h.ne_nil
  obtain ⟨hdirs, hname⟩ := List.forall_mem_append.mp h.isName
  have hlast : Path.IsName (name ++ ".json") :=
    Path.isName_append (List.forall_mem_singleton.mp hname).2 (by decide) (by decide)
  have hclean : ∀ s ∈ "data" :: o.space :: "tags" :: "entity_types" :: (dirs ++ [name ++ ".json"]),
      Path.IsClean s := by
    simp only [List.forall_mem_cons, List.forall_mem_append]
    refine ⟨by decide, hspace, by decide, by decide,
      fun s hs => Path.isClean_of_isName (hdirs s hs), Path.isClean_of_isName hlast, ?_⟩
    exact fun _ hs => absurd hs List.not_mem_nil
  rw [groupPath, List.dropLast_concat, List.getLast?_concat]
  change "entity_types" ∈ Path.segments
    (Path.join ("data" :: o.space :: "tags" :: "entity_types" :: (dirs ++ [name ++ ".json"])))
  rw [Path.join_of_isClean (List.cons_ne_nil _ _) hclean]
  exact Path.mem_segments_intercalate (s := "entity_types") (by simp) (by decide)

/-! ### What is filed -/

/-- What is picked once is picked from one thing. -/
theorem eq_of_nodup_filterMap {α β : Type} {f : α → Option β} {as : List α}
    (h : (as.filterMap f).Nodup) {a b : α} (ha : a ∈ as) (hb : b ∈ as) {x : β}
    (hax : f a = some x) (hbx : f b = some x) : a = b := by
  have hapart : as.Pairwise fun a b => ∀ x, f a = some x → f b ≠ some x :=
    (List.pairwise_filterMap.mp h).imp fun hab x hx hy => hab x hx x hy rfl
  have hsymm : Std.Symm fun a b => ∀ x, f a = some x → f b ≠ some x :=
    ⟨fun a b hab x hx hy => hab x hy hx⟩
  by_contra hne
  exact hapart.forall ha hb hne x hax hbx

namespace Program

variable {p : Program} {o : PackOptions} {files : List PackFile} {q : String}

/-- What a part of a pack is. -/
theorem cases_of_mem_packParts {part : PackPart} (h : part ∈ p.packParts) :
    (∃ f ∈ p.functions, ∃ lines, part = .function f.1 lines) ∨
      (∃ n lines, part = .generated n lines) ∨ ∃ g ∈ p.groups, part = .group g.1 g.2 := by
  obtain ⟨functions, generated, -, hparts⟩ := p.exists_linkedParts
  exact cases_of_mem_linkedParts (hparts.mem_iff.mp h)

/-- A file of a pack is that of a part, or one of the two that belong to the pack as a whole. -/
theorem cases_of_mem_pack (hpack : p.pack o = .ok files) {file : PackFile} (h : file ∈ files) :
    (∃ part ∈ p.packParts, file = part.file o p.header) ∨ file.path = "pack.mcmeta" ∨
      file ∈ p.loadFile o := by
  rw [eq_of_pack hpack, List.mem_append, List.mem_append] at h
  rcases h with (h | h) | h
  · obtain ⟨part, hpart, rfl⟩ := List.mem_map.mp h
    exact .inl ⟨part, hpart, rfl⟩
  · exact .inr (.inl (congrArg PackFile.path (List.mem_singleton.mp h)))
  · exact .inr (.inr h)

theorem path_of_mem_loadFile {file : PackFile} (h : file ∈ p.loadFile o) :
    file.path = "data/minecraft/tags/functions/load.json" :=
  List.mem_singleton.mp (loadFile_sublist.subset (List.mem_map_of_mem h))

/-- The file of a function ends in the sign of functions. -/
theorem exists_path_eq_of_lines? {part : PackPart} {lines : List PackLine}
    (h : part.lines? = some lines) :
    ∃ q, (part.file o p.header).path = q ++ ".mcfunction" := by
  cases part with
  | generated n lines => exact ⟨_, rfl⟩
  | function names lines => exact ⟨_, rfl⟩
  | group names values => cases h

/-- A file with the ending of functions is that of a function. -/
theorem exists_part_of_mcfunction (hpack : p.pack o = .ok files) {file : PackFile}
    (hfile : file ∈ files) {q : String} (hpath : file.path = q ++ ".mcfunction") :
    ∃ part ∈ p.packParts, (∃ lines, part.lines? = some lines) ∧ file = part.file o p.header := by
  have hending : ∀ r, ∀ e ∈ [".json", ".mcmeta"], file.path ≠ r ++ e := by
    rw [hpath]
    exact fun r e he => append_mcfunction_ne q r he
  rcases cases_of_mem_pack hpack hfile with ⟨part, hpart, rfl⟩ | hmeta | hload
  · refine ⟨part, hpart, ?_, rfl⟩
    rcases cases_of_mem_packParts hpart with ⟨f, -, lines, rfl⟩ | ⟨n, lines, rfl⟩ | ⟨g, hg, rfl⟩
    · exact ⟨lines, rfl⟩
    · exact ⟨lines, rfl⟩
    · obtain ⟨r, hr⟩ := exists_groupPath_eq (o := o) (group_ne_nil hg)
      exact absurd hr (hending r ".json" (by decide))
  · exact absurd hmeta (hending "pack" ".mcmeta" (by decide))
  · exact absurd (path_of_mem_loadFile hload)
      (hending "data/minecraft/tags/functions/load" ".json" (by decide))

section Filed

variable (hnames : MembersTold p.items) (hspace : Path.IsClean o.space)
  (hgenerated : Path.IsClean o.generatedDir) (hpack : p.pack o = .ok files)

include hnames hspace

theorem functionPath_of_told {names : List String} {body : List Statement}
    (hf : (names, body) ∈ p.functions) :
    PackPart.functionPath o names = o.namedPath ("/".intercalate names) := by
  have hlocation := isLocation_of_mem_functionsIn (membersNamed_of_told hnames) hf
  exact PackOptions.functionPath_of_isClean hspace hlocation.ne_nil fun s hs =>
    Path.isClean_of_isName (hlocation.isName s hs)

include hgenerated hpack

/-- **What is filed where the name of a function says** is that function. -/
theorem exists_part_of_path (hq : o.Outside q) {file : PackFile} (hfile : file ∈ files)
    (hpath : file.path = o.namedPath q) :
    ∃ body, (Path.segments q, body) ∈ p.functions ∧ ∃ lines,
      .function (Path.segments q) lines ∈ p.packParts ∧
        file = ⟨o.namedPath q, PackPart.functionText o p.header lines⟩ := by
  obtain ⟨part, hpart, ⟨lines, hlines⟩, rfl⟩ := exists_part_of_mcfunction hpack hfile hpath
  rcases cases_of_mem_packParts hpart with ⟨f, hf, lines, rfl⟩ | ⟨n, lines, rfl⟩ | ⟨g, -, rfl⟩
  · have hlocation := isLocation_of_mem_functionsIn (membersNamed_of_told hnames) hf
    have hname := (functionPath_of_told hnames hspace hf).symm.trans hpath
    have hsegments := Path.segments_intercalate hlocation.ne_nil hlocation.slash_notMem
    rw [PackOptions.namedPath_injective hname] at hsegments
    refine ⟨f.2, hsegments ▸ hf, lines, hsegments ▸ hpart, ?_⟩
    rw [← hpath]
    rfl
  · exact absurd hpath (hq.ne_generatedPath hspace hgenerated n)
  · cases hlines

/-- **What is filed for a function** is made of its body, and so are the functions called there. -/
theorem exists_file_of_mem_functions (hq : o.Outside q) {body : List Statement}
    (hf : (Path.segments q, body) ∈ p.functions) :
    ∃ c, (∀ file, file ∈ files ∧ file.path = o.namedPath q ↔
        file = ⟨o.namedPath q, PackPart.functionText o p.header (compileBody c body).lines⟩) ∧
      ∀ g ∈ (compileBody c body).generated,
        (PackPart.generated g.1 g.2).file o p.header ∈ files := by
  obtain ⟨-, c, hpart, hinner⟩ := exists_compiled p.items [] {} _ hf
  have hfiles := (space_ne_empty_of_pack hpack).2
  have hpath : PackPart.functionPath o (Path.segments q) = o.namedPath q := by
    rw [functionPath_of_told hnames hspace hf, Path.intercalate_segments]
  refine ⟨c, fun file => ⟨?_, ?_⟩, fun g hg => hfiles _ (hinner g hg)⟩
  · rintro ⟨hfile, hnamed⟩
    obtain ⟨body', -, lines, hpart', rfl⟩ :=
      exists_part_of_path hnames hspace hgenerated hpack hq hfile hnamed
    -- no two functions stand at one place, so there is one part with these names
    have hapart : (p.packParts.filterMap PackPart.names?).Nodup := by
      rw [packParts, (parts_compileItems p.items [] {}).2.2]
      exact nodup_functionsIn (siblingsApart_of_told hnames) (membersNamed_of_told hnames)
    have hsame := eq_of_nodup_filterMap hapart hpart' hpart (x := Path.segments q) rfl rfl
    rw [(PackPart.function.inj hsame).2]
  · rintro rfl
    refine ⟨?_, rfl⟩
    have hfile := hfiles _ hpart
    rwa [PackPart.file, hpath] at hfile

theorem isSome_iff_filed (hq : o.Outside q) :
    (p.function? q).isSome ↔ o.namedPath q ∈ files.map (·.path) := by
  rw [Option.isSome_iff_exists]
  simp only [function?_eq_some_iff hnames]
  constructor
  · rintro ⟨body, hf⟩
    obtain ⟨c, hfile, -⟩ := exists_file_of_mem_functions hnames hspace hgenerated hpack hq hf
    obtain ⟨hmem, hpath⟩ := (hfile _).mpr rfl
    exact List.mem_map.mpr ⟨_, hmem, hpath⟩
  · intro hmem
    obtain ⟨file, hfile, hpath⟩ := List.mem_map.mp hmem
    obtain ⟨body, hf, -⟩ := exists_part_of_path hnames hspace hgenerated hpack hq hfile hpath
    exact ⟨body, hf⟩

omit hgenerated in
/-- No group is filed where the tag of the function to be loaded is. -/
theorem mem_loadFile_of_path {file : PackFile} (hfile : file ∈ files)
    (hpath : file.path = "data/minecraft/tags/functions/load.json") : file ∈ p.loadFile o := by
  have hending : ∀ r, file.path ≠ r ++ ".mcfunction" := by
    rw [hpath]
    exact fun r => (append_mcfunction_ne r "data/minecraft/tags/functions/load"
      (e := ".json") (by decide)).symm
  rcases cases_of_mem_pack hpack hfile with ⟨part, hpart, rfl⟩ | hmeta | hload
  · rcases cases_of_mem_packParts hpart with ⟨f, hf, lines, rfl⟩ | ⟨n, lines, rfl⟩ | ⟨g, hg, rfl⟩
    · exact absurd rfl (hending _)
    · exact absurd rfl (hending _)
    · have hlocation := isLocation_of_picks (membersNamed_of_told hnames) picks_groupLeaf? hg
      have hmem : "entity_types" ∈
          Path.segments ((PackPart.group g.1 g.2).file o p.header).path :=
        PackPart.mem_segments_groupPath hspace hlocation
      rw [hpath] at hmem
      exact absurd hmem (by decide)
  · rw [hmeta] at hpath
    exact absurd hpath (by decide)
  · exact hload

end Filed

/-- **What is looked up is what is filed.** Where no two neighbours have one name, a function
outside the directory of the generated functions is found exactly if there is a file where its name
says. Then that is the only file there, and it is made of the body that was found. So the function
to be loaded is tagged exactly if it has a file. -/
theorem found_iff_filed (hnames : MembersTold p.items) (hspace : Path.IsClean o.space)
    (hgenerated : Path.IsClean o.generatedDir) (hpack : p.pack o = .ok files) :
    (∀ q, o.Outside q →
      ((p.function? q).isSome ↔ o.namedPath q ∈ files.map (·.path)) ∧
      ∀ body, p.function? q = some body → ∃ c,
        (∀ file, file ∈ files ∧ file.path = o.namedPath q ↔
          file = ⟨o.namedPath q, String.join (p.header.map (fun h => "#" ++ h ++ "\n") ++
            (compileBody c body).lines.map (·.text o ++ "\n"))⟩) ∧
        ∀ g ∈ (compileBody c body).generated,
          (PackPart.generated g.1 g.2).file o p.header ∈ files) ∧
    (o.Outside o.loadFunction →
      ("data/minecraft/tags/functions/load.json" ∈ files.map (·.path) ↔
        o.namedPath o.loadFunction ∈ files.map (·.path))) := by
  refine ⟨fun q hq => ⟨isSome_iff_filed hnames hspace hgenerated hpack hq, fun body hbody => ?_⟩,
    fun hq => ?_⟩
  · rw [function?_eq_some_iff hnames] at hbody
    exact exists_file_of_mem_functions hnames hspace hgenerated hpack hq hbody
  · rw [← isSome_iff_filed hnames hspace hgenerated hpack hq]
    constructor
    · -- the file of the tag is there for the function only, so the function was found
      intro hmem
      obtain ⟨file, hfile, hpath⟩ := List.mem_map.mp hmem
      have hload := mem_loadFile_of_path hnames hspace hpack hfile hpath
      rw [loadFile] at hload
      split_ifs at hload with h
      · exact h.2
      · exact absurd hload List.not_mem_nil
    · intro hfound
      have hne : o.loadFunction ≠ "" := by
        intro hempty
        obtain ⟨body, hbody⟩ := Option.isSome_iff_exists.mp hfound
        rw [hempty, function?_eq_some_iff hnames] at hbody
        have hlocation := isLocation_of_mem_functionsIn (membersNamed_of_told hnames) hbody
        have hmem : "" ∈ Path.segments "" := by decide
        exact absurd (hlocation.isName "" hmem) (by decide)
      rw [eq_of_pack hpack, List.map_append, loadFile, if_pos ⟨hne, hfound⟩]
      exact List.mem_append_right _ (List.mem_singleton_self _)

end Program

theorem nestedProgram_told : MembersTold nestedProgram.items := by
  have hnames : ∀ s ∈ ["a", "b", "zzz"], Path.IsName s := by decide
  have hinner : MembersTold [.function "b" nestedBody] :=
    ⟨hnames "b" (by decide), fun _ hj => absurd hj List.not_mem_nil, trivial⟩
  exact ⟨⟨hnames "a" (by decide), hinner⟩, List.forall_mem_singleton.mpr (by decide),
    hnames "zzz" (by decide), fun _ hj => absurd hj List.not_mem_nil, trivial⟩

/-- A namespace and a directory of several names, the directory beside a function. -/
def besideOptions : PackOptions where
  space := "n/m"
  generated := "a/made"
  flagObjective := "o"
  loadFunction := "a/b"

theorem found_iff_filed_beside :
    ∃ files, nestedProgram.pack besideOptions = .ok files ∧
      besideOptions.namedPath "a/b" ∈ files.map (·.path) ∧
      besideOptions.namedPath "a/made" ∉ files.map (·.path) ∧
      "data/minecraft/tags/functions/load.json" ∈ files.map (·.path) := by
  obtain ⟨hfiled, hload⟩ := Program.found_iff_filed nestedProgram_told
    (o := besideOptions) (by decide) (by decide) rfl
  have hfile := (hfiled "a/b" (by decide)).1.mp rfl
  refine ⟨_, rfl, hfile, fun hmem => ?_, (hload (by decide)).mpr hfile⟩
  exact absurd ((hfiled "a/made" (by decide)).1.mpr hmem) (by decide)

end Statuary
