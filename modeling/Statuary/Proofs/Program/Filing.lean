import Statuary.Proofs.Files.Place
import Statuary.Proofs.Program.Linking

/-!
# Files where the names say

The path of a file is made of names, and where a name is a detour the file is written somewhere
else. A pack is **filed by name** (`Statuary.Program.FiledByName`) if the file of each function lies
where its name says, read as plain text, and every reference leads to a file. The pack of a
well-named program is filed by name (`Statuary.Program.filedByName_of_wellNamed`).

The converse is what shows that names matter: a path that spells `..` is not written by any file,
because what is written is cleaned of detours. So if a pack is filed by name, none of the names of
its functions is a detour (`Statuary.Program.isClean_of_filedByName`).
-/

namespace Statuary

/-! ### Paths by name -/

namespace PackOptions

/-- Where a function belongs by its name. -/
def namedPath (o : PackOptions) (name : String) : String :=
  "data/" ++ o.space ++ "/functions/" ++ name ++ ".mcfunction"

/-- Where a group belongs by its name. -/
def namedGroupPath (o : PackOptions) (name : String) : String :=
  "data/" ++ o.space ++ "/tags/entity_types/" ++ name ++ ".json"

variable {o : PackOptions} {names : List String}

theorem namedPath_eq (name : String) :
    o.namedPath name = "/".intercalate ["data", o.space, "functions", name] ++ ".mcfunction" := by
  simp only [namedPath, String.intercalate_cons_cons, String.intercalate_singleton,
    String.append_assoc]
  rfl

theorem functionPath_eq_namedPath (hspace : Path.IsName o.space) (h : Path.IsLocation names) :
    PackPart.functionPath o names = o.namedPath ("/".intercalate names) := by
  obtain ⟨name, rest, rfl⟩ := List.exists_cons_of_ne_nil h.ne_nil
  rw [PackPart.functionPath_of_isLocation hspace h, namedPath, functionDirs]
  simp only [List.cons_append, List.nil_append, String.intercalate_cons_cons, String.append_assoc]
  rfl

theorem groupPath_eq_namedGroupPath (hspace : Path.IsName o.space) (h : Path.IsLocation names) :
    PackPart.groupPath o names = o.namedGroupPath ("/".intercalate names) := by
  obtain ⟨name, rest, rfl⟩ := List.exists_cons_of_ne_nil h.ne_nil
  rw [PackPart.groupPath_of_isLocation hspace h, namedGroupPath, groupDirs]
  simp only [List.cons_append, List.nil_append, String.intercalate_cons_cons, String.append_assoc]
  rfl

theorem reference_eq_iff (n : ℕ) (ref : String) :
    o.reference n = o.space ++ ":" ++ ref ↔ ref = "/".intercalate [o.generatedDir, toString n] := by
  rw [reference, intercalate_generated]
  simp only [String.append_assoc, String.append_right_inj]
  exact eq_comm

end PackOptions

/-- The file of a part where its name says. -/
def PackPart.namedFile (o : PackOptions) (header : List String) : PackPart → PackFile
  | generated n lines => ⟨o.namedPath ("/".intercalate [o.generatedDir, toString n]),
      functionText o header lines⟩
  | function names lines => ⟨o.namedPath ("/".intercalate names), functionText o header lines⟩
  | group names values => ⟨o.namedGroupPath ("/".intercalate names), valuesJson values⟩

namespace Program

variable {p : Program} {o : PackOptions} {files : List PackFile}

/-- The files of a linked pack, each where its name says. -/
def namedFiles (p : Program) (o : PackOptions) (functions generated : List (List Site)) :
    List PackFile :=
  (p.linkedParts functions generated).map (·.namedFile o p.header) ++
    [⟨"pack.mcmeta", metaJson o⟩] ++ p.loadFile o

/-- **The files of a pack are where their names say.** -/
structure FiledByName (p : Program) (o : PackOptions) (files : List PackFile) : Prop where
  /-- The pack is linked, each of its files is where its name says, and every call leads to one. -/
  linked : ∃ bodies functions generated, p.Linked bodies functions generated ∧
    files.Perm (p.namedFiles o functions generated) ∧
      ∀ n ∈ (functions.flatten ++ generated.flatten).flatMap Site.calls, ∀ ref,
        o.reference n = o.space ++ ":" ++ ref → o.namedPath ref ∈ files.map (·.path)
  /-- The function that is run when the pack is loaded is where its name says. -/
  loaded : p.loadFile o ≠ [] → o.namedPath o.loadFunction ∈ files.map (·.path)
  /-- No file is written over. -/
  distinct : (files.map (·.path)).Nodup

/-- What a part of a linked pack is. -/
theorem cases_of_mem_linkedParts {functions generated : List (List Site)} {part : PackPart}
    (h : part ∈ p.linkedParts functions generated) :
    (∃ f ∈ p.functions, ∃ lines, part = .function f.1 lines) ∨
      (∃ n lines, part = .generated n lines) ∨ ∃ g ∈ p.groups, part = .group g.1 g.2 := by
  rw [linkedParts, Statuary.linkedParts, functionParts, List.mem_append, List.mem_append] at h
  rcases h with (h | h) | h
  · obtain ⟨f, hf, rfl⟩ := List.mem_map.mp h
    exact .inl ⟨f.1, (List.of_mem_zip hf).1, _, rfl⟩
  · obtain ⟨g, -, rfl⟩ := List.mem_map.mp h
    exact .inr (.inl ⟨_, _, rfl⟩)
  · obtain ⟨g, hg, rfl⟩ := List.mem_map.mp h
    exact .inr (.inr ⟨g, hg, rfl⟩)

/-- Every function of the program is a part of a linked pack. -/
theorem exists_mem_linkedParts {bodies : List (List Statement)}
    {functions generated : List (List Site)} (h : p.Linked bodies functions generated)
    {f : List String × List Statement} (hf : f ∈ p.functions) :
    ∃ lines, .function f.1 lines ∈ p.linkedParts functions generated := by
  have hzip : (p.functions.zip functions).map (·.1) = p.functions :=
    List.map_fst_zip (Nat.le_of_eq h.compilesFunctions.length_eq)
  rw [← hzip] at hf
  obtain ⟨g, hg, rfl⟩ := List.mem_map.mp hf
  exact ⟨_, List.mem_append_left _ (List.mem_append_left _ (List.mem_map_of_mem hg))⟩

/-- So is every generated function. -/
theorem exists_generated_mem_linkedParts {bodies : List (List Statement)}
    {functions generated : List (List Site)} (h : p.Linked bodies functions generated) {n : ℕ}
    (hn : n < bodies.length) : ∃ lines, .generated n lines ∈ p.linkedParts functions generated := by
  have hmem : n ∈ (numbered 0 generated).map (·.1) := by
    rw [numbered_fst, ← h.compilesBodies.length_eq, List.mem_range'_1]
    omega
  obtain ⟨g, hg, rfl⟩ := List.mem_map.mp hmem
  exact ⟨_, List.mem_append_left _ (List.mem_append_right _ (List.mem_map_of_mem hg))⟩

/-! ### Names in order -/

theorem namedFiles_eq (h : p.WellNamed o) (functions generated : List (List Site)) :
    p.namedFiles o functions generated = p.linkedFiles o functions generated := by
  rw [namedFiles, linkedFiles]
  congr 2
  refine List.map_congr_left fun part hpart => ?_
  rcases cases_of_mem_linkedParts hpart with ⟨f, hf, lines, rfl⟩ | ⟨n, lines, rfl⟩ | ⟨g, hg, rfl⟩
  · rw [PackPart.namedFile, PackPart.file,
      PackOptions.functionPath_eq_namedPath h.space (h.isLocation_function hf)]
  · rw [PackPart.namedFile, PackPart.file,
      PackOptions.functionPath_eq_namedPath h.space (h.isLocation_generated n)]
  · rw [PackPart.namedFile, PackPart.file,
      PackOptions.groupPath_eq_namedGroupPath h.space (h.isLocation_group hg)]

/-- **The pack of a well-named program is filed by name**, the function to be loaded given as one of
its functions. -/
theorem filedByName_of_wellNamed (h : p.WellNamed o) (hpack : p.pack o = .ok files)
    (hload : p.loadFile o ≠ [] → ∃ f ∈ p.functions, o.loadFunction = "/".intercalate f.1) :
    p.FiledByName o files := by
  obtain ⟨functions, generated, hlinked, hperm⟩ := exists_linked hpack
  have hnodup := nodup_path_of_linked h hlinked hperm
  rw [← namedFiles_eq h] at hperm
  have hmem : ∀ part ∈ p.linkedParts functions generated,
      (part.namedFile o p.header).path ∈ files.map (·.path) := fun part hpart =>
    List.mem_map_of_mem <| hperm.mem_iff.mpr <| List.mem_append_left _ <|
      List.mem_append_left _ (List.mem_map_of_mem hpart)
  refine ⟨⟨_, functions, generated, hlinked, hperm, fun n hn ref href => ?_⟩, fun hne => ?_,
    hnodup⟩
  · rw [PackOptions.reference_eq_iff] at href
    obtain ⟨lines, hlines⟩ := exists_generated_mem_linkedParts hlinked
      (List.mem_range.mp (hlinked.calls.mem_iff.mp hn))
    exact href ▸ hmem _ hlines
  · obtain ⟨f, hf, hname⟩ := hload hne
    obtain ⟨lines, hlines⟩ := exists_mem_linkedParts hlinked hf
    exact hname ▸ hmem _ hlines

/-! ### Names that are detours -/

theorem head?_jsonLines (members : List String) :
    (jsonLines 0 "\x7b" "\x7d" members).toList.head? = some '\x7b' := by
  cases members <;> simp [jsonLines]

theorem head?_valuesJson (values : Option (List String)) :
    (valuesJson values).toList.head? = some '\x7b' := by
  rw [valuesJson.eq_def, String.toList_append, List.head?_append, head?_jsonLines, Option.some_or]

theorem head?_metaJson (o : PackOptions) : (metaJson o).toList.head? = some '\x7b' := by
  rw [metaJson, String.toList_append, List.head?_append, head?_jsonLines, Option.some_or]

/-- A function with a comment line begins with its sign. -/
theorem head?_functionText (hheader : p.header ≠ []) (lines : List PackLine) :
    (PackPart.functionText o p.header lines).toList.head? = some '#' := by
  obtain ⟨h, header, hcons⟩ := List.exists_cons_of_ne_nil hheader
  rw [PackPart.functionText, hcons]
  simp [String.join_cons]

/-- A file of a pack that begins with the sign of a comment is that of a function. -/
theorem exists_functionPath (hnames : ∀ f ∈ p.functions, f.1 ≠ [] ∧ "" ∉ f.1)
    {functions generated : List (List Site)} {file : PackFile}
    (h : file ∈ p.linkedFiles o functions generated) (hdata : file.data.toList.head? = some '#') :
    ∃ names, names ≠ [] ∧ "" ∉ names ∧ file.path = PackPart.functionPath o names := by
  rw [linkedFiles, List.mem_append, List.mem_append] at h
  rcases h with (h | h) | h
  · obtain ⟨part, hpart, rfl⟩ := List.mem_map.mp h
    rcases cases_of_mem_linkedParts hpart with ⟨f, hf, lines, rfl⟩ | ⟨n, lines, rfl⟩ | ⟨g, -, rfl⟩
    · exact ⟨f.1, (hnames f hf).1, (hnames f hf).2, rfl⟩
    · exact ⟨_, List.cons_ne_nil _ _, PackOptions.empty_notMem_generated n, rfl⟩
    · rw [PackPart.file, head?_valuesJson] at hdata
      exact absurd hdata (by decide)
  · rw [List.mem_singleton.mp h, head?_metaJson] at hdata
    exact absurd hdata (by decide)
  · rw [loadFile] at h
    split_ifs at h
    · rw [List.mem_singleton.mp h, head?_valuesJson] at hdata
      exact absurd hdata (by decide)
    · exact absurd h List.not_mem_nil

/-- **Where a pack is filed by name, no name of a function is a detour.** -/
theorem isClean_of_filedByName (hspace : o.space ≠ "") (hheader : p.header ≠ [])
    (hnames : ∀ f ∈ p.functions, f.1 ≠ [] ∧ "" ∉ f.1) (hpack : p.pack o = .ok files)
    (h : p.FiledByName o files) {f : List String × List Statement} (hf : f ∈ p.functions) :
    Path.IsClean ("/".intercalate ["data", o.space, "functions", "/".intercalate f.1]) := by
  obtain ⟨bodies, functions, generated, hlinked, hperm, -⟩ := h.linked
  obtain ⟨lines, hlines⟩ := exists_mem_linkedParts hlinked hf
  have hnamed : ⟨o.namedPath ("/".intercalate f.1), PackPart.functionText o p.header lines⟩ ∈
      files := hperm.mem_iff.mpr <| List.mem_append_left _ <| List.mem_append_left _ <|
    List.mem_map_of_mem hlines
  -- what is written there is some function, and it is written to a path without detours
  obtain ⟨functions', generated', -, hperm'⟩ := exists_linked hpack
  obtain ⟨names, hne, hempty, hpath⟩ := exists_functionPath hnames (hperm'.mem_iff.mp hnamed)
    (head?_functionText hheader lines)
  rw [PackPart.functionPath_eq hspace hne hempty, PackOptions.namedPath_eq,
    String.append_left_inj] at hpath
  refine Path.isClean_of_build (fun t ht => Path.notMem_of_mem_segments ht) hpath.symm
    (PackOptions.segments_place _) (by decide)

/-! ### Endings -/

/-- The endings of the paths of a pack. -/
def endings : List String := [".mcfunction", ".json", ".mcmeta"]

theorem group_ne_nil {g : List String × Option (List String)} (hg : g ∈ p.groups) : g.1 ≠ [] := by
  obtain ⟨l, hl, hleaf⟩ := List.mem_filterMap.mp hg
  obtain ⟨i, -, rest, hnames, -⟩ := names_of_mem_leavesIn p.items [] l hl
  rw [(picks_groupLeaf? l g hleaf).1, hnames]
  exact List.cons_ne_nil _ _

theorem exists_groupPath_eq {names : List String} (h : names ≠ []) :
    ∃ q, PackPart.groupPath o names = q ++ ".json" := by
  obtain ⟨dirs, name, rfl⟩ := (List.eq_nil_or_concat' names).resolve_left h
  rw [PackPart.groupPath, List.dropLast_concat, List.getLast?_concat]
  exact Path.exists_join_append ("data" :: o.space :: "tags" :: "entity_types" :: dirs) name
    (by decide) (by decide)

/-- **Every file of a pack has one of its endings**, whatever the names are. -/
theorem exists_ending_of_pack (hpack : p.pack o = .ok files) {file : PackFile}
    (h : file ∈ files) : ∃ q, ∃ e ∈ endings, file.path = q ++ e := by
  obtain ⟨functions, generated, -, hperm⟩ := exists_linked hpack
  have hfile := hperm.mem_iff.mp h
  rw [linkedFiles, List.mem_append, List.mem_append] at hfile
  rcases hfile with (hfile | hfile) | hfile
  · obtain ⟨part, hpart, rfl⟩ := List.mem_map.mp hfile
    rcases cases_of_mem_linkedParts hpart with ⟨f, -, lines, rfl⟩ | ⟨n, lines, rfl⟩ | ⟨g, hg, rfl⟩
    · exact ⟨_, ".mcfunction", by decide, rfl⟩
    · exact ⟨_, ".mcfunction", by decide, rfl⟩
    · obtain ⟨q, hq⟩ := exists_groupPath_eq (o := o) (group_ne_nil hg)
      exact ⟨q, ".json", by decide, hq⟩
  · exact ⟨"pack", ".mcmeta", by decide, congrArg PackFile.path (List.mem_singleton.mp hfile)⟩
  · rw [loadFile] at hfile
    split_ifs at hfile
    · exact ⟨"data/minecraft/tags/functions/load", ".json", by decide,
        congrArg PackFile.path (List.mem_singleton.mp hfile)⟩
    · exact absurd hfile List.not_mem_nil

end Program

end Statuary
