import Statuary.Proofs.Assoc
import Statuary.Proofs.Files.Path
import Statuary.Proofs.Program.Simulation

/-!
# A pack does what its program does

Every function of a program has a file in the pack, and running that file changes the world as
running the body of the function does (`Statuary.Program.runFile_function`). What a compiled body
does given the generated functions it calls is settled in `Statuary.settles_compileBody`; what is
left is that **a call finds the right file**. Generated functions are numbered across the whole program, no
number is given twice (`Statuary.Numbered`), and different functions have different paths as long as
the paths of the program are clean, differ, and stay out of the directory of the generated functions
(`Statuary.Program.PathsApart`).
-/

namespace Statuary

/-! ### The places of functions -/

namespace PackOptions

/-- The place that a path, counted from the directory of the functions, leads to. -/
def place (o : PackOptions) (path : String) : List String :=
  Path.resolve false (Path.segments ("/".intercalate ["data", o.space, "functions", path]))

variable {o : PackOptions}

theorem segments_place (path : String) :
    Path.segments ("/".intercalate ["data", o.space, "functions", path]) =
      "data" :: (Path.segments o.space ++ ["functions"]) ++ Path.segments path := by
  have hdata : Path.segments "data" = ["data"] := rfl
  have hfunctions : Path.segments "functions" = ["functions"] := rfl
  rw [String.intercalate_cons_cons, String.intercalate_cons_cons, String.intercalate_cons_cons,
    String.intercalate_singleton, Path.segments_append, Path.segments_append, Path.segments_append,
    hdata, hfunctions]
  simp

theorem place_of_isClean {path : String} (h : Path.IsClean path) :
    o.place path = Path.resolve false ("data" :: (Path.segments o.space ++ ["functions"])) ++
      Path.segments path := by
  rw [place, segments_place, Path.resolve_append false _ h]

theorem place_append {path name : String} (hslash : '/' ∉ name.toList) (h : Path.IsPlain name) :
    o.place (path ++ "/" ++ name) = o.place path ++ [name] := by
  have hname : ∀ s ∈ [name], Path.IsPlain s := fun s hs => List.mem_singleton.mp hs ▸ h
  rw [place, place, segments_place, segments_place, Path.segments_append,
    Path.segments_of_notMem hslash, ← List.append_assoc, Path.resolve_append false _ hname]

theorem mem_place {path s : String} (h : s ∈ o.place path) : '/' ∉ s.toList ∧ s ≠ "." := by
  rcases Path.mem_resolve h with rfl | ⟨h, hne⟩
  · decide
  · exact ⟨Path.notMem_of_mem_segments h, hne⟩

end PackOptions

namespace PackPart

variable {o : PackOptions}

/-- The path of a function spells its place. -/
theorem functionPath_eq (hspace : o.space ≠ "") {names : List String} (hne : names ≠ [])
    (hnames : "" ∉ names) :
    functionPath o names = Path.build false (o.place ("/".intercalate names)) ++ ".mcfunction" := by
  obtain ⟨name, rest, rfl⟩ := List.exists_cons_of_ne_nil hne
  -- joining leaves out empty names, of which there are none
  have hfilter : ("data" :: o.space :: "functions" :: name :: rest).filter (· ≠ "") =
      "data" :: o.space :: "functions" :: name :: rest := by
    rw [List.filter_eq_self]
    intro s hs
    simp only [List.mem_cons] at hs
    rw [decide_eq_true_eq]
    rintro rfl
    rcases hs with hs | hs | hs | hs
    · exact absurd hs (by decide)
    · exact hspace hs.symm
    · exact absurd hs (by decide)
    · exact hnames (List.mem_cons.mpr hs)
  have htext : "/".intercalate ("data" :: o.space :: "functions" :: name :: rest) =
      "/".intercalate ["data", o.space, "functions", "/".intercalate (name :: rest)] := by
    simp only [String.intercalate_cons_cons, String.intercalate_singleton]
  have hrooted : Path.isRooted ("/".intercalate
      ["data", o.space, "functions", "/".intercalate (name :: rest)]) = false := by
    simp [Path.isRooted]
  rw [functionPath, Path.join, hfilter]
  dsimp only
  rw [htext, Path.clean, hrooted, PackOptions.place]

theorem place_eq_of_functionPath (hspace : o.space ≠ "") {a b : List String} (ha : a ≠ [])
    (ha' : "" ∉ a) (hb : b ≠ []) (hb' : "" ∉ b) (h : functionPath o a = functionPath o b) :
    o.place ("/".intercalate a) = o.place ("/".intercalate b) := by
  rw [functionPath_eq hspace ha ha', functionPath_eq hspace hb hb', String.append_left_inj] at h
  exact Path.build_injective (fun _ => PackOptions.mem_place) (fun _ => PackOptions.mem_place) h

end PackPart

/-! ### The numbers of generated functions as names -/

theorem isDigit_of_mem_toString {n : ℕ} {c : Char} (h : c ∈ (toString n).toList) :
    c.isDigit = true := by
  rw [Nat.toString_eq_repr, Nat.toList_repr] at h
  exact Nat.isDigit_of_mem_toDigits (by decide) (by decide) h

theorem slash_notMem_toString (n : ℕ) : '/' ∉ (toString n).toList :=
  fun h => absurd (isDigit_of_mem_toString h) (by decide)

theorem isPlain_toString (n : ℕ) : Path.IsPlain (toString n) := by
  have hdot : '.' ∉ (toString n).toList := fun h => absurd (isDigit_of_mem_toString h) (by decide)
  refine ⟨?_, fun he => hdot ?_, fun he => hdot ?_⟩
  · rw [Nat.toString_eq_repr]
    exact Nat.repr_ne_empty
  · rw [he]
    decide
  · rw [he]
    decide

theorem toString_nat_injective {n m : ℕ} (h : toString n = toString m) : n = m := by
  have hdigits := congrArg String.toList h
  rw [Nat.toString_eq_repr, Nat.toString_eq_repr, Nat.toList_repr, Nat.toList_repr] at hdigits
  rw [← Nat.ofDigitChars_ten_toDigits (n := n), hdigits, Nat.ofDigitChars_ten_toDigits]

namespace PackOptions

variable {o : PackOptions}

/-- The name of a generated function, joined from its directory and its number. -/
theorem intercalate_generated (n : ℕ) :
    "/".intercalate [o.generatedDir, toString n] = o.generatedDir ++ "/" ++ toString n := by
  rw [String.intercalate_cons_cons, String.intercalate_singleton]

theorem place_generated (n : ℕ) :
    o.place ("/".intercalate [o.generatedDir, toString n]) =
      o.place o.generatedDir ++ [toString n] := by
  rw [intercalate_generated]
  exact place_append (slash_notMem_toString n) (isPlain_toString n)

theorem generatedDir_ne_empty : o.generatedDir ≠ "" := by
  rw [generatedDir]
  split_ifs with h
  · decide
  · exact h

theorem empty_notMem_generated (n : ℕ) : "" ∉ [o.generatedDir, toString n] := by
  intro h
  rcases List.mem_cons.mp h with h | h
  · exact generatedDir_ne_empty h.symm
  · exact (isPlain_toString n).1 (List.mem_singleton.mp h).symm

/-- Generated functions with different numbers have different paths. -/
theorem generatedPath_injective (hspace : o.space ≠ "") {n m : ℕ}
    (h : o.generatedPath n = o.generatedPath m) : n = m := by
  have hplace := PackPart.place_eq_of_functionPath hspace (List.cons_ne_nil _ _)
    (empty_notMem_generated n) (List.cons_ne_nil _ _) (empty_notMem_generated m) h
  rw [place_generated, place_generated] at hplace
  exact toString_nat_injective (List.cons.inj (List.append_cancel_left hplace)).1

end PackOptions

/-! ### Programs whose paths are apart -/

theorem empty_notMem_of_isClean {names : List String}
    (h : Path.IsClean ("/".intercalate names)) : "" ∉ names :=
  fun hmem => (h "" (Path.mem_segments_intercalate hmem (List.mem_singleton_self ""))).1 rfl

/-- The paths of the functions of a program are clean, differ, and lead to no place in the directory
of the generated functions. -/
structure Program.PathsApart (p : Program) (o : PackOptions) : Prop where
  clean : ∀ f ∈ p.functions, Path.IsClean ("/".intercalate f.1)
  distinct : (p.functions.map fun f => "/".intercalate f.1).Nodup
  outside : ∀ f ∈ p.functions,
    ¬ o.place o.generatedDir <+: (o.place ("/".intercalate f.1)).dropLast

/-- Functions with different clean paths have different files. -/
theorem path_eq_of_functionPath {o : PackOptions} (hspace : o.space ≠ "") {a b : List String}
    (ha : a ≠ []) (hb : b ≠ []) (hca : Path.IsClean ("/".intercalate a))
    (hcb : Path.IsClean ("/".intercalate b))
    (h : PackPart.functionPath o a = PackPart.functionPath o b) :
    "/".intercalate a = "/".intercalate b := by
  have hplace := PackPart.place_eq_of_functionPath hspace ha (empty_notMem_of_isClean hca) hb
    (empty_notMem_of_isClean hcb) h
  rw [PackOptions.place_of_isClean hca, PackOptions.place_of_isClean hcb] at hplace
  exact Path.segments_injective (List.append_cancel_left hplace)

/-- A function outside the directory of the generated functions has the file of none of them. -/
theorem functionPath_ne_generatedPath {o : PackOptions} (hspace : o.space ≠ "") {a : List String}
    (ha : a ≠ []) (hca : Path.IsClean ("/".intercalate a))
    (hout : ¬ o.place o.generatedDir <+: (o.place ("/".intercalate a)).dropLast) (n : ℕ) :
    PackPart.functionPath o a ≠ o.generatedPath n := by
  intro h
  have hplace := PackPart.place_eq_of_functionPath hspace ha (empty_notMem_of_isClean hca)
    (List.cons_ne_nil _ _) (PackOptions.empty_notMem_generated n) h
  rw [PackOptions.place_generated] at hplace
  rw [hplace, List.dropLast_concat] at hout
  exact hout (List.prefix_refl _)

/-! ### No number is given twice -/

/-- Distinct numbers from `lo` up to `hi`. -/
structure Numbered (lo hi : ℕ) (ns : List ℕ) : Prop where
  nodup : ns.Nodup
  range : ∀ n ∈ ns, lo ≤ n ∧ n < hi

theorem Numbered.nil (lo : ℕ) : Numbered lo lo [] :=
  ⟨List.nodup_nil, fun _ hn => absurd hn List.not_mem_nil⟩

theorem Numbered.append {lo mid hi : ℕ} {ns ms : List ℕ} (hlo : lo ≤ mid) (hhi : mid ≤ hi)
    (h : Numbered lo mid ns) (h' : Numbered mid hi ms) : Numbered lo hi (ns ++ ms) := by
  refine ⟨List.nodup_append.mpr ⟨h.nodup, h'.nodup, fun n hn m hm he => ?_⟩, fun n hn => ?_⟩
  · have hn := h.range n hn
    have hm := h'.range m hm
    omega
  · rcases List.mem_append.mp hn with hn | hn
    · have hn := h.range n hn
      omega
    · have hn := h'.range n hn
      omega

/-- A number that is taken before those inside may stand after them. -/
theorem Numbered.snoc {lo hi : ℕ} {ns : List ℕ} (hhi : lo < hi) (h : Numbered (lo + 1) hi ns) :
    Numbered lo hi (ns ++ [lo]) := by
  refine ⟨List.nodup_append.mpr ⟨h.nodup, List.nodup_singleton lo, fun n hn m hm he => ?_⟩,
    fun n hn => ?_⟩
  · have hn := h.range n hn
    rw [List.mem_singleton] at hm
    omega
  · rcases List.mem_append.mp hn with hn | hn
    · have hn := h.range n hn
      omega
    · rw [List.mem_singleton] at hn
      omega

mutual

/-- The functions generated for a body have the numbers between the counters, each once. -/
theorem numbered_compileBody : ∀ (body : List Statement) (c : Counters),
    Numbered c.functions (compileBody c body).after.functions
      ((compileBody c body).generated.map (·.1))
  | [], c => .nil _
  | s :: ss, c => by
    simp only [compileBody, List.map_append]
    exact Numbered.append (after_compileStatement s c).1 (after_compileBody ss _).1
      (numbered_compileStatement s c) (numbered_compileBody ss _)

theorem numbered_compileStatement : ∀ (s : Statement) (c : Counters),
    Numbered c.functions (compileStatement c s).after.functions
      ((compileStatement c s).generated.map (·.1))
  | .line _, c => .nil _
  | .block _ body, c => by
    have hafter := after_compileBody body { c with functions := c.functions + 1 }
    simp only [compileStatement, List.map_append, List.map_cons, List.map_nil]
    exact (numbered_compileBody body { c with functions := c.functions + 1 }).snoc hafter.1
  | .branch _ yes [], c => by
    have hafter := after_compileBody yes ⟨c.functions + 1, c.flags + 1⟩
    simp only [compileStatement, List.isEmpty_nil, if_true, List.map_append, List.map_cons,
      List.map_nil]
    exact (numbered_compileBody yes ⟨c.functions + 1, c.flags + 1⟩).snoc hafter.1
  | .branch _ yes (n :: no), c => by
    have hafter := after_compileBody yes ⟨c.functions + 1, c.flags + 1⟩
    have hyes := (numbered_compileBody yes ⟨c.functions + 1, c.flags + 1⟩).snoc hafter.1
    set first := (compileBody ⟨c.functions + 1, c.flags + 1⟩ yes).after with hfirst
    have hafter' := after_compileBody (n :: no) { first with functions := first.functions + 1 }
    have hno := (numbered_compileBody (n :: no)
      { first with functions := first.functions + 1 }).snoc hafter'.1
    simp only [compileStatement, List.isEmpty_cons, Bool.false_eq_true, if_false, List.map_append,
      List.map_cons, List.map_nil, List.append_assoc, ← hfirst]
    rw [← List.append_assoc]
    exact Numbered.append (Nat.le_of_succ_le hafter.1) (Nat.le_of_succ_le hafter'.1) hyes hno

end

/-! ### The parts of a pack -/

namespace PackPart

/-- The number of a generated function. -/
def number? : PackPart → Option ℕ
  | generated n _ => some n
  | _ => none

/-- The names of a function of the program. -/
def names? : PackPart → Option (List String)
  | function names _ => some names
  | _ => none

end PackPart

mutual

theorem parts_compileItems : ∀ (items : List Item) (dirs : List String) (c : Counters),
    c.functions ≤ (compileItems dirs c items).2.functions ∧
    Numbered c.functions (compileItems dirs c items).2.functions
      ((compileItems dirs c items).1.filterMap PackPart.number?) ∧
    (compileItems dirs c items).1.filterMap PackPart.names? = (functionsIn dirs items).map (·.1)
  | [], _, c => ⟨Nat.le_refl _, .nil _, rfl⟩
  | i :: is, dirs, c => by
    obtain ⟨hle, hnumbers, hnames⟩ := parts_compileItem i dirs c
    obtain ⟨hle', hnumbers', hnames'⟩ := parts_compileItems is dirs (compileItem dirs c i).2
    simp only [compileItems, functionsIn, List.filterMap_append, List.map_append]
    exact ⟨Nat.le_trans hle hle', Numbered.append hle hle' hnumbers hnumbers',
      by rw [hnames, hnames']⟩

theorem parts_compileItem : ∀ (i : Item) (dirs : List String) (c : Counters),
    c.functions ≤ (compileItem dirs c i).2.functions ∧
    Numbered c.functions (compileItem dirs c i).2.functions
      ((compileItem dirs c i).1.filterMap PackPart.number?) ∧
    (compileItem dirs c i).1.filterMap PackPart.names? = (functionsOf dirs i).map (·.1)
  | .function name body, dirs, c => by
    simp only [compileItem, functionsOf, List.filterMap_append, List.filterMap_map]
    refine ⟨(after_compileBody body c).1, ?_, ?_⟩
    · have hmap : (compileBody c body).generated.filterMap
          (PackPart.number? ∘ fun g => PackPart.generated g.1 g.2) =
            (compileBody c body).generated.map (·.1) := congrFun List.filterMap_eq_map _
      rw [hmap]
      exact (List.append_nil _).symm ▸ numbered_compileBody body c
    · have hnone : (compileBody c body).generated.filterMap
          (PackPart.names? ∘ fun g => PackPart.generated g.1 g.2) = [] :=
        List.filterMap_eq_nil_iff.mpr fun _ _ => rfl
      rw [hnone]
      rfl
  | .dir name items, dirs, c => parts_compileItems items (dirs ++ [name]) c
  | .group _ _, _, c => ⟨Nat.le_refl _, .nil _, rfl⟩

end

mutual

/-- Every function of a program has a part in the pack, and so do the functions generated for it. -/
theorem exists_compiled : ∀ (items : List Item) (dirs : List String) (c : Counters),
    ∀ f ∈ functionsIn dirs items, f.1 ≠ [] ∧ ∃ c₀,
      .function f.1 (compileBody c₀ f.2).lines ∈ (compileItems dirs c items).1 ∧
      ∀ g ∈ (compileBody c₀ f.2).generated, .generated g.1 g.2 ∈ (compileItems dirs c items).1
  | [], _, _ => fun _ hf => absurd hf List.not_mem_nil
  | i :: is, dirs, c => by
    intro f hf
    rw [functionsIn, List.mem_append] at hf
    simp only [compileItems]
    rcases hf with hf | hf
    · obtain ⟨hne, c₀, hpart, hgen⟩ := exists_compiledItem i dirs c f hf
      exact ⟨hne, c₀, List.mem_append_left _ hpart, fun g hg => List.mem_append_left _ (hgen g hg)⟩
    · obtain ⟨hne, c₀, hpart, hgen⟩ := exists_compiled is dirs (compileItem dirs c i).2 f hf
      exact ⟨hne, c₀, List.mem_append_right _ hpart,
        fun g hg => List.mem_append_right _ (hgen g hg)⟩

theorem exists_compiledItem : ∀ (i : Item) (dirs : List String) (c : Counters),
    ∀ f ∈ functionsOf dirs i, f.1 ≠ [] ∧ ∃ c₀,
      .function f.1 (compileBody c₀ f.2).lines ∈ (compileItem dirs c i).1 ∧
      ∀ g ∈ (compileBody c₀ f.2).generated, .generated g.1 g.2 ∈ (compileItem dirs c i).1
  | .function name body, dirs, c => by
    intro f hf
    rw [functionsOf, List.mem_singleton] at hf
    subst hf
    refine ⟨List.append_ne_nil_of_right_ne_nil _ (List.cons_ne_nil _ _), c, ?_, fun g hg => ?_⟩
    · exact List.mem_append_right _ (List.mem_singleton_self _)
    · exact List.mem_append_left _ (List.mem_map.mpr ⟨g, hg, rfl⟩)
  | .dir name items, dirs, c => exists_compiled items (dirs ++ [name]) c
  | .group _ _, _, _ => fun _ hf => absurd hf List.not_mem_nil

end

/-! ### Every call finds its file -/

/-- The path of a part that is a function. -/
theorem path_of_lines? (o : PackOptions) (header : List String) {part : PackPart}
    {lines : List PackLine} (h : part.lines? = some lines) :
    (∃ n, part.number? = some n ∧ (part.file o header).path = o.generatedPath n) ∨
      ∃ names, part.names? = some names ∧
        (part.file o header).path = PackPart.functionPath o names := by
  cases part with
  | generated n ls => exact .inl ⟨n, rfl, rfl⟩
  | function names ls => exact .inr ⟨names, rfl, rfl⟩
  | group names values => cases h

/-- Functions of which no two have one number or one path have different files. -/
theorem nodup_functionFiles {o : PackOptions} (hspace : o.space ≠ "") (header : List String)
    {parts : List PackPart} (hnumbers : (parts.filterMap PackPart.number?).Nodup)
    (hnames : ((parts.filterMap PackPart.names?).map ("/".intercalate ·)).Nodup)
    (hclean : ∀ a ∈ parts.filterMap PackPart.names?, a ≠ [] ∧ Path.IsClean ("/".intercalate a) ∧
      ¬ o.place o.generatedDir <+: (o.place ("/".intercalate a)).dropLast) :
    (Assoc.keys (parts.filterMap fun part =>
      part.lines?.map fun lines => ((part.file o header).path, lines))).Nodup := by
  induction parts with
  | nil => exact List.nodup_nil
  | cons part parts ih =>
    -- a path that occurs again belongs to a part further on, generated or not
    have hagain : ∀ path ∈ Assoc.keys (parts.filterMap fun part =>
        part.lines?.map fun lines => ((part.file o header).path, lines)),
        (∃ n ∈ parts.filterMap PackPart.number?, path = o.generatedPath n) ∨
          ∃ a ∈ parts.filterMap PackPart.names?, path = PackPart.functionPath o a := by
      intro path hpath
      obtain ⟨e, he, rfl⟩ := List.mem_map.mp hpath
      obtain ⟨other, hother, heq⟩ := List.mem_filterMap.mp he
      obtain ⟨lines, hlines, rfl⟩ := Option.map_eq_some_iff.mp heq
      rcases path_of_lines? o header hlines with ⟨n, hn, hp⟩ | ⟨a, ha, hp⟩
      · exact .inl ⟨n, List.mem_filterMap.mpr ⟨other, hother, hn⟩, hp⟩
      · exact .inr ⟨a, List.mem_filterMap.mpr ⟨other, hother, ha⟩, hp⟩
    cases part with
    | generated n lines =>
      obtain ⟨hn, hnumbers⟩ := List.nodup_cons.mp hnumbers
      refine List.nodup_cons.mpr ⟨fun hmem => ?_, ih hnumbers hnames hclean⟩
      rcases hagain _ hmem with ⟨m, hm, hpath⟩ | ⟨a, ha, hpath⟩
      · exact hn (PackOptions.generatedPath_injective hspace hpath ▸ hm)
      · obtain ⟨hne, hca, hout⟩ := hclean a ha
        exact functionPath_ne_generatedPath hspace hne hca hout n hpath.symm
    | function names lines =>
      obtain ⟨hn, hnames⟩ := List.nodup_cons.mp hnames
      obtain ⟨⟨hne, hcn, hout⟩, hclean⟩ := List.forall_mem_cons.mp hclean
      refine List.nodup_cons.mpr ⟨fun hmem => ?_, ih hnumbers hnames hclean⟩
      rcases hagain _ hmem with ⟨m, hm, hpath⟩ | ⟨a, ha, hpath⟩
      · exact functionPath_ne_generatedPath hspace hne hcn hout m hpath
      · obtain ⟨hne', hca, -⟩ := hclean a ha
        exact hn (List.mem_map.mpr
          ⟨a, ha, (path_eq_of_functionPath hspace hne hne' hcn hca hpath).symm⟩)
    | group names values => exact ih hnumbers hnames hclean

namespace Program

variable {p : Program} {o : PackOptions}

/-- Every function of the pack is found at its own path. -/
theorem linesAt_of_mem (hspace : o.space ≠ "") (hpaths : p.PathsApart o) {part : PackPart}
    {lines : List PackLine} (hpart : part ∈ p.packParts) (hlines : part.lines? = some lines) :
    p.linesAt o (part.file o p.header).path = some lines := by
  obtain ⟨-, hnumbers, hnames⟩ := parts_compileItems p.items [] {}
  -- no two functions are written to one path, so the last one written there is the only one
  have hnodup : (Assoc.keys (p.functionFiles o)).Nodup := by
    refine nodup_functionFiles hspace p.header hnumbers.nodup ?_ ?_
    · rw [packParts, hnames, List.map_map]
      exact hpaths.distinct
    · rw [packParts, hnames]
      intro a ha
      obtain ⟨f, hf, rfl⟩ := List.mem_map.mp ha
      exact ⟨(exists_compiled p.items [] {} f hf).1, hpaths.clean f hf, hpaths.outside f hf⟩
  refine Assoc.lookup_of_mem ?_ (List.mem_reverse.mpr (List.mem_filterMap.mpr ⟨part, hpart, ?_⟩))
  · rw [Assoc.keys, List.map_reverse, List.nodup_reverse]
    exact hnodup
  · rw [hlines, Option.map_some]

theorem space_ne_empty_of_pack {files : List PackFile} (h : p.pack o = .ok files) :
    o.space ≠ "" ∧ ∀ part ∈ p.packParts, part.file o p.header ∈ files := by
  rw [pack] at h
  split_ifs at h with hspace hflag
  refine ⟨hspace, fun part hpart => ?_⟩
  rw [← Except.ok.inj h]
  exact List.mem_append_left _ (List.mem_append_left _ (List.mem_map_of_mem hpart))

/-- **A pack does what its program does**, its files taken as the lines that they were made of.
Running the file of a function ends in the world in which running the body of the function ends,
from every context and world and whatever the flags are at the start. -/
theorem runFile_function (hspace : o.space ≠ "") (hpaths : p.PathsApart o) {names : List String}
    {body : List Statement} (hf : (names, body) ∈ p.functions) {W C : Type}
    (I : Interpretation W C) :
    ∃ N, ∀ k, N ≤ k → ∀ x s, ∃ flags,
      I.runFile (p.linesAt o) o.generatedPath k (PackPart.functionPath o names) x s =
        some ⟨I.runBody body x s.world, flags⟩ := by
  obtain ⟨-, c, hpart, hgen⟩ := exists_compiled p.items [] {} (names, body) hf
  have hlines := linesAt_of_mem hspace hpaths hpart rfl
  have hsettles : Settles I (p.linesAt o) o.generatedPath (compileBody c body).lines
      (I.runBody body) c.flags (compileBody c body).after.flags :=
    settles_compileBody body c fun g hg => linesAt_of_mem hspace hpaths (hgen g hg) rfl
  obtain ⟨N, hN⟩ := hsettles.call hlines
  refine ⟨N, fun k hk x s => ?_⟩
  obtain ⟨flags, hrun, -⟩ := hN k hk x s
  exact ⟨flags, hrun⟩

end Program

end Statuary
