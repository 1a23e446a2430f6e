import Mathlib.Data.List.Nodup
import Statuary.Proofs.Program.Preservation

/-!
# The places of the files of a pack

Where the names of a program are single names, and neighbours of one kind are told apart by them
(`Statuary.Program.WellNamed`), every file of its pack has a path of its own
(`Statuary.Program.nodup_paths`). Names need not differ between kinds: a function, a directory and a
group may share one, since what they lead to differs further on in the path. That is why the places
are compared as **lists of names** here: two members below one directory have different places
because the names differ, or because one place goes on where the other one ends.
-/

namespace Statuary

/-! ### Members and their names from the top -/

/-- What a member is. -/
inductive ItemKind where
  /-- A function. -/
  | function
  /-- A directory. -/
  | dir
  /-- A group of entity types. -/
  | group
  deriving DecidableEq

/-- What a member is. -/
def Item.kind : Item → ItemKind
  | .function .. => .function
  | .dir .. => .dir
  | .group .. => .group

mutual

/-- The members below the named directories that are no directories, with their names from the top.
-/
def leavesIn (dirs : List String) : List Item → List (List String × Item)
  | [] => []
  | i :: is => leavesOf dirs i ++ leavesIn dirs is

/-- The same for one member. -/
def leavesOf (dirs : List String) : Item → List (List String × Item)
  | .function name body => [(dirs ++ [name], .function name body)]
  | .dir name items => leavesIn (dirs ++ [name]) items
  | .group name values => [(dirs ++ [name], .group name values)]

end

theorem leavesIn_eq_flatMap (dirs : List String) (items : List Item) :
    leavesIn dirs items = items.flatMap (leavesOf dirs) := by
  induction items with
  | nil => rfl
  | cons i is ih => rw [leavesIn, ih, List.flatMap_cons]

/-- The body of a function, with the names it stands with. -/
def functionLeaf? : List String × Item → Option (List String × List Statement)
  | (names, .function _ body) => some (names, body)
  | _ => none

/-- The values of a group, with the names it stands with. -/
def groupLeaf? : List String × Item → Option (List String × Option (List String))
  | (names, .group _ values) => some (names, values)
  | _ => none

/-- Members of one kind are picked, and stand with their names. -/
def Picks {α : Type} (k : ItemKind) (leaf? : List String × Item → Option (List String × α)) :
    Prop :=
  ∀ l x, leaf? l = some x → x.1 = l.1 ∧ l.2.kind = k

theorem picks_functionLeaf? : Picks .function functionLeaf? := by
  rintro ⟨names, i⟩ x hx
  cases i <;> cases hx
  exact ⟨rfl, rfl⟩

theorem picks_groupLeaf? : Picks .group groupLeaf? := by
  rintro ⟨names, i⟩ x hx
  cases i <;> cases hx
  exact ⟨rfl, rfl⟩

mutual

theorem functionsIn_eq : ∀ (items : List Item) (dirs : List String),
    functionsIn dirs items = (leavesIn dirs items).filterMap functionLeaf?
  | [], _ => rfl
  | i :: is, dirs => by
    rw [functionsIn, leavesIn, List.filterMap_append, functionsOf_eq i dirs, functionsIn_eq is dirs]

theorem functionsOf_eq : ∀ (i : Item) (dirs : List String),
    functionsOf dirs i = (leavesOf dirs i).filterMap functionLeaf?
  | .function .., _ => rfl
  | .dir name items, dirs => functionsIn_eq items (dirs ++ [name])
  | .group .., _ => rfl

end

/-- The groups of a program: names from the top, and values. -/
def Program.groups (p : Program) : List (List String × Option (List String)) :=
  (leavesIn [] p.items).filterMap groupLeaf?

/-! ### Names that tell neighbours apart -/

/-- No two neighbours of one kind have one name. -/
def SiblingsApart (items : List Item) : Prop :=
  (items.map fun i => (i.kind, i.name)).Nodup

instance : DecidablePred SiblingsApart :=
  fun items => inferInstanceAs (Decidable (items.map fun i => (i.kind, i.name)).Nodup)

mutual

/-- The members have single names, and below each of them neighbours are told apart. -/
def MembersNamed : List Item → Prop
  | [] => True
  | i :: is => MemberNamed i ∧ MembersNamed is

/-- The same for one member. -/
def MemberNamed : Item → Prop
  | .function name _ => Path.IsName name
  | .dir name items => Path.IsName name ∧ SiblingsApart items ∧ MembersNamed items
  | .group name _ => Path.IsName name

end

mutual

/-- A member that is no directory stands with the name of the member that leads to it, and with
nothing behind it if it is that member itself. -/
theorem names_of_mem_leavesIn : ∀ (items : List Item) (dirs : List String),
    ∀ l ∈ leavesIn dirs items, ∃ i ∈ items, ∃ rest, l.1 = dirs ++ i.name :: rest ∧
      (rest = [] ∧ l.2 = i ∨ rest ≠ [] ∧ i.kind = .dir)
  | [], _ => fun _ hl => absurd hl List.not_mem_nil
  | i :: is, dirs => by
    rw [leavesIn]
    refine List.forall_mem_append.mpr ⟨fun l hl => ?_, fun l hl => ?_⟩
    · exact ⟨i, List.mem_cons_self .., names_of_mem_leavesOf i dirs l hl⟩
    · obtain ⟨j, hj, hnames⟩ := names_of_mem_leavesIn is dirs l hl
      exact ⟨j, List.mem_cons_of_mem _ hj, hnames⟩

theorem names_of_mem_leavesOf : ∀ (i : Item) (dirs : List String),
    ∀ l ∈ leavesOf dirs i, ∃ rest, l.1 = dirs ++ i.name :: rest ∧
      (rest = [] ∧ l.2 = i ∨ rest ≠ [] ∧ i.kind = .dir)
  | .function .., _ => List.forall_mem_singleton.mpr ⟨[], rfl, .inl ⟨rfl, rfl⟩⟩
  | .dir name items, dirs => fun l hl => by
    obtain ⟨i, -, rest, hnames, -⟩ := names_of_mem_leavesIn items (dirs ++ [name]) l hl
    refine ⟨i.name :: rest, ?_, .inr ⟨List.cons_ne_nil _ _, rfl⟩⟩
    rw [hnames, List.append_assoc]
    rfl
  | .group .., _ => List.forall_mem_singleton.mpr ⟨[], rfl, .inl ⟨rfl, rfl⟩⟩

end

mutual

theorem isName_of_mem_leavesIn : ∀ (items : List Item) (dirs : List String), MembersNamed items →
    (∀ s ∈ dirs, Path.IsName s) → ∀ l ∈ leavesIn dirs items, ∀ s ∈ l.1, Path.IsName s
  | [], _, _, _ => fun _ hl => absurd hl List.not_mem_nil
  | i :: is, dirs, h, hdirs => List.forall_mem_append.mpr
    ⟨isName_of_mem_leavesOf i dirs h.1 hdirs, isName_of_mem_leavesIn is dirs h.2 hdirs⟩

theorem isName_of_mem_leavesOf : ∀ (i : Item) (dirs : List String), MemberNamed i →
    (∀ s ∈ dirs, Path.IsName s) → ∀ l ∈ leavesOf dirs i, ∀ s ∈ l.1, Path.IsName s
  | .function .., _, h, hdirs => List.forall_mem_singleton.mpr <|
    List.forall_mem_append.mpr ⟨hdirs, List.forall_mem_singleton.mpr h⟩
  | .dir name items, dirs, h, hdirs => isName_of_mem_leavesIn items (dirs ++ [name]) h.2.2 <|
    List.forall_mem_append.mpr ⟨hdirs, List.forall_mem_singleton.mpr h.1⟩
  | .group .., _, h, hdirs => List.forall_mem_singleton.mpr <|
    List.forall_mem_append.mpr ⟨hdirs, List.forall_mem_singleton.mpr h⟩

end

/-- Different neighbours lead to different places, or to members of different kinds. -/
theorem leaf_ne_of_siblings {dirs : List String} {i j : Item}
    (hne : (i.kind, i.name) ≠ (j.kind, j.name)) {l m : List String × Item}
    (hl : l ∈ leavesOf dirs i) (hm : m ∈ leavesOf dirs j) :
    (l.2.kind, l.1) ≠ (m.2.kind, m.1) := by
  obtain ⟨rest, hnames, hl⟩ := names_of_mem_leavesOf i dirs l hl
  obtain ⟨rest', hnames', hm⟩ := names_of_mem_leavesOf j dirs m hm
  rw [hnames, hnames']
  intro h
  obtain ⟨hkind, h⟩ := Prod.mk.inj h
  obtain ⟨hname, hrest⟩ := List.cons.inj (List.append_cancel_left h)
  refine hne (Prod.ext ?_ hname)
  rcases hl with ⟨rfl, rfl⟩ | ⟨hlong, hdir⟩ <;> rcases hm with ⟨rfl, rfl⟩ | ⟨hlong', hdir'⟩
  · exact hkind
  -- where one of them is a directory, its place goes on and the other one ends
  · exact absurd hrest.symm hlong'
  · exact absurd hrest hlong
  · exact hdir.trans hdir'.symm

mutual

/-- **Members of one kind have different places.** -/
theorem nodup_leavesIn : ∀ (items : List Item) (dirs : List String), SiblingsApart items →
    MembersNamed items → ((leavesIn dirs items).map fun l => (l.2.kind, l.1)).Nodup
  | [], _, _, _ => List.nodup_nil
  | i :: is, dirs, hapart, hnamed => by
    obtain ⟨hi, hapart⟩ := List.nodup_cons.mp hapart
    rw [leavesIn, List.map_append, List.nodup_append]
    refine ⟨nodup_leavesOf i dirs hnamed.1, nodup_leavesIn is dirs hapart hnamed.2, ?_⟩
    refine List.forall_mem_map.mpr fun l hl => List.forall_mem_map.mpr fun m hm => ?_
    rw [leavesIn_eq_flatMap, List.mem_flatMap] at hm
    obtain ⟨j, hj, hm⟩ := hm
    exact leaf_ne_of_siblings (fun he => hi (List.mem_map.mpr ⟨j, hj, he.symm⟩)) hl hm

theorem nodup_leavesOf : ∀ (i : Item) (dirs : List String), MemberNamed i →
    ((leavesOf dirs i).map fun l => (l.2.kind, l.1)).Nodup
  | .function .., _, _ => List.nodup_singleton _
  | .dir name items, dirs, h => nodup_leavesIn items (dirs ++ [name]) h.2.1 h.2.2
  | .group .., _, _ => List.nodup_singleton _

end

section Picked

variable {items : List Item} {α : Type} {k : ItemKind}
  {leaf? : List String × Item → Option (List String × α)}

theorem isLocation_of_picks (h : MembersNamed items) (hpicks : Picks k leaf?)
    {x : List String × α} (hx : x ∈ (leavesIn [] items).filterMap leaf?) :
    Path.IsLocation x.1 := by
  obtain ⟨l, hl, hleaf⟩ := List.mem_filterMap.mp hx
  obtain ⟨i, -, rest, hnames, -⟩ := names_of_mem_leavesIn items [] l hl
  rw [(hpicks l x hleaf).1]
  refine ⟨hnames ▸ List.cons_ne_nil _ _, ?_⟩
  exact isName_of_mem_leavesIn items [] h (fun _ hs => absurd hs List.not_mem_nil) l hl

theorem nodup_of_picks (hapart : SiblingsApart items) (h : MembersNamed items)
    (hpicks : Picks k leaf?) : (((leavesIn [] items).filterMap leaf?).map (·.1)).Nodup := by
  have hleaves := List.pairwise_map.mp (nodup_leavesIn items [] hapart h)
  refine List.pairwise_map.mpr (hleaves.filterMap leaf? ?_)
  intro l l' hne x hx x' hx' he
  obtain ⟨hnames, hkind⟩ := hpicks l x hx
  obtain ⟨hnames', hkind'⟩ := hpicks l' x' hx'
  exact hne (Prod.ext (hkind.trans hkind'.symm) (by rw [← hnames, he, hnames']))

theorem isLocation_of_mem_functionsIn (h : MembersNamed items) {f : List String × List Statement}
    (hf : f ∈ functionsIn [] items) : Path.IsLocation f.1 := by
  rw [functionsIn_eq] at hf
  exact isLocation_of_picks h picks_functionLeaf? hf

theorem nodup_functionsIn (hapart : SiblingsApart items) (h : MembersNamed items) :
    ((functionsIn [] items).map (·.1)).Nodup := by
  rw [functionsIn_eq]
  exact nodup_of_picks hapart h picks_functionLeaf?

end Picked

/-! ### Well-named programs -/

/-- **The names of a program are in order**: all are single names, the namespace and the directory
of the generated functions too, neighbours of one kind are told apart, and no directory at the top
is that of the generated functions. -/
structure Program.WellNamed (p : Program) (o : PackOptions) : Prop where
  siblings : SiblingsApart p.items
  members : MembersNamed p.items
  space : Path.IsName o.space
  generated : o.generated = "" ∨ Path.IsName o.generated
  outside : ∀ i ∈ p.items, i.kind = .dir → i.name ≠ o.generatedDir

/-- A branch in a block in a branch. -/
def nestedBody : List Statement :=
  [.branch "c" [.line "d"] [.block "e" [.branch "f" [.line "g"] [.line "h"]]]]

/-- A function in a directory, beside one with the name of the directory of generated functions. -/
def nestedProgram : Program where
  header := ["made"]
  items := [.dir "a" [.function "b" nestedBody], .function "zzz" []]

/-- The usual directory for generated functions. -/
def nestedOptions : PackOptions where
  space := "n"
  flagObjective := "o"

theorem nestedProgram_wellNamed : nestedProgram.WellNamed nestedOptions where
  siblings := by decide
  members := by
    have hnames : ∀ s ∈ ["a", "b", "zzz"], Path.IsName s := by decide
    exact ⟨⟨hnames "a" (by decide), by decide, hnames "b" (by decide), trivial⟩,
      hnames "zzz" (by decide), trivial⟩
  space := by decide
  generated := .inl rfl
  outside := by decide

namespace Program.WellNamed

variable {p : Program} {o : PackOptions}

theorem isName_generatedDir (h : p.WellNamed o) : Path.IsName o.generatedDir := by
  rw [PackOptions.generatedDir]
  split_ifs with hempty
  · decide
  · exact h.generated.resolve_left hempty

theorem isLocation_function (h : p.WellNamed o) {f : List String × List Statement}
    (hf : f ∈ p.functions) : Path.IsLocation f.1 :=
  isLocation_of_mem_functionsIn h.members hf

theorem isLocation_group (h : p.WellNamed o) {g : List String × Option (List String)}
    (hg : g ∈ p.groups) : Path.IsLocation g.1 :=
  isLocation_of_picks h.members picks_groupLeaf? hg

theorem isLocation_generated (h : p.WellNamed o) (n : ℕ) :
    Path.IsLocation [o.generatedDir, toString n] := by
  refine ⟨List.cons_ne_nil _ _, List.forall_mem_cons.mpr ⟨h.isName_generatedDir, ?_⟩⟩
  exact List.forall_mem_singleton.mpr ⟨isPlain_toString n, slash_notMem_toString n⟩

theorem nodup_functions (h : p.WellNamed o) : (p.functions.map (·.1)).Nodup :=
  nodup_functionsIn h.siblings h.members

theorem nodup_groups (h : p.WellNamed o) : (p.groups.map (·.1)).Nodup :=
  nodup_of_picks h.siblings h.members picks_groupLeaf?

/-- No function of the program stands where a generated one does. -/
theorem function_ne_generated (h : p.WellNamed o) {f : List String × List Statement}
    (hf : f ∈ p.functions) (n : ℕ) : f.1 ≠ [o.generatedDir, toString n] := by
  intro he
  rw [Program.functions, functionsIn_eq] at hf
  obtain ⟨l, hl, hleaf⟩ := List.mem_filterMap.mp hf
  have hnames := (picks_functionLeaf? l f hleaf).1
  obtain ⟨i, hi, rest, hrest, hplace⟩ := names_of_mem_leavesIn p.items [] l hl
  rw [← hnames, he, List.nil_append] at hrest
  obtain ⟨hname, hrest⟩ := List.cons.inj hrest
  rcases hplace with ⟨hnil, -⟩ | ⟨-, hdir⟩
  · exact absurd (hrest.trans hnil) (List.cons_ne_nil _ _)
  · exact h.outside i hi hdir hname.symm

end Program.WellNamed

/-! ### Paths -/

namespace PackOptions

/-- Where the functions of the namespace lie. -/
def functionDirs (o : PackOptions) : List String :=
  ["data", o.space, "functions"]

/-- Where the groups of the namespace lie. -/
def groupDirs (o : PackOptions) : List String :=
  ["data", o.space, "tags", "entity_types"]

variable {o : PackOptions}

theorem isName_functionDirs (h : Path.IsName o.space) : ∀ s ∈ o.functionDirs, Path.IsName s :=
  List.forall_mem_cons.mpr ⟨by decide, List.forall_mem_cons.mpr ⟨h, by decide⟩⟩

theorem isName_groupDirs (h : Path.IsName o.space) : ∀ s ∈ o.groupDirs, Path.IsName s :=
  List.forall_mem_cons.mpr ⟨by decide, List.forall_mem_cons.mpr ⟨h, by decide⟩⟩

end PackOptions

namespace PackPart

variable {o : PackOptions} {names names' : List String}

theorem functionPath_of_isLocation (hspace : Path.IsName o.space) (h : Path.IsLocation names) :
    functionPath o names = "/".intercalate (o.functionDirs ++ names) ++ ".mcfunction" := by
  rw [← (h.append_left (PackOptions.isName_functionDirs hspace)).join_eq]
  rfl

theorem groupPath_of_isLocation (hspace : Path.IsName o.space) (h : Path.IsLocation names) :
    groupPath o names = "/".intercalate (o.groupDirs ++ names) ++ ".json" := by
  obtain ⟨dirs, name, rfl⟩ := (List.eq_nil_or_concat' names).resolve_left h.ne_nil
  obtain ⟨hdirs, hname⟩ := List.forall_mem_append.mp h.isName
  have hfile : Path.IsLocation (dirs ++ [name ++ ".json"]) := by
    refine ⟨List.append_ne_nil_of_right_ne_nil _ (List.cons_ne_nil _ _), ?_⟩
    refine List.forall_mem_append.mpr ⟨hdirs, List.forall_mem_singleton.mpr ?_⟩
    exact Path.isName_append (List.forall_mem_singleton.mp hname).2 (by decide) (by decide)
  rw [groupPath, List.dropLast_concat, List.getLast?_concat, ← List.append_assoc,
    Path.intercalate_snoc_append, List.append_assoc,
    ← (hfile.append_left (PackOptions.isName_groupDirs hspace)).join_eq]
  rfl

/-- Functions with different names have different paths. -/
theorem functionPath_injective (hspace : Path.IsName o.space) (h : Path.IsLocation names)
    (h' : Path.IsLocation names') (he : functionPath o names = functionPath o names') :
    names = names' := by
  rw [functionPath_of_isLocation hspace h, functionPath_of_isLocation hspace h'] at he
  exact h.eq_of_intercalate_append (PackOptions.isName_functionDirs hspace) h' he

/-- Groups with different names have different paths. -/
theorem groupPath_injective (hspace : Path.IsName o.space) (h : Path.IsLocation names)
    (h' : Path.IsLocation names') (he : groupPath o names = groupPath o names') :
    names = names' := by
  rw [groupPath_of_isLocation hspace h, groupPath_of_isLocation hspace h'] at he
  exact h.eq_of_intercalate_append (PackOptions.isName_groupDirs hspace) h' he

/-- Functions lie among the functions of the namespace. -/
theorem functionDirs_prefix (hspace : Path.IsName o.space) (h : Path.IsLocation names) :
    o.functionDirs <+: Path.segments (functionPath o names) := by
  rw [functionPath_of_isLocation hspace h]
  exact h.prefix_segments (PackOptions.isName_functionDirs hspace) (by decide)

/-- Groups lie among the groups of the namespace. -/
theorem groupDirs_prefix (hspace : Path.IsName o.space) (h : Path.IsLocation names) :
    o.groupDirs <+: Path.segments (groupPath o names) := by
  rw [groupPath_of_isLocation hspace h]
  exact h.prefix_segments (PackOptions.isName_groupDirs hspace) (by decide)

end PackPart

namespace Program

variable {p : Program} {o : PackOptions}

/-- The paths of the files of a pack: those of the functions of the program, of `k` generated ones
and of the groups of the program, and those of the files that every pack has or may have. -/
def paths (p : Program) (o : PackOptions) (k : ℕ) : List String :=
  p.functions.map (fun f => PackPart.functionPath o f.1) ++ (List.range k).map o.generatedPath ++
    p.groups.map (fun g => PackPart.groupPath o g.1) ++ ["pack.mcmeta"] ++
    (p.loadFile o).map (·.path)

theorem nodup_functionPaths (h : p.WellNamed o) (k : ℕ) :
    (p.functions.map (fun f => PackPart.functionPath o f.1) ++
      (List.range k).map o.generatedPath).Nodup := by
  refine List.nodup_append.mpr ⟨?_, ?_, ?_⟩
  · refine List.pairwise_map.mpr ((List.pairwise_map.mp h.nodup_functions).imp_of_mem ?_)
    exact fun hf hf' hne he => hne <| PackPart.functionPath_injective h.space
      (h.isLocation_function hf) (h.isLocation_function hf') he
  · exact List.nodup_range.map fun n m => PackOptions.generatedPath_injective h.space.1.1
  · refine List.forall_mem_map.mpr fun f hf => List.forall_mem_map.mpr fun n _ he => ?_
    exact h.function_ne_generated hf n <| PackPart.functionPath_injective h.space
      (h.isLocation_function hf) (h.isLocation_generated n) he

theorem nodup_groupPaths (h : p.WellNamed o) :
    (p.groups.map fun g => PackPart.groupPath o g.1).Nodup := by
  refine List.pairwise_map.mpr ((List.pairwise_map.mp h.nodup_groups).imp_of_mem ?_)
  exact fun hg hg' hne he => hne <| PackPart.groupPath_injective h.space
    (h.isLocation_group hg) (h.isLocation_group hg') he

theorem loadFile_sublist : List.Sublist ((p.loadFile o).map (·.path))
    ["data/minecraft/tags/functions/load.json"] := by
  rw [loadFile]
  split_ifs
  · exact List.Sublist.refl _
  · exact List.nil_sublist _

/-- Paths that begin with different directories are different. -/
theorem forall_ne_of_prefix {as bs front front' : List String}
    (ha : ∀ a ∈ as, front <+: Path.segments a) (hb : ∀ b ∈ bs, front' <+: Path.segments b)
    (hne : ¬ front <+: front') (hne' : ¬ front' <+: front) : ∀ a ∈ as, ∀ b ∈ bs, a ≠ b := by
  rintro a hmem b hmem' rfl
  exact (List.prefix_or_prefix_of_prefix (ha a hmem) (hb a hmem')).elim hne hne'

/-- **Every file of a pack has a path of its own.** -/
theorem nodup_paths (h : p.WellNamed o) (k : ℕ) : (p.paths o k).Nodup := by
  have hfunctions : ∀ path ∈ p.functions.map (fun f => PackPart.functionPath o f.1) ++
      (List.range k).map o.generatedPath, o.functionDirs <+: Path.segments path :=
    List.forall_mem_append.mpr
      ⟨List.forall_mem_map.mpr fun f hf =>
        PackPart.functionDirs_prefix h.space (h.isLocation_function hf),
      List.forall_mem_map.mpr fun n _ =>
        PackPart.functionDirs_prefix h.space (h.isLocation_generated n)⟩
  have hgroups : ∀ path ∈ p.groups.map (fun g => PackPart.groupPath o g.1),
      o.groupDirs <+: Path.segments path :=
    List.forall_mem_map.mpr fun g hg => PackPart.groupDirs_prefix h.space (h.isLocation_group hg)
  have hmeta : ∀ path ∈ ["pack.mcmeta"], ["pack.mcmeta"] <+: Path.segments path := by decide
  have hload : ∀ path ∈ (p.loadFile o).map (·.path),
      ["data", "minecraft", "tags", "functions"] <+: Path.segments path := by
    have hone : ∀ path ∈ ["data/minecraft/tags/functions/load.json"],
        ["data", "minecraft", "tags", "functions"] <+: Path.segments path := by decide
    exact fun path hpath => hone path (loadFile_sublist.subset hpath)
  -- the four sorts of paths begin with different directories
  have hfg := forall_ne_of_prefix hfunctions hgroups
    (by simp [PackOptions.functionDirs, PackOptions.groupDirs])
    (by simp [PackOptions.functionDirs, PackOptions.groupDirs])
  have hfm := forall_ne_of_prefix hfunctions hmeta (by simp [PackOptions.functionDirs])
    (by simp [PackOptions.functionDirs])
  have hfl := forall_ne_of_prefix hfunctions hload (by simp [PackOptions.functionDirs])
    (by simp [PackOptions.functionDirs])
  have hgm := forall_ne_of_prefix hgroups hmeta (by simp [PackOptions.groupDirs])
    (by simp [PackOptions.groupDirs])
  have hgl := forall_ne_of_prefix hgroups hload (by simp [PackOptions.groupDirs])
    (by simp [PackOptions.groupDirs])
  have hml := forall_ne_of_prefix hmeta hload (by decide) (by decide)
  have hfirst := List.nodup_append.mpr ⟨nodup_functionPaths h k, nodup_groupPaths h, hfg⟩
  have hsecond := List.nodup_append.mpr
    ⟨hfirst, List.nodup_singleton _, List.forall_mem_append.mpr ⟨hfm, hgm⟩⟩
  exact List.nodup_append.mpr ⟨hsecond, loadFile_sublist.nodup (List.nodup_singleton _),
    List.forall_mem_append.mpr ⟨List.forall_mem_append.mpr ⟨hfl, hgl⟩, hml⟩⟩

end Program

end Statuary
