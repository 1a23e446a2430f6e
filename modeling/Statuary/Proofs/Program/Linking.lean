import Mathlib.Algebra.Ring.Nat
import Mathlib.Data.List.Count
import Statuary.Proofs.Program.Numbering
import Statuary.Proofs.Program.Places

/-!
# Every statement in one file, every call to one function

A pack is **linked** (`Statuary.Program.Linked`) if every statement of its program is compiled into
one of its files, the functions made for inner bodies are numbered from zero on, each of them is
called from one line, and each flag belongs to one branch. Every pack is, whatever the names of its
program are (`Statuary.Program.exists_linked`). So what holds of the lines that a statement is
compiled to holds of the lines of all files (`Statuary.Program.exists_compiles_of_mem`).

Numbers run on from one function of the program to the next, so a function is compiled in the middle
of a count that has begun elsewhere. What is carried along is that the inner bodies still to come are
a prefix of what is left of **the inner bodies of the whole program** (`Statuary.PartsLink`); for a
single body this was shown in `Statuary.links_compileBody`.
-/

namespace Statuary

/-! ### Every statement of a program -/

mutual

/-- **Every statement of a body**, at any depth, each before those inside it. -/
def allStatements : List Statement → List Statement
  | [] => []
  | s :: ss => s :: (statementsInside s ++ allStatements ss)

/-- Every statement inside a statement. -/
def statementsInside : Statement → List Statement
  | .line _ => []
  | .block _ body => allStatements body
  | .branch _ yes no => allStatements yes ++ allStatements no

end

namespace Statement

/-- The bodies of a statement that need a function: an empty second body of a branch does not. -/
def bodies : Statement → List (List Statement)
  | line _ => []
  | block _ body => [body]
  | branch _ yes no => yes :: if no.isEmpty then [] else [no]

/-- The statement is a branch. -/
def isBranch : Statement → Bool
  | branch .. => true
  | _ => false

end Statement

/-- Every statement of a program. -/
def Program.statements (p : Program) : List Statement :=
  p.functions.flatMap fun f => allStatements f.2

/-- The inner bodies of a program, in the order of their numbers. -/
def Program.innerBodies (p : Program) : List (List Statement) :=
  p.functions.flatMap fun f => Statuary.innerBodies f.2

mutual

/-- A statement of a body stands in the body itself or in one of those inside it. -/
theorem allStatements_perm : ∀ body : List Statement,
    (allStatements body).Perm (body ++ (innerBodies body).flatten)
  | [] => .refl _
  | s :: ss => by
    rw [allStatements, innerBodies, List.flatten_append, List.cons_append]
    refine .cons s (((statementsInside_perm s).append (allStatements_perm ss)).trans ?_)
    exact List.perm_append_comm_assoc ..

theorem statementsInside_perm : ∀ s : Statement,
    (statementsInside s).Perm (statementBodies s).flatten
  | .line _ => .refl _
  | .block _ body => allStatements_perm body
  | .branch _ yes [] => by
    rw [statementsInside, allStatements, List.append_nil, statementBodies, List.isEmpty_nil,
      if_pos rfl, List.append_nil]
    exact allStatements_perm yes
  | .branch _ yes (n :: no) => by
    rw [statementsInside, statementBodies, List.isEmpty_cons, if_neg Bool.false_ne_true,
      List.flatten_append]
    exact (allStatements_perm yes).append (allStatements_perm (n :: no))

end

mutual

/-- The inner bodies are the bodies of the statements. -/
theorem innerBodies_perm : ∀ body : List Statement,
    (innerBodies body).Perm ((allStatements body).flatMap Statement.bodies)
  | [] => .refl _
  | s :: ss => by
    rw [innerBodies, allStatements, List.flatMap_cons, List.flatMap_append, ← List.append_assoc]
    exact (statementBodies_perm s).append (innerBodies_perm ss)

theorem statementBodies_perm : ∀ s : Statement,
    (statementBodies s).Perm (s.bodies ++ (statementsInside s).flatMap Statement.bodies)
  | .line _ => .refl _
  | .block _ body => (innerBodies_perm body).cons body
  | .branch _ yes [] => by
    rw [statementBodies, statementsInside, allStatements, Statement.bodies, List.isEmpty_nil,
      if_pos rfl, if_pos rfl, List.append_nil, List.append_nil]
    exact (innerBodies_perm yes).cons yes
  | .branch _ yes (n :: no) => by
    rw [statementBodies, statementsInside, Statement.bodies, List.isEmpty_cons,
      if_neg Bool.false_ne_true, if_neg Bool.false_ne_true, List.flatMap_append]
    refine .cons yes (List.perm_middle.trans (.cons (n :: no) ?_))
    exact (innerBodies_perm yes).append (innerBodies_perm (n :: no))

end

mutual

theorem branchCount_eq : ∀ body : List Statement,
    branchCount body = (allStatements body).countP Statement.isBranch
  | [] => rfl
  | s :: ss => by
    rw [branchCount, allStatements, ← List.cons_append, List.countP_append, statementBranches_eq s,
      branchCount_eq ss]

theorem statementBranches_eq : ∀ s : Statement,
    statementBranches s = (s :: statementsInside s).countP Statement.isBranch
  | .line _ => rfl
  | .block _ body => by
    rw [statementBranches, branchCount_eq body, List.countP_cons_of_neg Bool.false_ne_true]
    rfl
  | .branch _ yes no => by
    rw [statementBranches, statementsInside, List.countP_cons_of_pos rfl, List.countP_append,
      branchCount_eq yes, branchCount_eq no]
    omega

end

mutual

theorem hasBranch_eq : ∀ body : List Statement,
    hasBranch body = (allStatements body).any Statement.isBranch
  | [] => rfl
  | s :: ss => by
    rw [hasBranch, allStatements, ← List.cons_append, List.any_append, statementHasBranch_eq s,
      hasBranch_eq ss]

theorem statementHasBranch_eq : ∀ s : Statement,
    statementHasBranch s = (s :: statementsInside s).any Statement.isBranch
  | .line _ => rfl
  | .block _ body => hasBranch_eq body
  | .branch .. => rfl

end

mutual

theorem itemsHaveBranch_eq : ∀ (items : List Item) (dirs : List String),
    itemsHaveBranch items = (functionsIn dirs items).any fun f => hasBranch f.2
  | [], _ => rfl
  | i :: is, dirs => by
    rw [itemsHaveBranch, functionsIn, List.any_append, itemHasBranch_eq i dirs,
      itemsHaveBranch_eq is dirs]

theorem itemHasBranch_eq : ∀ (i : Item) (dirs : List String),
    itemHasBranch i = (functionsOf dirs i).any fun f => hasBranch f.2
  | .function _ body, _ => (Bool.or_false (hasBranch body)).symm
  | .dir name items, dirs => itemsHaveBranch_eq items (dirs ++ [name])
  | .group .., _ => rfl

end

/-! ### Members -/

/-- The parts of functions by their names and sites. -/
def functionParts (functions : List (List String × List Statement)) (own : List (List Site)) :
    List PackPart :=
  (functions.zip own).map fun f => .function f.1.1 (f.2.flatMap Site.lines)

/-- **The parts of a pack** that is made of functions and groups: those of the functions, those of
the functions generated for inner bodies, numbered from `n` on, and those of the groups. -/
def linkedParts (functions : List (List String × List Statement))
    (groups : List (List String × Option (List String))) (n : ℕ) (own inner : List (List Site)) :
    List PackPart :=
  functionParts functions own ++ (numbered n inner).map (fun g => .generated g.1 g.2) ++
    groups.map fun g => .group g.1 g.2

/-- **What is compiled from members**: the sites of their functions, a function for each of the
bodies inside these, and their groups. The sites are `own`, those of the bodies inside are `inner`.
-/
structure PartsLink (all : List (List Statement)) (functions : List (List String × List Statement))
    (groups : List (List String × Option (List String))) (c : Counters) (parts : List PackPart)
    (after : Counters) (own inner : List (List Site)) : Prop where
  compiles : List.Forall₂ (fun f sites => List.Forall₂ (Compiles all) f.2 sites) functions own
  inside : List.Forall₂ (List.Forall₂ (Compiles all))
    (functions.flatMap fun f => innerBodies f.2) inner
  parts : parts.Perm (linkedParts functions groups c.functions own inner)
  allots : Allots c own.flatten inner ((functions.map fun f => branchCount f.2).sum) after

theorem PartsLink.append {all : List (List Statement)}
    {functions functions' : List (List String × List Statement)}
    {groups groups' : List (List String × Option (List String))} {c d after : Counters}
    {parts parts' : List PackPart} {own own' inner inner' : List (List Site)}
    (h : PartsLink all functions groups c parts d own inner)
    (h' : PartsLink all functions' groups' d parts' after own' inner') :
    PartsLink all (functions ++ functions') (groups ++ groups') c (parts ++ parts') after
      (own ++ own') (inner ++ inner') where
  compiles := List.rel_append h.compiles h'.compiles
  inside := by
    rw [List.flatMap_append]
    exact List.rel_append h.inside h'.inside
  parts := by
    rw [linkedParts, functionParts, List.zip_append h.compiles.length_eq, List.map_append,
      numbered_append, ← h.allots.functions_after, List.map_append, List.map_append]
    refine (h.parts.append h'.parts).trans ((append_append_perm ..).trans ?_)
    exact (append_append_perm ..).append_right _
  allots := by
    rw [List.flatten_append, List.map_append, List.sum_append]
    exact h.allots.append h'.allots

mutual

/-- **Compiling members** makes the sites of their functions and a function for each inner body. -/
theorem partsLink_compileItems {all : List (List Statement)} :
    ∀ (items : List Item) (dirs : List String) (c : Counters),
      ((functionsIn dirs items).flatMap fun f => innerBodies f.2) <+: all.drop c.functions →
      ∃ own inner, PartsLink all (functionsIn dirs items)
        ((leavesIn dirs items).filterMap groupLeaf?) c (compileItems dirs c items).1
        (compileItems dirs c items).2 own inner
  | [], _, c, _ => ⟨[], [], .nil, .nil, .refl _, .nil c⟩
  | i :: is, dirs, c, h => by
    rw [functionsIn, List.flatMap_append] at h
    obtain ⟨hfirst, hrest⟩ := prefix_drop_of_append h
    obtain ⟨own, inner, hlink⟩ := partsLink_compileItem i dirs c hfirst
    rw [hlink.inside.length_eq, ← hlink.allots.functions_after] at hrest
    obtain ⟨own', inner', hlink'⟩ := partsLink_compileItems is dirs (compileItem dirs c i).2 hrest
    refine ⟨own ++ own', inner ++ inner', ?_⟩
    rw [functionsIn, leavesIn, List.filterMap_append]
    exact hlink.append hlink'

theorem partsLink_compileItem {all : List (List Statement)} :
    ∀ (i : Item) (dirs : List String) (c : Counters),
      ((functionsOf dirs i).flatMap fun f => innerBodies f.2) <+: all.drop c.functions →
      ∃ own inner, PartsLink all (functionsOf dirs i)
        ((leavesOf dirs i).filterMap groupLeaf?) c (compileItem dirs c i).1
        (compileItem dirs c i).2 own inner
  | .function name body, dirs, c, h => by
    rw [functionsOf, List.flatMap_singleton] at h
    obtain ⟨own, inner, hlinks⟩ := links_compileBody body c h
    refine ⟨[own], inner, .cons hlinks.compiles .nil, ?_, ?_, ?_⟩
    · rw [functionsOf, List.flatMap_singleton]
      exact hlinks.inside
    · -- the function of the program is done after those generated for it
      simp only [compileItem]
      refine List.perm_append_comm.trans ?_
      rw [hlinks.lines]
      refine (hlinks.generated.map _).cons _ |>.trans (.of_eq ?_)
      exact (List.append_nil _).symm
    · rw [functionsOf, List.map_singleton, List.sum_singleton, List.flatten_singleton]
      exact hlinks.allots
  | .dir name items, dirs, c, h => partsLink_compileItems items (dirs ++ [name]) c h
  | .group name values, dirs, c, _ => ⟨[], [], .nil, .nil, .refl _, .nil c⟩

end

/-- What is related to the elements of a list is related to one of them. -/
theorem exists_of_forall₂ {α β : Type} {R : α → β → Prop} {as : List α} {bs : List β}
    (h : List.Forall₂ R as bs) {b : β} (hb : b ∈ bs) : ∃ a ∈ as, R a b := by
  rw [List.mem_iff_getElem] at hb
  obtain ⟨i, hi, rfl⟩ := hb
  have hi' : i < as.length := h.length_eq ▸ hi
  exact ⟨as[i], List.getElem_mem hi', h.get hi' hi⟩

/-- The lines of numbered functions are those of their sites. -/
theorem exists_sites_of_mem_numbered {n : ℕ} {inner : List (List Site)} {g : ℕ × List PackLine}
    (h : g ∈ numbered n inner) : ∃ sites ∈ inner, g.2 = sites.flatMap Site.lines := by
  induction inner generalizing n with
  | nil => exact absurd h List.not_mem_nil
  | cons sites inner ih =>
    rcases List.mem_cons.mp h with rfl | h
    · exact ⟨sites, List.mem_cons_self .., rfl⟩
    · obtain ⟨sites', hmem, hg⟩ := ih h
      exact ⟨sites', List.mem_cons_of_mem _ hmem, hg⟩

/-! ### Programs -/

namespace Program

variable {p : Program} {o : PackOptions}

/-- A statement of a program stands in the body of a function or in an inner body. -/
theorem statements_perm (p : Program) :
    p.statements.Perm (p.functions.flatMap (·.2) ++ p.innerBodies.flatten) := by
  have hinner : p.innerBodies.flatten =
      p.functions.flatMap fun f => (Statuary.innerBodies f.2).flatten := by
    rw [innerBodies, List.flatMap_def, List.flatMap_def, List.flatten_flatten, List.map_map]
    rfl
  rw [hinner]
  refine (List.Perm.flatMap_left _ fun f _ => allStatements_perm f.2).trans ?_
  exact (List.flatMap_append_perm ..).symm

/-- The inner bodies of a program are the bodies of its statements. -/
theorem innerBodies_perm (p : Program) :
    p.innerBodies.Perm (p.statements.flatMap Statement.bodies) := by
  rw [statements, List.flatMap_assoc]
  exact List.Perm.flatMap_left _ fun f _ => Statuary.innerBodies_perm f.2

theorem sum_branchCount (p : Program) :
    (p.functions.map fun f => branchCount f.2).sum = p.statements.countP Statement.isBranch := by
  rw [statements, List.countP_flatMap]
  exact congrArg List.sum (List.map_congr_left fun f _ => branchCount_eq f.2)

theorem itemsHaveBranch_iff (p : Program) :
    itemsHaveBranch p.items = true ↔ ∃ s ∈ p.statements, s.isBranch = true := by
  rw [itemsHaveBranch_eq p.items [], ← functions, ← List.any_eq_true, statements, List.any_flatMap]
  simp only [hasBranch_eq]

/-- **A program is linked** into the sites of its functions and of the functions generated for its
inner bodies. Generated function `n` is made of the `n`-th of the bodies. -/
structure Linked (p : Program) (bodies : List (List Statement))
    (functions generated : List (List Site)) : Prop where
  /-- Every statement stands in one body, that of a function or an inner one. -/
  everyStatement : p.statements.Perm (p.functions.flatMap (·.2) ++ bodies.flatten)
  /-- The inner bodies are those of blocks and branches. -/
  everyBody : bodies.Perm (p.statements.flatMap Statement.bodies)
  /-- The functions of the program are compiled statement by statement. -/
  compilesFunctions : List.Forall₂ (fun f sites => List.Forall₂ (Compiles bodies) f.2 sites)
    p.functions functions
  /-- So are the inner bodies. -/
  compilesBodies : List.Forall₂ (List.Forall₂ (Compiles bodies)) bodies generated
  /-- Every generated function is called once. -/
  calls : ((functions.flatten ++ generated.flatten).flatMap Site.calls).Perm
    (List.range bodies.length)
  /-- Every flag belongs to one branch. -/
  flags : ((functions.flatten ++ generated.flatten).filterMap Site.flag?).Perm
    (List.range (p.statements.countP Statement.isBranch))

/-- The parts of a linked pack, generated functions by their numbers. -/
def linkedParts (p : Program) (functions generated : List (List Site)) : List PackPart :=
  Statuary.linkedParts p.functions p.groups 0 functions generated

/-- **The files of a linked pack**: those of its parts, and the two that belong to the pack as a
whole. -/
def linkedFiles (p : Program) (o : PackOptions) (functions generated : List (List Site)) :
    List PackFile :=
  (p.linkedParts functions generated).map (·.file o p.header) ++ [⟨"pack.mcmeta", metaJson o⟩] ++
    p.loadFile o

theorem linkedFiles_paths {bodies : List (List Statement)} {functions generated : List (List Site)}
    (h : p.Linked bodies functions generated) :
    (p.linkedFiles o functions generated).map (·.path) = p.paths o bodies.length := by
  have hfunctions : (p.functions.zip functions).map (·.1) = p.functions :=
    List.map_fst_zip (Nat.le_of_eq h.compilesFunctions.length_eq)
  have hgenerated : (numbered 0 generated).map (·.1) = List.range bodies.length := by
    rw [numbered_fst, h.compilesBodies.length_eq, List.range_eq_range']
  rw [paths, ← hgenerated]
  conv_rhs => rw [← hfunctions]
  simp only [linkedFiles, linkedParts, Statuary.linkedParts, functionParts, List.map_append,
    List.map_map, List.map_singleton]
  rfl

theorem eq_of_pack {files : List PackFile} (h : p.pack o = .ok files) :
    files = p.packParts.map (·.file o p.header) ++ [⟨"pack.mcmeta", metaJson o⟩] ++
      p.loadFile o := by
  rw [pack] at h
  split_ifs at h
  exact (Except.ok.inj h).symm

theorem pack_eq_ok (hspace : o.space ≠ "") (hflag : o.flagObjective ≠ "") :
    p.pack o = .ok (p.packParts.map (·.file o p.header) ++ [⟨"pack.mcmeta", metaJson o⟩] ++
      p.loadFile o) := by
  rw [pack, if_neg hspace, if_neg fun h => hflag h.1]

/-- What a program is compiled to is linked. -/
theorem exists_linkedParts (p : Program) : ∃ functions generated,
    p.Linked p.innerBodies functions generated ∧
      p.packParts.Perm (p.linkedParts functions generated) := by
  obtain ⟨own, inner, hlink⟩ := partsLink_compileItems p.items [] {} (List.prefix_refl _)
  refine ⟨own, inner, ⟨p.statements_perm, p.innerBodies_perm, hlink.compiles, hlink.inside, ?_, ?_⟩,
    hlink.parts⟩
  · rw [innerBodies, functions, hlink.inside.length_eq, List.range_eq_range']
    exact hlink.allots.calls
  · rw [← p.sum_branchCount, List.range_eq_range']
    exact hlink.allots.flags

/-- Every pack is linked, whatever its names are. -/
theorem exists_linked {files : List PackFile} (h : p.pack o = .ok files) :
    ∃ functions generated, p.Linked p.innerBodies functions generated ∧
      files.Perm (p.linkedFiles o functions generated) := by
  rw [eq_of_pack h]
  obtain ⟨functions, generated, hlinked, hparts⟩ := p.exists_linkedParts
  exact ⟨functions, generated, hlinked, ((hparts.map _).append_right _).append_right _⟩

/-- A function of a linked pack is compiled from a body, the statements of which are the program's.
-/
theorem exists_body_of_mem {bodies : List (List Statement)} {functions generated : List (List Site)}
    (h : p.Linked bodies functions generated) {part : PackPart}
    (hpart : part ∈ p.linkedParts functions generated) {lines : List PackLine}
    (hlines : part.lines? = some lines) :
    ∃ body sites, List.Forall₂ (Compiles bodies) body sites ∧ body ⊆ p.statements ∧
      lines = sites.flatMap Site.lines := by
  have hmem : ∀ s, s ∈ p.statements ↔ s ∈ p.functions.flatMap (·.2) ∨ s ∈ bodies.flatten := by
    intro s
    rw [h.everyStatement.mem_iff, List.mem_append]
  rw [linkedParts, Statuary.linkedParts, functionParts, List.mem_append, List.mem_append] at hpart
  rcases hpart with (hpart | hpart) | hpart
  · obtain ⟨⟨f, sites⟩, hf, rfl⟩ := List.mem_map.mp hpart
    cases hlines
    refine ⟨f.2, sites, List.forall₂_zip h.compilesFunctions hf, fun s hs => ?_, rfl⟩
    exact (hmem s).mpr (.inl (List.mem_flatMap.mpr ⟨f, (List.of_mem_zip hf).1, hs⟩))
  · obtain ⟨g, hg, rfl⟩ := List.mem_map.mp hpart
    cases hlines
    obtain ⟨sites, hsites, hg⟩ := exists_sites_of_mem_numbered hg
    obtain ⟨body, hbody, hcompiles⟩ := exists_of_forall₂ h.compilesBodies hsites
    refine ⟨body, sites, hcompiles, fun s hs => ?_, hg⟩
    exact (hmem s).mpr (.inr (List.mem_flatten.mpr ⟨body, hbody, hs⟩))
  · obtain ⟨g, -, rfl⟩ := List.mem_map.mp hpart
    cases hlines

/-- **Every line of a linked pack** is one of those that a statement of the program is compiled to.
-/
theorem exists_compiles_of_mem {bodies : List (List Statement)}
    {functions generated : List (List Site)} (h : p.Linked bodies functions generated)
    {part : PackPart} (hpart : part ∈ p.linkedParts functions generated) {lines : List PackLine}
    (hlines : part.lines? = some lines) {l : PackLine} (hl : l ∈ lines) :
    ∃ s ∈ p.statements, ∃ site, Compiles bodies s site ∧ l ∈ site.lines := by
  obtain ⟨body, sites, hcompiles, hbody, rfl⟩ := exists_body_of_mem h hpart hlines
  obtain ⟨site, hsite, hl⟩ := List.mem_flatMap.mp hl
  obtain ⟨s, hs, hcompiles⟩ := exists_of_forall₂ hcompiles hsite
  exact ⟨s, hbody hs, site, hcompiles, hl⟩

theorem nodup_path_of_linked (h : p.WellNamed o) {bodies : List (List Statement)}
    {functions generated : List (List Site)} (hlinked : p.Linked bodies functions generated)
    {files : List PackFile} (hperm : files.Perm (p.linkedFiles o functions generated)) :
    (files.map (·.path)).Nodup := by
  rw [(hperm.map _).nodup_iff, linkedFiles_paths hlinked]
  exact nodup_paths h _

end Program

end Statuary
