import Statuary.Proofs.Program.Filing
import Statuary.Proofs.Program.Reading

/-!
# A linked pack as it is written

A linked pack is made of sites, and a site calls functions and uses a flag by their numbers. Here
the files are spelled out (`Statuary.Program.writtenFiles`): the texts that a site is written as
(`Statuary.Site.texts`), below the comment lines, in a file where the name of the function says.
What the numbers stand for is then **read from the texts**: each line that was made for a block or a
branch calls the function, and uses the flag, that its text names
(`Statuary.Program.WrittenLinks`).

Together, the pack of a well-named program is linked, and is so in what is written
(`Statuary.Program.pack_links`).
-/

namespace Statuary

/-! ### Names in texts -/

namespace PackOptions

variable {o : PackOptions}

/-- The name of generated function `n` in its namespace. -/
def generatedName (o : PackOptions) (n : ℕ) : String :=
  o.generatedDir ++ "/" ++ toString n

theorem generatedName_injective : Function.Injective o.generatedName := by
  intro n m h
  rw [generatedName, generatedName, String.append_right_inj] at h
  exact toString_nat_injective h

theorem reference_injective : Function.Injective o.reference := by
  intro n m h
  rw [reference, reference, String.append_right_inj] at h
  exact toString_nat_injective h

theorem flag_injective : Function.Injective o.flag := by
  intro n m h
  simp only [flag, String.append_assoc, String.append_right_inj] at h
  have hblank : (" " ++ o.flagObjective).toList.head? = some ' ' := by simp
  have hn := leadNumber?_append hblank (by decide) n
  rw [h, leadNumber?_append hblank (by decide)] at hn
  exact (Prod.mk.inj (Option.some_inj.mp hn)).1.symm

end PackOptions

/-! ### The texts of sites -/

namespace Site

/-- **The texts that a site is written as.** -/
def texts (o : PackOptions) : Site → List String
  | line text => [text]
  | block head n => [head ++ " function " ++ o.space ++ ":" ++ o.generatedName n]
  | branch cond f n m =>
    ["scoreboard players set #if_" ++ toString f ++ " " ++ o.flagObjective ++ " 0",
      "execute " ++ cond ++ " run scoreboard players set #if_" ++ toString f ++ " " ++
        o.flagObjective ++ " 1",
      "execute if score #if_" ++ toString f ++ " " ++ o.flagObjective ++ " matches 1 " ++ cond ++
        " run function " ++ o.space ++ ":" ++ o.generatedName n] ++
    (m.map fun m => "execute if score #if_" ++ toString f ++ " " ++ o.flagObjective ++
      " matches 0 run function " ++ o.space ++ ":" ++ o.generatedName m).toList

/-- The texts that are made for a site: none of them is a command of the program. -/
def madeTexts (o : PackOptions) : Site → List String
  | line _ => []
  | block head n => (block head n).texts o
  | branch cond f n m => (branch cond f n m).texts o

variable {o : PackOptions}

/-- A site is written as its lines are. -/
theorem texts_eq (s : Site) : s.texts o = s.lines.map (·.text o) := by
  have hrun : " run function " = " run" ++ " function " := rfl
  have hdown : " matches 0 run function " = " matches 0" ++ (" run" ++ " function ") := rfl
  rcases s with text | ⟨head, n⟩ | ⟨cond, f, n, _ | m⟩
  · rfl
  · simp only [texts, lines, List.map_singleton, PackLine.text_call, PackOptions.callLead,
      PackOptions.generatedName, String.append_assoc]
  · simp only [texts, lines, Option.map_none, Option.toList_none, List.append_nil, List.map_cons,
      List.map_nil, PackLine.text_clear, PackLine.text_raise, PackLine.text_callIf,
      PackOptions.callLead, PackOptions.generatedName, String.append_assoc, hrun]
  · simp only [texts, lines, Option.map_some, Option.toList_some, List.map_append, List.map_cons,
      List.map_nil, PackLine.text_clear, PackLine.text_raise, PackLine.text_callIf,
      PackLine.text_callUnless, PackOptions.callLead, PackOptions.generatedName,
      String.append_assoc, hrun, hdown]

/-- The functions read from the texts that are made for a site are those that the site calls. -/
theorem filterMap_callee?_madeTexts (s : Site) :
    (s.madeTexts o).filterMap o.callee? = s.calls := by
  have hread : ∀ ls : List PackLine, (∀ l ∈ ls, ∀ text, l ≠ .command text) →
      (ls.map (·.text o)).filterMap o.callee? = ls.filterMap PackLine.callee? := by
    intro ls hls
    rw [List.filterMap_map]
    exact List.filterMap_congr fun l hl => PackLine.callee?_text (hls l hl)
  rcases s with text | ⟨head, n⟩ | ⟨cond, f, n, m⟩
  · rfl
  · rw [madeTexts, texts_eq, hread _ (by simp [lines])]
    rfl
  · rw [madeTexts, texts_eq, hread _ (by simp [lines])]
    rfl

/-- Every text of a site with a flag uses the flag. -/
theorem usedFlag?_of_mem_texts {s : Site} {f : ℕ} (h : s.flag? = some f) {text : String}
    (htext : text ∈ s.texts o) : o.usedFlag? text = some f := by
  rw [texts_eq] at htext
  obtain ⟨l, hl, rfl⟩ := List.mem_map.mp htext
  refine PackLine.usedFlag?_text ?_
  rcases s with text | ⟨head, n⟩ | ⟨cond, g, n, m⟩
  · cases h
  · cases h
  · have hall : ∀ l ∈ (branch cond g n m).lines, l.flag? = some g := by
      cases m <;> simp [lines, PackLine.flag?]
    exact (hall l hl).trans h

end Site

/-! ### Files -/

/-- What is numbered are the lists with their places. -/
theorem numbered_eq (n : ℕ) (inner : List (List Site)) :
    numbered n inner = (inner.zipIdx n).map fun g => (g.2, g.1.flatMap Site.lines) := by
  induction inner generalizing n with
  | nil => rfl
  | cons sites inner ih =>
    rw [numbered, ih, List.zipIdx_cons, List.map_cons]

/-- **What is read from the texts of sites**, the names of generated functions running up to a
number and files being at the paths. -/
structure WrittenLinks (o : PackOptions) (sites : List Site) (k : ℕ) (paths : List String) :
    Prop where
  /-- Of the texts made for blocks and branches, one calls each of the functions. -/
  calls : ((sites.flatMap (Site.madeTexts o)).filterMap o.callee?).Perm (List.range k)
  /-- A text that calls ends in the name of the function, and that has a file. -/
  found : ∀ text ∈ sites.flatMap (Site.madeTexts o), ∀ n, o.callee? text = some n →
    (∃ head, text = head ++ " function " ++ o.space ++ ":" ++ o.generatedName n) ∧
      o.namedPath (o.generatedName n) ∈ paths
  /-- Every text of a branch uses the flag of the branch. -/
  flags : ∀ s ∈ sites, ∀ f, s.flag? = some f → ∀ text ∈ s.texts o, o.usedFlag? text = some f
  /-- Different functions have different names. -/
  names : Function.Injective o.generatedName
  /-- Different functions have different references. -/
  references : Function.Injective o.reference
  /-- Different flags have different texts. -/
  flagTexts : Function.Injective o.flag

namespace Program

variable {p : Program} {o : PackOptions}

/-- The file of a function, spelled out: the texts of its sites below the comment lines. -/
def writtenFile (p : Program) (o : PackOptions) (name : String) (sites : List Site) : PackFile :=
  ⟨o.namedPath name, String.join (p.header.map (fun h => "#" ++ h ++ "\n") ++
    (sites.flatMap (Site.texts o)).map (· ++ "\n"))⟩

/-- **The files of a linked pack, spelled out**, generated functions by their numbers. -/
def writtenFiles (p : Program) (o : PackOptions) (functions generated : List (List Site)) :
    List PackFile :=
  (p.functions.zip functions).map (fun f => p.writtenFile o ("/".intercalate f.1.1) f.2) ++
    generated.zipIdx.map (fun g => p.writtenFile o (o.generatedName g.2) g.1) ++
    p.groups.map (fun g => ⟨o.namedGroupPath ("/".intercalate g.1), valuesJson g.2⟩) ++
    [⟨"pack.mcmeta", metaJson o⟩] ++ p.loadFile o

theorem functionText_eq (header : List String) (sites : List Site) :
    PackPart.functionText o header (sites.flatMap Site.lines) =
      String.join (header.map (fun h => "#" ++ h ++ "\n") ++
        (sites.flatMap (Site.texts o)).map (· ++ "\n")) := by
  have htexts : sites.flatMap (Site.texts o) = (sites.flatMap Site.lines).map (·.text o) := by
    rw [List.map_flatMap]
    exact List.flatMap_congr fun s _ => s.texts_eq
  rw [PackPart.functionText, htexts, List.map_map]
  rfl

theorem writtenFiles_eq (functions generated : List (List Site)) :
    p.writtenFiles o functions generated = p.namedFiles o functions generated := by
  have hname : ∀ n, "/".intercalate [o.generatedDir, toString n] = o.generatedName n :=
    PackOptions.intercalate_generated
  simp only [writtenFiles, namedFiles, linkedParts, Statuary.linkedParts, functionParts,
    numbered_eq, List.map_append, List.map_map, writtenFile, ← functionText_eq]
  simp only [← hname]
  rfl

/-- **The links of a pack are what is written.** -/
theorem writtenLinks_of_linked {bodies : List (List Statement)}
    {functions generated : List (List Site)} (h : p.Linked bodies functions generated)
    {files : List PackFile} (hperm : files.Perm (p.namedFiles o functions generated)) :
    WrittenLinks o (functions.flatten ++ generated.flatten) bodies.length
      (files.map (·.path)) := by
  have hcalls : (((functions.flatten ++ generated.flatten).flatMap
      (Site.madeTexts o)).filterMap o.callee?).Perm (List.range bodies.length) := by
    rw [List.filterMap_flatMap]
    simp only [Site.filterMap_callee?_madeTexts]
    exact h.calls
  refine ⟨hcalls, fun text htext n hn => ⟨?_, ?_⟩, fun s _ f hf text htext =>
    Site.usedFlag?_of_mem_texts hf htext, PackOptions.generatedName_injective,
    PackOptions.reference_injective, PackOptions.flag_injective⟩
  · obtain ⟨⟨head, m⟩, hcall, rfl⟩ := Option.map_eq_some_iff.mp hn
    refine ⟨head, ?_⟩
    rw [PackOptions.call?_eq_some_iff.mp hcall]
    simp only [PackOptions.callLead, PackOptions.generatedName, String.append_assoc]
  · have hmem := hcalls.mem_iff.mp (List.mem_filterMap.mpr ⟨text, htext, hn⟩)
    obtain ⟨lines, hpart⟩ := exists_generated_mem_linkedParts h (List.mem_range.mp hmem)
    refine List.mem_map.mpr ⟨_, hperm.mem_iff.mpr (List.mem_append_left _
      (List.mem_append_left _ (List.mem_map_of_mem hpart))), ?_⟩
    exact congrArg o.namedPath (PackOptions.intercalate_generated _)

/-- **The pack of a well-named program is linked.** It fails only for a branch without an objective
for its flag. Otherwise every file has a path of its own, the files are those of linked sites, and
so are the calls and flags that are read from them. -/
theorem pack_links (h : p.WellNamed o) :
    ((∃ e, p.pack o = .error e) ↔ o.flagObjective = "" ∧ ∃ s ∈ p.statements, s.isBranch = true) ∧
      ∀ files, p.pack o = .ok files → ∃ bodies functions generated,
        p.Linked bodies functions generated ∧ files.Perm (p.writtenFiles o functions generated) ∧
          (files.map (·.path)).Nodup ∧
          WrittenLinks o (functions.flatten ++ generated.flatten) bodies.length
            (files.map (·.path)) := by
  constructor
  · rw [← p.itemsHaveBranch_iff, pack, if_neg h.space.1.1]
    split_ifs with hflag
    · exact ⟨fun _ => hflag, fun _ => ⟨_, rfl⟩⟩
    · refine iff_of_false ?_ hflag
      rintro ⟨e, he⟩
      cases he
  · intro files hpack
    obtain ⟨functions, generated, hlinked, hperm⟩ := exists_linked hpack
    have hnodup := nodup_path_of_linked h hlinked hperm
    rw [← namedFiles_eq h] at hperm
    refine ⟨_, functions, generated, hlinked, ?_, hnodup, writtenLinks_of_linked hlinked hperm⟩
    rw [writtenFiles_eq]
    exact hperm

end Program

theorem pack_links_nested :
    nestedProgram.WellNamed nestedOptions ∧
      (¬ ∃ e, nestedProgram.pack nestedOptions = .error e) ∧
      ∃ files, nestedProgram.pack nestedOptions = .ok files ∧ files.length = 8 ∧
        ∃ bodies functions generated, nestedProgram.Linked bodies functions generated ∧
          files.Perm (nestedProgram.writtenFiles nestedOptions functions generated) ∧
          (files.map (·.path)).Nodup ∧
          WrittenLinks nestedOptions (functions.flatten ++ generated.flatten) bodies.length
            (files.map (·.path)) := by
  obtain ⟨hfails, hlinks⟩ := Program.pack_links nestedProgram_wellNamed
  refine ⟨nestedProgram_wellNamed, fun herror => ?_, _, rfl, rfl, hlinks _ rfl⟩
  exact absurd (hfails.mp herror).1 (by decide)

end Statuary
