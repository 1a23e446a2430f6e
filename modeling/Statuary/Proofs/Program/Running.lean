import Statuary.Proofs.Program.Lines
import Statuary.Proofs.Program.Lookup
import Statuary.Proofs.Program.Reading

/-!
# A pack does what its program does

The files of a pack are run **by their texts**: each line is read, and what was read is run, so that
a line calls the function at the path which its own reference names
(`Statuary.Interpretation.runTexts`). Running the file of a function ends in the world in which
running the body of the function ends (`Statuary.Program.runFile_pack`).

For the lines themselves this is `Statuary.Program.runFile_function`, and what is added here is that
the texts say what the lines are. A command of the program that calls a function of the pack, or
that sets one of its flags, would do so in the pack and not in the program, so the programs are
those of which **no text does** (`Statuary.Program.KeepsOff`).

What is found at a path is one text for each line. The data of a file are these texts with a line
feed behind each, below the comment lines; if no text of the program goes over a line or is a
comment, then cutting the data gives them back (`Statuary.Program.textsIn_eq`).
-/

namespace Statuary

/-! ### Running texts -/

namespace PackOptions

/-- There is a file where a call with the number leads to. -/
def isMade (o : PackOptions) (found : String → Option (List String)) (n : ℕ) : Bool :=
  (found (o.calledPath n)).isSome

/-- The lines of files, read from their texts. -/
def readFiles (o : PackOptions) (found : String → Option (List String)) (path : String) :
    Option (List PackLine) :=
  (found path).map fun texts => texts.map (PackLine.read o (o.isMade found))

end PackOptions

/-- **Running a file by its text**, given the texts found at each path and how deeply calls may be
nested. -/
def Interpretation.runTexts {W C : Type} (I : Interpretation W C) (o : PackOptions)
    (found : String → Option (List String)) : ℕ → String → C → Flagged W → Option (Flagged W) :=
  I.runFile (o.readFiles found) o.calledPath

/-- The texts of the lines found at a path once all files are written. -/
def Program.textsAt (p : Program) (o : PackOptions) (path : String) : Option (List String) :=
  (p.linesAt o path).map fun lines => lines.map (·.text o)

/-- The texts in the data of a function: its lines, without comments. -/
def textsOf (data : String) : List String :=
  (cutAt '\n' data).dropLast.filter fun text => text.toList.head? ≠ some '#'

/-- The texts found at a path among files, if there is a function. -/
def textsIn (files : List PackFile) (path : String) : Option (List String) :=
  ((files.find? (·.path = path)).filter
    fun file => (between? "" ".mcfunction" file.path).isSome).map fun file => textsOf file.data

/-! ### Programs that keep off the flags and calls of their pack -/

/-- **A statement keeps off a pack**: its command calls no function made for an inner body and sets
no flag, and its head tests none. -/
def Statement.KeepsOff (o : PackOptions) (made : ℕ → Bool) : Statement → Prop
  | line text => (o.call? text).filter (made ·.2) = none ∧ o.set? text = none
  | block head _ => o.test? head = none
  | branch .. => True

instance (o : PackOptions) (made : ℕ → Bool) : DecidablePred (Statement.KeepsOff o made)
  | .line _ => inferInstanceAs (Decidable (_ ∧ _))
  | .block .. => inferInstanceAs (Decidable (_ = _))
  | .branch .. => inferInstanceAs (Decidable True)

/-- No statement of the program, at any depth, calls a function made for an inner body, sets a flag
or tests one. -/
def Program.KeepsOff (p : Program) (o : PackOptions) : Prop :=
  ∀ s ∈ p.statements, s.KeepsOff o (o.isMade (p.textsAt o))

/-- What a statement that keeps off is compiled to says what it is. -/
theorem plain_of_compiles {o : PackOptions} {made : ℕ → Bool} {bodies : List (List Statement)}
    (hmade : ∀ n < bodies.length, made n = true) {s : Statement} {site : Site}
    (h : Compiles bodies s site) (hs : s.KeepsOff o made) :
    ∀ l ∈ site.lines, l.Plain o made := by
  have hcalled : ∀ {n : ℕ} {body : List Statement}, bodies[n]? = some body → made n = true := by
    intro n body hn
    exact hmade n (List.getElem?_eq_some_iff.mp hn).1
  cases h with
  | line text => exact List.forall_mem_singleton.mpr hs
  | block head h => exact List.forall_mem_singleton.mpr ⟨hcalled h, hs⟩
  | branch cond f h =>
    refine List.forall_mem_cons.mpr ⟨trivial, List.forall_mem_cons.mpr ⟨trivial, ?_⟩⟩
    exact List.forall_mem_singleton.mpr (hcalled h)
  | branches cond f h hne h' =>
    refine List.forall_mem_cons.mpr ⟨trivial, List.forall_mem_cons.mpr ⟨trivial, ?_⟩⟩
    exact List.forall_mem_cons.mpr ⟨hcalled h, List.forall_mem_singleton.mpr (hcalled h')⟩

/-! ### Comments -/

/-- A line is a comment only if a text of the program in it is one. -/
theorem head?_text_ne {o : PackOptions} {l : PackLine}
    (h : ∀ t ∈ l.texts, t.toList.head? ≠ some '#') : (l.text o).toList.head? ≠ some '#' := by
  cases l with
  | command text => exact h text (List.mem_singleton_self text)
  | call head n =>
    have hhead := h head (List.mem_singleton_self head)
    rw [PackLine.text_call, PackOptions.callLead]
    cases hlist : head.toList with
    | nil => simp [hlist]
    | cons c cs => simpa [hlist] using hhead
  | clear f =>
    rw [PackLine.text_clear]
    simp
  | raise f cond =>
    rw [PackLine.text_raise]
    simp
  | callIf f cond n =>
    rw [PackLine.text_callIf]
    simp
  | callUnless f n =>
    rw [PackLine.text_callUnless]
    simp

/-- Texts below comment lines are cut from the data. -/
theorem textsOf_join {header texts : List String} (hheader : ∀ h ∈ header, breaks h = false)
    (htexts : ∀ t ∈ texts, breaks t = false ∧ t.toList.head? ≠ some '#') :
    textsOf (String.join (header.map (fun h => "#" ++ h ++ "\n") ++ texts.map (· ++ "\n"))) =
      texts := by
  have hlines : ∀ l ∈ header.map ("#" ++ ·) ++ texts, '\n' ∉ l.toList := by
    refine List.forall_mem_append.mpr ⟨List.forall_mem_map.mpr fun h hh => ?_, fun t ht => ?_⟩
    · refine notMem_of_breaks ?_
      rw [breaks_append, hheader h hh]
      rfl
    · exact notMem_of_breaks (htexts t ht).1
  have hcut := cutAt_join hlines
  rw [List.map_append, List.map_map] at hcut
  have hcomments : (header.map ("#" ++ ·)).filter
      (fun text => decide (text.toList.head? ≠ some '#')) = [] :=
    List.filter_eq_nil_iff.mpr (List.forall_mem_map.mpr fun h _ => by simp)
  have hkept : texts.filter (fun text => decide (text.toList.head? ≠ some '#')) = texts :=
    List.filter_eq_self.mpr fun t ht => decide_eq_true (htexts t ht).2
  rw [textsOf]
  refine (congrArg (fun ls : List String => ls.dropLast.filter _) hcut).trans ?_
  rw [List.dropLast_concat, List.filter_append, hcomments, hkept, List.nil_append]

namespace Program

variable {p : Program} {o : PackOptions} {files : List PackFile} {path : String}

/-! ### What is found at a path -/

/-- What is found at a path are the lines of a function that is written there. -/
theorem exists_part_of_linesAt {lines : List PackLine} (h : p.linesAt o path = some lines) :
    ∃ part ∈ p.packParts, part.lines? = some lines ∧ (part.file o p.header).path = path := by
  have hmem := List.mem_reverse.mp (Assoc.mem_of_lookup h)
  obtain ⟨part, hpart, he⟩ := List.mem_filterMap.mp hmem
  obtain ⟨lines', hlines, he⟩ := Option.map_eq_some_iff.mp he
  obtain ⟨rfl, rfl⟩ := Prod.mk.inj he
  exact ⟨part, hpart, hlines, rfl⟩

/-- The file of a part that is a function, spelled out. -/
theorem file_eq_of_lines? {part : PackPart} {lines : List PackLine}
    (h : part.lines? = some lines) :
    part.file o p.header = ⟨(part.file o p.header).path,
      String.join (p.header.map (fun h => "#" ++ h ++ "\n") ++
        (lines.map (·.text o)).map (· ++ "\n"))⟩ := by
  rw [List.map_map]
  cases part with
  | generated n lines =>
    cases h
    rfl
  | function names lines =>
    cases h
    rfl
  | group names values => cases h

section Found

variable (hpack : p.pack o = .ok files) (hpaths : p.PathsApart o)

include hpack hpaths

/-- **What is found at a path** is the only file there, its texts below the comment lines. -/
theorem mem_iff_of_textsAt {texts : List String} (h : p.textsAt o path = some texts)
    (file : PackFile) : file ∈ files ∧ file.path = path ↔
      file = ⟨path, String.join (p.header.map (fun h => "#" ++ h ++ "\n") ++
        texts.map (· ++ "\n"))⟩ := by
  obtain ⟨hspace, hfiles⟩ := space_ne_empty_of_pack hpack
  obtain ⟨lines, hlinesAt, rfl⟩ := Option.map_eq_some_iff.mp h
  obtain ⟨part, hpart, hlines, rfl⟩ := exists_part_of_linesAt hlinesAt
  constructor
  · rintro ⟨hfile, hpath⟩
    obtain ⟨q, hq⟩ := exists_path_eq_of_lines? (p := p) (o := o) hlines
    obtain ⟨part', hpart', ⟨lines', hlines'⟩, rfl⟩ :=
      exists_part_of_mcfunction hpack hfile (hpath.trans hq)
    -- both parts are found at this path, so they have the same lines
    have hsame := linesAt_of_mem hspace hpaths hpart' hlines'
    rw [hpath, hlinesAt] at hsame
    rw [file_eq_of_lines? hlines', hpath, Option.some_inj.mp hsame]
  · rintro rfl
    refine ⟨?_, rfl⟩
    rw [← file_eq_of_lines? hlines]
    exact hfiles part hpart

/-- Where nothing is found, there is no function among the files. -/
theorem textsAt_of_mem {file : PackFile} (hfile : file ∈ files) {q : String}
    (hpath : file.path = q ++ ".mcfunction") : (p.textsAt o file.path).isSome := by
  obtain ⟨hspace, -⟩ := space_ne_empty_of_pack hpack
  obtain ⟨part, hpart, ⟨lines, hlines⟩, rfl⟩ := exists_part_of_mcfunction hpack hfile hpath
  rw [textsAt, linesAt_of_mem hspace hpaths hpart hlines]
  rfl

omit hpack in
/-- **The texts are read as the lines** that they were made of. -/
theorem readFiles_textsAt (hspace : o.space ≠ "") (hoff : p.KeepsOff o) :
    o.readFiles (p.textsAt o) = p.linesAt o := by
  obtain ⟨functions, generated, hlinked, hparts⟩ := p.exists_linkedParts
  have hmade : ∀ n < p.innerBodies.length, o.isMade (p.textsAt o) n = true := by
    intro n hn
    obtain ⟨lines, hpart⟩ := exists_generated_mem_linkedParts hlinked hn
    have hlines := linesAt_of_mem hspace hpaths (hparts.mem_iff.mpr hpart) rfl
    have hpath : ((PackPart.generated n lines).file o p.header).path = o.calledPath n := by
      rw [PackOptions.calledPath_eq hspace]
      rfl
    rw [hpath] at hlines
    rw [PackOptions.isMade, textsAt, hlines]
    rfl
  ext1 path
  rw [PackOptions.readFiles, textsAt]
  cases hlinesAt : p.linesAt o path with
  | none => rfl
  | some lines =>
    obtain ⟨part, hpart, hlines, -⟩ := exists_part_of_linesAt hlinesAt
    have hread : ∀ l ∈ lines, PackLine.read o (o.isMade (p.textsAt o)) (l.text o) = l := by
      intro l hl
      obtain ⟨s, hs, site, hcompiles, hl⟩ :=
        exists_compiles_of_mem hlinked (hparts.mem_iff.mp hpart) hlines hl
      exact PackLine.read_text (plain_of_compiles hmade hcompiles (hoff s hs) l hl)
    rw [Option.map_some, Option.map_some, List.map_map]
    exact congrArg some ((List.map_congr_left hread).trans (List.map_id lines))

/-- **The texts are cut from the files** if no text goes over a line or is a comment. -/
theorem textsIn_eq (hheader : ∀ h ∈ p.header, breaks h = false) (ho : o.OneLine)
    (htexts : ∀ t ∈ p.texts, breaks t = false ∧ t.toList.head? ≠ some '#') :
    textsIn files = p.textsAt o := by
  ext1 path
  have hmem := @mem_iff_of_textsAt p o files path hpack hpaths
  rw [textsIn]
  cases htextsAt : p.textsAt o path with
  | none =>
    rw [Option.map_eq_none_iff, Option.filter_eq_none_iff]
    intro file hfind hfunction
    obtain ⟨q, hq⟩ := Option.isSome_iff_exists.mp hfunction
    rw [between?_eq_some_iff, String.empty_append] at hq
    have hsome := textsAt_of_mem hpack hpaths (List.mem_of_find?_eq_some hfind) hq
    have hpath : file.path = path := by simpa using List.find?_some hfind
    rw [hpath, htextsAt] at hsome
    exact absurd hsome Bool.false_ne_true
  | some texts =>
    obtain ⟨lines, hlinesAt, rfl⟩ := Option.map_eq_some_iff.mp htextsAt
    obtain ⟨part, hpart, hlines, rfl⟩ := exists_part_of_linesAt hlinesAt
    obtain ⟨q, hq⟩ := exists_path_eq_of_lines? (p := p) (o := o) hlines
    have hwithin := texts_compileItems p.items [] {} part hpart lines hlines
    cases hfind : files.find? (·.path = (part.file o p.header).path) with
    | none =>
      have hnot := List.find?_eq_none.mp hfind _ ((hmem htextsAt _).mpr rfl).1
      exact absurd (decide_eq_true rfl) hnot
    | some file =>
      have hpath : file.path = (part.file o p.header).path := by simpa using List.find?_some hfind
      have hfile := (hmem htextsAt file).mp ⟨List.mem_of_find?_eq_some hfind, hpath⟩
      have hfunction : (between? "" ".mcfunction" file.path).isSome = true := by
        rw [hpath, hq, Option.isSome_iff_exists]
        exact ⟨q, between?_eq_some_iff.mpr (by rw [String.empty_append])⟩
      rw [Option.filter_some, if_pos hfunction, Option.map_some, hfile]
      refine congrArg some (textsOf_join hheader (List.forall_mem_map.mpr fun l hl => ?_))
      exact ⟨breaks_text ho fun t ht => (htexts t (hwithin l hl ht)).1,
        head?_text_ne fun t ht => (htexts t (hwithin l hl ht)).2⟩

end Found

/-- **A pack does what its program does.** Running the file of a function by its text ends in the
world in which running the body of the function ends, from every context and world and whatever the
flags are at the start. What is found at a path are the texts of the only file there, below the
comment lines, and they are what cutting the files yields if no text goes over a line or is a
comment. -/
theorem runFile_pack (hpack : p.pack o = .ok files) (hpaths : p.PathsApart o) (hoff : p.KeepsOff o)
    {names : List String} {body : List Statement} (hf : (names, body) ∈ p.functions) {W C : Type}
    (I : Interpretation W C) :
    (∃ N, ∀ k, N ≤ k → ∀ x s, ∃ flags,
      I.runTexts o (p.textsAt o) k (PackPart.functionPath o names) x s =
        some ⟨I.runBody body x s.world, flags⟩) ∧
    (∀ path texts, p.textsAt o path = some texts → ∀ file, file ∈ files ∧ file.path = path ↔
      file = ⟨path, String.join (p.header.map (fun h => "#" ++ h ++ "\n") ++
        texts.map (· ++ "\n"))⟩) ∧
    ((∀ h ∈ p.header, breaks h = false) → o.OneLine →
      (∀ t ∈ p.texts, breaks t = false ∧ t.toList.head? ≠ some '#') →
      textsIn files = p.textsAt o) := by
  obtain ⟨hspace, -⟩ := space_ne_empty_of_pack hpack
  refine ⟨?_, fun path texts h => mem_iff_of_textsAt hpack hpaths h, textsIn_eq hpack hpaths⟩
  rw [Interpretation.runTexts, readFiles_textsAt hpaths hspace hoff,
    PackOptions.calledPath_eq hspace]
  exact runFile_function hspace hpaths hf I

end Program

/-- Writes commands down, runs blocks twice, and finds a condition true once something is written.
-/
def transcript : Interpretation (List String) Unit where
  command text _ log := log ++ [text]
  head _ x _ := [x, x]
  cond _ x log := if log.isEmpty then [] else [x]

theorem runFile_pack_nested :
    nestedProgram.PathsApart nestedOptions ∧ nestedProgram.KeepsOff nestedOptions ∧
      ∃ files, nestedProgram.pack nestedOptions = .ok files ∧
        textsIn files "data/n/functions/a/b.mcfunction" =
          some ["scoreboard players set #if_0 o 0",
            "execute c run scoreboard players set #if_0 o 1",
            "execute if score #if_0 o matches 1 c run function n:zzz/0",
            "execute if score #if_0 o matches 0 run function n:zzz/1"] ∧
        ∃ N, ∀ k, N ≤ k → ∀ x s, ∃ flags,
          transcript.runTexts nestedOptions (textsIn files) k "data/n/functions/a/b.mcfunction" x
            s = some ⟨transcript.runBody nestedBody x s.world, flags⟩ := by
  have hpaths : nestedProgram.PathsApart nestedOptions := ⟨by decide, by decide, by decide⟩
  have hoff : nestedProgram.KeepsOff nestedOptions := by
    rw [Program.KeepsOff]
    decide +kernel
  obtain ⟨hrun, -, htexts⟩ :=
    Program.runFile_pack rfl hpaths hoff (List.mem_cons_self ..) transcript
  refine ⟨hpaths, hoff, _, rfl, ?_⟩
  rw [htexts (by decide) ⟨by decide, by decide, by decide⟩ (by decide)]
  exact ⟨by decide +kernel, hrun⟩

end Statuary
