import Statuary.Proofs.Program.Meaning
import Statuary.Proofs.Tag.Break
import Statuary.Program.Source

/-!
# One command a line

Both written forms of a program put one text on one line: the source text, where the lines are
commands, heads and conditions, and the files of a pack, where they are what is compiled from them.
A text with a line break in it becomes two lines there, and what stands behind the break is taken for
a command. **That is the only way** in which a line can be broken: if no text of a program goes over
a line, and no name does, then the written forms consist of the lines that they were made of
(`Statuary.Program.isLines_source`, `Statuary.Program.isLines_function`).
-/

namespace Statuary

/-- **A file is exactly these lines**: each of them is ended by a line feed, and there are no other
line breaks. -/
def IsLines (file : String) (lines : List String) : Prop :=
  cutAt '\n' file = lines ++ [""] ∧ ∀ l ∈ lines, breaks l = false

theorem isLines_join {lines : List String} (h : ∀ l ∈ lines, breaks l = false) :
    IsLines (String.join (lines.map (· ++ "\n"))) lines :=
  ⟨cutAt_join fun l hl => notMem_of_breaks (h l hl), h⟩

/-! ### The texts of a program -/

mutual

/-- **The texts of a body**: its commands, the heads of its blocks and its conditions. -/
def texts : List Statement → List String
  | [] => []
  | s :: ss => statementTexts s ++ texts ss

/-- The texts of an element. -/
def statementTexts : Statement → List String
  | .line c => [c]
  | .block head body => head :: texts body
  | .branch cond yes no => cond :: (texts yes ++ texts no)

end

theorem texts_append (ss ts : List Statement) : texts (ss ++ ts) = texts ss ++ texts ts := by
  induction ss with
  | nil => rfl
  | cons s ss ih => rw [List.cons_append, texts, texts, ih, List.append_assoc]

theorem texts_lines (commands : List String) : texts (commands.map .line) = commands := by
  induction commands with
  | nil => rfl
  | cons c commands ih =>
    rw [List.map_cons, texts, ih]
    rfl

mutual

/-- The names of members, and the types in groups. -/
def itemsNames : List Item → List String
  | [] => []
  | i :: is => itemNames i ++ itemsNames is

/-- The names in a member. -/
def itemNames : Item → List String
  | .function name _ => [name]
  | .dir name items => name :: itemsNames items
  | .group name values => name :: values.getD []

end

/-- Functions made alike, one for each of some things. -/
theorem functionsIn_map {α : Type} (name : α → String) (body : α → List Statement)
    (dirs : List String) (as : List α) :
    functionsIn dirs (as.map fun a => .function (name a) (body a)) =
      as.map fun a => (dirs ++ [name a], body a) := by
  induction as with
  | nil => rfl
  | cons a as ih =>
    rw [List.map_cons, functionsIn, ih]
    rfl

theorem functionsIn_append (dirs : List String) (is js : List Item) :
    functionsIn dirs (is ++ js) = functionsIn dirs is ++ functionsIn dirs js := by
  induction is with
  | nil => rfl
  | cons i is ih => rw [List.cons_append, functionsIn, functionsIn, ih, List.append_assoc]

theorem itemsNames_map {α : Type} (name : α → String) (body : α → List Statement) (as : List α) :
    itemsNames (as.map fun a => .function (name a) (body a)) = as.map name := by
  induction as with
  | nil => rfl
  | cons a as ih =>
    rw [List.map_cons, itemsNames, ih]
    rfl

theorem itemsNames_append (is js : List Item) :
    itemsNames (is ++ js) = itemsNames is ++ itemsNames js := by
  induction is with
  | nil => rfl
  | cons i is ih => rw [List.cons_append, itemsNames, itemsNames, ih, List.append_assoc]

/-! ### Source text -/

/-- Characters that break a line, if not all of them. -/
def PicksBreaks (p : Char → Bool) : Prop :=
  ∀ c, p c = true → isBreak c = true

section SourceText

variable {p : Char → Bool}

theorem any_of_breaks (hp : PicksBreaks p) {s : String} (h : breaks s = false) :
    s.toList.any p = false := by
  rw [List.any_eq_false]
  intro c hc hpc
  exact List.any_eq_false.mp h c hc (hp c hpc)

theorem any_indentLine (hp : PicksBreaks p) (depth : ℕ) (s : String) :
    (indentLine depth s).toList.any p = s.toList.any p := by
  have htab : p '\t' = false := by
    rw [Bool.eq_false_iff]
    intro htab
    exact absurd (hp _ htab) (by decide)
  have htabs : (List.replicate depth '\t').any p = false := by
    rw [List.any_eq_false]
    intro c hc
    rw [List.eq_of_mem_replicate hc, htab]
    exact Bool.false_ne_true
  rw [indentLine, String.toList_append, String.toList_ofList, List.any_append, htabs,
    Bool.false_or]

/-- A line of the program's own text and of signs around it. -/
theorem any_framed (hp : PicksBreaks p) (depth : ℕ)
    {lead s trail : String} (h : s.toList.any p = false) (hlead : breaks lead = false)
    (htrail : breaks trail = false) :
    (indentLine depth (lead ++ s ++ trail)).toList.any p = false := by
  rw [any_indentLine hp, String.toList_append, String.toList_append, List.any_append,
    List.any_append, h, any_of_breaks hp hlead, any_of_breaks hp htrail]
  rfl

theorem any_closing (hp : PicksBreaks p) (depth : ℕ) :
    (indentLine depth "\x7d").toList.any p = false := by
  rw [any_indentLine hp]
  exact any_of_breaks hp (by decide)

mutual

/-- **The lines of a body** have no breaks but those in its texts. -/
theorem any_bodyLines (hp : PicksBreaks p) :
    ∀ (body : List Statement) (depth : ℕ), (∀ t ∈ texts body, t.toList.any p = false) →
      ∀ l ∈ bodyLines depth body, l.toList.any p = false
  | [], _, _ => fun _ hl => absurd hl List.not_mem_nil
  | s :: ss, depth, h => by
    rw [texts, List.forall_mem_append] at h
    rw [bodyLines, List.forall_mem_append]
    exact ⟨any_statementLines hp s depth h.1, any_bodyLines hp ss depth h.2⟩

theorem any_statementLines (hp : PicksBreaks p) :
    ∀ (s : Statement) (depth : ℕ), (∀ t ∈ statementTexts s, t.toList.any p = false) →
      ∀ l ∈ statementLines depth s, l.toList.any p = false
  | .line c, depth, h => by
    rw [statementLines, List.forall_mem_singleton, any_indentLine hp]
    exact h c (List.mem_singleton_self c)
  | .block head body, depth, h => by
    obtain ⟨hhead, hbody⟩ := List.forall_mem_cons.mp h
    rw [statementLines, List.cons_append, List.forall_mem_cons, List.forall_mem_append,
      List.forall_mem_singleton, any_indentLine hp, String.toList_append, List.any_append, hhead]
    exact ⟨any_of_breaks hp (s := " \x7b") (by decide), any_bodyLines hp body (depth + 1) hbody,
      any_closing hp depth⟩
  | .branch cond yes no, depth, h => by
    obtain ⟨hcond, hbodies⟩ := List.forall_mem_cons.mp h
    obtain ⟨hyes, hno⟩ := List.forall_mem_append.mp hbodies
    rw [statementLines, List.cons_append, List.cons_append, List.forall_mem_cons,
      List.forall_mem_append, List.forall_mem_append, List.forall_mem_singleton]
    refine ⟨any_framed hp depth hcond (by decide) (by decide),
      ⟨any_bodyLines hp yes (depth + 1) hyes, ?_⟩, any_closing hp depth⟩
    split_ifs
    · exact fun _ hl => absurd hl List.not_mem_nil
    · rw [List.forall_mem_cons, any_indentLine hp]
      exact ⟨any_of_breaks hp (by decide), any_bodyLines hp no (depth + 1) hno⟩

end

mutual

/-- **The lines of members** have no breaks but those in their names and texts. -/
theorem any_itemsLines (hp : PicksBreaks p) :
    ∀ (items : List Item) (dirs : List String) (depth : ℕ),
    (∀ n ∈ itemsNames items, n.toList.any p = false) →
    (∀ f ∈ functionsIn dirs items, ∀ t ∈ texts f.2, t.toList.any p = false) →
    ∀ l ∈ itemsLines depth items, l.toList.any p = false
  | [], _, _, _, _ => fun _ hl => absurd hl List.not_mem_nil
  | i :: is, dirs, depth, hnames, htexts => by
    rw [itemsNames, List.forall_mem_append] at hnames
    rw [functionsIn, List.forall_mem_append] at htexts
    rw [itemsLines, List.forall_mem_append]
    exact ⟨any_itemLines hp i dirs depth hnames.1 htexts.1,
      any_itemsLines hp is dirs depth hnames.2 htexts.2⟩

theorem any_itemLines (hp : PicksBreaks p) :
    ∀ (i : Item) (dirs : List String) (depth : ℕ),
    (∀ n ∈ itemNames i, n.toList.any p = false) →
    (∀ f ∈ functionsOf dirs i, ∀ t ∈ texts f.2, t.toList.any p = false) →
    ∀ l ∈ itemLines depth i, l.toList.any p = false
  | .function name body, _, depth, hnames, htexts => by
    have hname := hnames name (List.mem_singleton_self name)
    have hbody := htexts _ (List.mem_singleton_self _)
    rw [itemLines, List.cons_append, List.forall_mem_cons, List.forall_mem_append,
      List.forall_mem_singleton]
    exact ⟨any_framed hp depth hname (by decide) (by decide),
      any_bodyLines hp body (depth + 1) hbody, any_closing hp depth⟩
  | .dir name items, dirs, depth, hnames, htexts => by
    obtain ⟨hname, hnames⟩ := List.forall_mem_cons.mp hnames
    rw [itemLines, List.cons_append, List.forall_mem_cons, List.forall_mem_append,
      List.forall_mem_singleton]
    exact ⟨any_framed hp depth hname (by decide) (by decide),
      any_itemsLines hp items (dirs ++ [name]) (depth + 1) hnames htexts, any_closing hp depth⟩
  | .group name values, _, depth, hnames, _ => by
    obtain ⟨hname, hvalues⟩ := List.forall_mem_cons.mp hnames
    rw [itemLines, List.cons_append, List.forall_mem_cons, List.forall_mem_append,
      List.forall_mem_singleton, List.forall_mem_map]
    refine ⟨any_framed hp depth hname (by decide) (by decide), fun v hv => ?_,
      any_closing hp depth⟩
    rw [any_indentLine hp]
    exact hvalues v hv

end

end SourceText

/-! ### Files of a pack -/

/-- The names that a pack is made with are on one line. -/
structure PackOptions.OneLine (o : PackOptions) : Prop where
  space : breaks o.space = false
  generated : breaks o.generatedDir = false
  flagObjective : breaks o.flagObjective = false

/-- The texts of the program that stand in a line. -/
def PackLine.texts : PackLine → List String
  | .command c => [c]
  | .call head _ => [head]
  | .clear _ => []
  | .raise _ cond => [cond]
  | .callIf _ cond _ => [cond]
  | .callUnless _ _ => []

/-- A line goes over a line only if a text of the program in it does. -/
theorem breaks_text {o : PackOptions} (ho : o.OneLine) {l : PackLine}
    (h : ∀ t ∈ l.texts, breaks t = false) : breaks (l.text o) = false := by
  have hnumber : ∀ n : ℕ, breaks (toString n) = false := fun n => by
    rw [show toString n = toString (n : ℤ) from rfl, breaks_toString]
  have hreference : ∀ n, breaks (o.reference n) = false := fun n => by
    simp only [PackOptions.reference, breaks_append, ho.space, ho.generated, hnumber]
    simp [breaks, isBreak]
  have hflag : ∀ n, breaks (o.flag n) = false := fun n => by
    simp only [PackOptions.flag, breaks_append, ho.flagObjective, hnumber]
    simp [breaks, isBreak]
  cases l with
  | command c => exact h c (List.mem_singleton_self c)
  | call head n =>
    change breaks (head ++ " function " ++ o.reference n) = false
    simp only [breaks_append, h head (List.mem_singleton_self head), hreference]
    simp [breaks, isBreak]
  | clear f =>
    change breaks ("scoreboard players set " ++ o.flag f ++ " 0") = false
    simp only [breaks_append, hflag]
    simp [breaks, isBreak]
  | raise f cond =>
    change breaks ("execute " ++ cond ++ " run scoreboard players set " ++ o.flag f ++ " 1") = false
    simp only [breaks_append, h cond (List.mem_singleton_self cond), hflag]
    simp [breaks, isBreak]
  | callIf f cond n =>
    change breaks ("execute if score " ++ o.flag f ++ " matches 1 " ++ cond ++ " run function " ++
      o.reference n) = false
    simp only [breaks_append, h cond (List.mem_singleton_self cond), hflag, hreference]
    simp [breaks, isBreak]
  | callUnless f n =>
    change breaks ("execute if score " ++ o.flag f ++ " matches 0 run function " ++
      o.reference n) = false
    simp only [breaks_append, hflag, hreference]
    simp [breaks, isBreak]

/-- Every text in the lines is one of the texts. -/
def TextsWithin (ts : List String) (lines : List PackLine) : Prop :=
  ∀ l ∈ lines, l.texts ⊆ ts

theorem TextsWithin.mono {ts us : List String} {lines : List PackLine}
    (h : TextsWithin ts lines) (hsub : ts ⊆ us) : TextsWithin us lines :=
  fun l hl => List.Subset.trans (h l hl) hsub

theorem TextsWithin.append {ts : List String} {ls ms : List PackLine} (hl : TextsWithin ts ls)
    (hm : TextsWithin ts ms) : TextsWithin ts (ls ++ ms) :=
  List.forall_mem_append.mpr ⟨hl, hm⟩

/-- What is compiled has no texts but those given. -/
structure Compiled.TextsWithin (ts : List String) (c : Compiled) : Prop where
  lines : Statuary.TextsWithin ts c.lines
  generated : ∀ g ∈ c.generated, Statuary.TextsWithin ts g.2

mutual

/-- **Compiling brings no texts of its own.** -/
theorem texts_compileBody : ∀ (body : List Statement) (c : Counters),
    (compileBody c body).TextsWithin (texts body)
  | [], _ => ⟨fun _ hl => absurd hl List.not_mem_nil, fun _ hg => absurd hg List.not_mem_nil⟩
  | s :: ss, c => by
    have hfirst := texts_compileStatement s c
    have hrest := texts_compileBody ss (compileStatement c s).after
    have hleft := List.subset_append_left (statementTexts s) (texts ss)
    have hright := List.subset_append_right (statementTexts s) (texts ss)
    exact ⟨(hfirst.lines.mono hleft).append (hrest.lines.mono hright),
      List.forall_mem_append.mpr ⟨fun g hg => (hfirst.generated g hg).mono hleft,
        fun g hg => (hrest.generated g hg).mono hright⟩⟩

theorem texts_compileStatement : ∀ (s : Statement) (c : Counters),
    (compileStatement c s).TextsWithin (statementTexts s)
  | .line command, _ =>
    ⟨List.forall_mem_singleton.mpr (List.Subset.refl _), fun _ hg => absurd hg List.not_mem_nil⟩
  | .block head body, c => by
    have hinner := texts_compileBody body { c with functions := c.functions + 1 }
    have hmore := List.subset_cons_self head (texts body)
    refine ⟨List.forall_mem_singleton.mpr ?_, List.forall_mem_append.mpr
      ⟨fun g hg => (hinner.generated g hg).mono hmore,
        List.forall_mem_singleton.mpr (hinner.lines.mono hmore)⟩⟩
    exact List.cons_subset_cons head (List.nil_subset _)
  | .branch cond yes no, c => by
    have hyes := texts_compileBody yes ⟨c.functions + 1, c.flags + 1⟩
    have hleft : texts yes ⊆ statementTexts (.branch cond yes no) :=
      List.subset_cons_of_subset cond (List.subset_append_left _ _)
    have hright : texts no ⊆ statementTexts (.branch cond yes no) :=
      List.subset_cons_of_subset cond (List.subset_append_right _ _)
    have hcond : [cond] ⊆ statementTexts (.branch cond yes no) :=
      List.cons_subset_cons cond (List.nil_subset _)
    have hhead : TextsWithin (statementTexts (.branch cond yes no))
        [.clear c.flags, .raise c.flags cond, .callIf c.flags cond c.functions] := by
      refine List.forall_mem_cons.mpr ⟨List.nil_subset _, List.forall_mem_cons.mpr ⟨hcond, ?_⟩⟩
      exact List.forall_mem_singleton.mpr hcond
    have hmade : ∀ g ∈ (compileBody ⟨c.functions + 1, c.flags + 1⟩ yes).generated ++
        [(c.functions, (compileBody ⟨c.functions + 1, c.flags + 1⟩ yes).lines)],
        TextsWithin (statementTexts (.branch cond yes no)) g.2 :=
      List.forall_mem_append.mpr ⟨fun g hg => (hyes.generated g hg).mono hleft,
        List.forall_mem_singleton.mpr (hyes.lines.mono hleft)⟩
    rw [compileStatement]
    dsimp only
    split_ifs
    · exact ⟨hhead, hmade⟩
    · set first := (compileBody ⟨c.functions + 1, c.flags + 1⟩ yes).after
      have hno := texts_compileBody no { first with functions := first.functions + 1 }
      refine ⟨hhead.append (List.forall_mem_singleton.mpr (List.nil_subset _)), ?_⟩
      refine List.forall_mem_append.mpr ⟨List.forall_mem_append.mpr ⟨hmade, ?_⟩, ?_⟩
      · exact fun g hg => (hno.generated g hg).mono hright
      · exact List.forall_mem_singleton.mpr (hno.lines.mono hright)

end

mutual

theorem texts_compileItems : ∀ (items : List Item) (dirs : List String) (c : Counters),
    ∀ part ∈ (compileItems dirs c items).1, ∀ lines, part.lines? = some lines →
      TextsWithin ((functionsIn dirs items).flatMap fun f => texts f.2) lines
  | [], _, _ => fun _ hpart => absurd hpart List.not_mem_nil
  | i :: is, dirs, c => by
    rw [functionsIn, List.flatMap_append]
    refine List.forall_mem_append.mpr ⟨fun part hpart lines hlines => ?_,
      fun part hpart lines hlines => ?_⟩
    · exact (texts_compileItem i dirs c part hpart lines hlines).mono
        (List.subset_append_left _ _)
    · exact (texts_compileItems is dirs _ part hpart lines hlines).mono
        (List.subset_append_right _ _)

theorem texts_compileItem : ∀ (i : Item) (dirs : List String) (c : Counters),
    ∀ part ∈ (compileItem dirs c i).1, ∀ lines, part.lines? = some lines →
      TextsWithin ((functionsOf dirs i).flatMap fun f => texts f.2) lines
  | .function name body, dirs, c => by
    have hbody := texts_compileBody body c
    rw [functionsOf, List.flatMap_singleton, compileItem]
    refine List.forall_mem_append.mpr ⟨List.forall_mem_map.mpr fun g hg lines hlines => ?_,
      List.forall_mem_singleton.mpr fun lines hlines => ?_⟩
    · cases hlines
      exact hbody.generated g hg
    · cases hlines
      exact hbody.lines
  | .dir name items, dirs, c => texts_compileItems items (dirs ++ [name]) c
  | .group name values, _, _ => List.forall_mem_singleton.mpr fun _ hlines => nomatch hlines

end

/-! ### Written forms -/

namespace Program

/-- **The texts of a program**: the commands, heads and conditions of all its functions. -/
def texts (p : Program) : List String :=
  p.functions.flatMap fun f => Statuary.texts f.2

variable {p : Program}

/-- **The source text is cut into its lines** at the line feeds if no text and no name has one. -/
theorem cutAt_source (h : ∀ t ∈ p.header ++ itemsNames p.items ++ p.texts, '\n' ∉ t.toList) :
    cutAt '\n' p.source = p.lines ++ [""] := by
  have hany : ∀ s : String, s.toList.any (· == '\n') = false ↔ '\n' ∉ s.toList := fun s => by
    rw [List.any_beq', List.contains_eq_mem, decide_eq_false_iff_not]
  have hp : PicksBreaks (· == '\n') := fun c hc => by simp_all [isBreak]
  simp only [List.forall_mem_append, ← hany] at h
  obtain ⟨⟨hheader, hnames⟩, htexts⟩ := h
  refine cutAt_join fun l hl => (hany l).mp ?_
  revert l hl
  rw [lines, List.forall_mem_append, List.forall_mem_map]
  constructor
  · intro h hh
    rw [String.toList_append, List.any_append, hheader h hh]
    rfl
  · refine any_itemsLines hp p.items [] 0 hnames fun f hf t ht => ?_
    exact htexts t (List.mem_flatMap.mpr ⟨f, hf, ht⟩)

variable (hheader : ∀ h ∈ p.header, breaks h = false) (htexts : ∀ t ∈ p.texts, breaks t = false)

include hheader htexts

/-- **The source text consists of its lines** if no text and no name goes over a line. -/
theorem isLines_source (hnames : ∀ n ∈ itemsNames p.items, breaks n = false) :
    IsLines p.source p.lines := by
  refine isLines_join (List.forall_mem_append.mpr ⟨List.forall_mem_map.mpr fun h hh => ?_, ?_⟩)
  · rw [breaks_append, hheader h hh]
    rfl
  · refine any_itemsLines (fun _ hc => hc) p.items [] 0 hnames fun f hf t ht => ?_
    exact htexts t (List.mem_flatMap.mpr ⟨f, hf, ht⟩)

/-- **A file of a pack consists of the lines compiled for it.** -/
theorem isLines_function {o : PackOptions} (ho : o.OneLine) {part : PackPart}
    (hpart : part ∈ p.packParts) {lines : List PackLine} (hlines : part.lines? = some lines) :
    IsLines (part.file o p.header).data (p.header.map ("#" ++ ·) ++ lines.map (·.text o)) := by
  have hwithin := texts_compileItems p.items [] {} part hpart lines hlines
  have hbreaks : ∀ l ∈ p.header.map ("#" ++ ·) ++ lines.map (·.text o), breaks l = false := by
    refine List.forall_mem_append.mpr ⟨List.forall_mem_map.mpr fun h hh => ?_,
      List.forall_mem_map.mpr fun l hl => breaks_text ho fun t ht => htexts t (hwithin l hl ht)⟩
    rw [breaks_append, hheader h hh]
    rfl
  have hdata : (part.file o p.header).data = PackPart.functionText o p.header lines := by
    cases part with
    | group names values => cases hlines
    | _ =>
      cases hlines
      rfl
  rw [hdata, PackPart.functionText]
  have hjoin := isLines_join hbreaks
  rwa [List.map_append, List.map_map, List.map_map] at hjoin

end Program

end Statuary
