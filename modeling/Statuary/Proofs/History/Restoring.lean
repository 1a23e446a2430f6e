import Statuary.Proofs.History.Depot

/-!
# Whether archived exports can be restored

An export is restored from its row and its file. Other exports leave both alone: they have other
ids, so they note other rows and keep their texts in other files, and what is written beside a file
has another ending. **All but one way** to lose a text are closed by that. An output may be written
over the file of a text, and the text of a project called `..` is outside the directory of the
store, where outputs may go.

So an export can be restored if and only if its time can be read and no later output took the place
of its text (`Statuary.Depot.restore_iff_of_done`), and the latter is so for every project of
another name.
-/

namespace Statuary

/-- A path is inside a directory, counted from the top. -/
def Path.IsInside (dir p : String) : Prop :=
  ∃ names, names ≠ [] ∧ place p = place dir ++ names

namespace Depot

variable {dir : String} {st : Depot} {c : ExportCall} {x : Exported} {content : Content}

/-! ### Restoring -/

theorem verified_eq_ok_iff {row : HistoryEntry Instant} {found restored : ArchiveHeader × String} :
    Index.verified row found.1 found.2 = .ok restored ↔
      found = restored ∧ Digest.ofText restored.2 = row.digest := by
  rw [Index.verified]
  split_ifs with hdigest
  · exact ⟨fun h => ⟨Except.ok.inj h, Except.ok.inj h ▸ hdigest⟩, fun h => congrArg _ h.1⟩
  · exact iff_of_false nofun fun ⟨hfound, h⟩ => hdigest (hfound ▸ h)

/-- **An export is restored from its row and its file**: the time in its row has to be read, its
file to be opened, and the digest of the text to be that of the row. -/
theorem restore_eq_ok_iff {row : HistoryEntry String} {restored : ArchiveHeader × String}
    (hdir : dir ≠ "") (hshort : Path.IsShort (Archive.path dir c.id.text c.settings.project))
    (hrow : st.index.rows.lookup c.id.text = some row)
    (hpath : row.archivePath = Archive.path dir c.id.text c.settings.project)
    (hhas : st.files.Has (textPlace dir c) content) :
    st.restore c.id.text = .ok restored ↔ (∃ t, Instant.ofText row.created = .ok t) ∧
      Store.openContent content = .ok restored ∧ Digest.ofText restored.2 = row.digest := by
  have hget : st.index.get false c.id.text = Index.readRow row := by
    rw [Index.get, if_neg Bool.false_ne_true, hrow]
  rw [restore, Index.restore, Index.restorable, hget, Index.readRow]
  cases Instant.ofText row.created with
  | error =>
    refine iff_of_false (by rintro ⟨⟩) ?_
    rintro ⟨⟨_, ⟨⟩⟩, -⟩
  | ok t =>
    have harchive : (row.withTime t).archivePath ≠ "" := by
      rw [HistoryEntry.withTime, hpath]
      exact hshort.ne_empty
    have hopen : ((Store.get system (row.withTime t).archivePath).run st.files).1 =
        Store.openContent content := by
      rw [HistoryEntry.withTime, hpath]
      exact Store.get_of_has hdir c.id.slash_notMem_text (project_ne_empty _) hshort hhas
    dsimp only
    rw [if_neg harchive, ← hopen, and_iff_right ⟨t, rfl⟩]
    cases hrun : (Store.get system (row.withTime t).archivePath).run st.files with
    | mk r files =>
      rw [FileTree.run_bind_eq hrun]
      cases r with
      | error =>
        refine iff_of_false (by rintro ⟨⟩) ?_
        rintro ⟨⟨⟩, -⟩
      | ok found =>
        refine verified_eq_ok_iff.trans (and_congr_left fun _ => ?_)
        exact ⟨congrArg _, Except.ok.inj⟩

/-- **What an export writes is never a text of the store.** -/
theorem openContent_of_mem {path : String} {result : Except String Unit}
    (h : .wrote path content result ∈ effectsOf dir st c) :
    Store.openContent content = .error .notPacked := by
  obtain ⟨-, b, outputs, houtput, hmem⟩ := (accounts_effectsOf dir st c).2.exists_output h
  cases houtput with
  | whole | zip =>
    obtain ⟨-, rfl⟩ := Prod.mk.inj (List.mem_singleton.mp hmem)
    rfl
  | below =>
    obtain ⟨f, -, hf⟩ := List.mem_map.mp hmem
    obtain ⟨-, rfl⟩ := Prod.mk.inj hf
    rfl

/-- **What an export writes to the place of a text** is its whole output. -/
theorem eq_outputPath_of_place {d : ExportCall} {path : String} {result : Except String Unit}
    (hdir : dir ≠ "") (h : .wrote path content result ∈ effectsOf dir st d)
    (hplace : Path.place path = textPlace dir c) : path = d.settings.outputPath := by
  obtain ⟨-, b, outputs, houtput, hmem⟩ := (accounts_effectsOf dir st d).2.exists_output h
  cases houtput with
  | whole | zip => exact (Prod.mk.inj (List.mem_singleton.mp hmem)).1
  | below _ hpack =>
    obtain ⟨f, hf, hpair⟩ := List.mem_map.mp hmem
    obtain ⟨rfl, -⟩ := Prod.mk.inj hpair
    obtain ⟨q, e, he, hpath⟩ := Program.exists_ending_of_pack hpack hf
    have hends : '/' ∉ e.toList ∧ 2 < e.length ∧ e.toList.getLast? ≠ some 't' :=
      (by decide : ∀ e ∈ Program.endings,
        '/' ∉ e.toList ∧ 2 < e.length ∧ e.toList.getLast? ≠ some 't') e he
    obtain ⟨q', hjoin⟩ := Path.exists_join_append [d.settings.outputPath] q hends.1 hends.2.1
    rw [hpath] at hplace
    exact absurd (hjoin ▸ hplace) (place_append_ne hdir q' hends.1 hends.2.1 hends.2.2)

/-! ### Many exports -/

variable {before later cs : List ExportCall}

theorem effects_append (dir : String) (st : Depot) (cs ds : List ExportCall) :
    effects dir st (cs ++ ds) = effects dir st cs ++ effects dir (afterAll dir st cs) ds := by
  induction cs generalizing st with
  | nil => rfl
  | cons c cs ih => rw [List.cons_append, effects, effects, ih, List.append_assoc]; rfl

theorem afterAll_append (dir : String) (st : Depot) (cs ds : List ExportCall) :
    afterAll dir st (cs ++ ds) = afterAll dir (afterAll dir st cs) ds := by
  rw [afterAll, List.foldl_append]
  rfl

/-- An effect of exports is one of an export. -/
theorem exists_of_mem_effects {e : HostEffect} (h : e ∈ effects dir st cs) :
    ∃ st', ∃ c ∈ cs, e ∈ effectsOf dir st' c := by
  induction cs generalizing st with
  | nil => exact absurd h List.not_mem_nil
  | cons c cs ih =>
    rcases List.mem_append.mp h with h | h
    · exact ⟨st, c, List.mem_cons_self .., h⟩
    · obtain ⟨st', d, hd, he⟩ := ih h
      exact ⟨st', d, List.mem_cons_of_mem _ hd, he⟩

theorem runs_effects (hworks : ∀ e ∈ effects dir st cs, e.isFailure = false) :
    Runs dir st (effects dir st cs) (afterAll dir st cs) := by
  induction cs generalizing st with
  | nil => exact .refl st
  | cons c cs ih =>
    obtain ⟨hfirst, hrest⟩ := List.forall_mem_append.mp hworks
    exact (runs_of_leads (accounts_effectsOf dir st c).1 hfirst).append (ih hrest)

/-- **The text of an export is written over** by later exports. -/
def Overwritten (dir : String) (st : Depot) (c : ExportCall) (later : List ExportCall) : Prop :=
  ∃ new, Covers (textPlace dir c) (effects dir (after dir st c) later) new

/-- Exports with other ids keep no text at the place of a text. -/
theorem keptPlace?_ne (hdir : dir ≠ "") (hids : ∀ d ∈ later, c.id.text ≠ d.id.text) :
    ∀ e ∈ effects dir st later, keptPlace? dir e ≠ some (textPlace dir c) := by
  intro e he hplace
  obtain ⟨st', d, hd, he⟩ := exists_of_mem_effects he
  exact Archive.place_path_ne hdir c.id.slash_notMem_text (project_ne_empty _)
    (slash_notMem_project _) d.id.slash_notMem_text (project_ne_empty _) (slash_notMem_project _)
    (hids d hd) ((own_of_mem he).1 _ hplace)

/-- They do not note its id either. -/
theorem notedId?_ne (hids : ∀ d ∈ later, c.id.text ≠ d.id.text) :
    ∀ e ∈ effects dir st later, notedId? e ≠ some c.id.text := by
  intro e he hid
  obtain ⟨st', d, hd, he⟩ := exists_of_mem_effects he
  exact hids d hd ((own_of_mem he).2 _ hid)

/-- What is written over a text is no text of the store. -/
theorem openContent_of_covers {place : List String}
    (h : Covers place (effects dir st later) content) :
    Store.openContent content = .error .notPacked := by
  obtain ⟨path, he, -⟩ := h
  obtain ⟨st', d, -, he⟩ := exists_of_mem_effects he
  exact openContent_of_mem he

/-- **An export is restored after others** if its time can be read and its text is not written
over. -/
theorem restore_afterAll_iff (hdone : outcome dir st c = .done x)
    (hworks : ∀ e ∈ effects dir st (c :: later), e.isFailure = false)
    (hids : ∀ d ∈ later, c.id.text ≠ d.id.text) :
    (∃ header, (afterAll dir st (c :: later)).restore x.id = .ok (header, x.build.text) ∧
        header.id = x.id ∧ header.project = c.settings.project) ↔
      c.now.HasYear ∧ ¬ Overwritten dir st c later := by
  obtain ⟨hfirst, hrest⟩ := List.forall_mem_append.mp hworks
  obtain ⟨hid, hdir, hshort, ⟨archivedAt, hhas⟩, row, hrow, hpath, hdigest, hcreated⟩ :=
    after_of_done hdone hfirst
  -- the others keep the row, and what is in the file but for what they write there
  have hruns : Runs dir (after dir st c) (effects dir (after dir st c) later)
      (afterAll dir st (c :: later)) := runs_effects hrest
  rw [← hruns.lookup (notedId?_ne hids)] at hrow
  have hhas := hruns.has (place_besideName_ne hdir) (keptPlace?_ne hdir hids) hhas
  simp only [hid, restore_eq_ok_iff hdir hshort hrow hpath hhas, hcreated, Instant.ofText_text_iff]
  rcases foldl_overwrite (textPlace dir c) (.packed (Archive.envelope
    (Store.header archivedAt c.id.text c.settings.project) x.build.text))
    (effects dir (after dir st c) later) with ⟨hsame, hnone⟩ | hcovers
  · have hplain := Store.isPlainHeader_header archivedAt c.id.isPlainText_text
      (isPlainText_project c.settings)
    rw [hsame, Store.openContent, Archive.openEnvelope_envelope hplain]
    constructor
    · rintro ⟨header, ⟨hyear, -⟩, -⟩
      exact ⟨hyear, fun ⟨new, hcovers⟩ => hnone new hcovers⟩
    · rintro ⟨hyear, -⟩
      exact ⟨Store.header archivedAt c.id.text c.settings.project, ⟨hyear, rfl, hdigest.symm⟩, rfl,
        rfl⟩
  · rw [openContent_of_covers hcovers]
    refine iff_of_false ?_ fun h => h.2 ⟨_, hcovers⟩
    rintro ⟨header, ⟨-, hopen, -⟩, -⟩
    cases hopen

/-- **A text inside the directory is not written over** by outputs outside of it. -/
theorem not_overwritten (hdir : dir ≠ "") (hproject : c.settings.project ≠ "..")
    (houtputs : ∀ d ∈ later, ¬ Path.IsInside dir d.settings.outputPath) :
    ¬ Overwritten dir st c later := by
  rintro ⟨new, path, he, hplace⟩
  obtain ⟨st', d, hd, he⟩ := exists_of_mem_effects he
  obtain ⟨names, hne, hlies⟩ := Archive.isBelow_path dir c.id.slash_notMem_text
    (project_ne_empty _) (slash_notMem_project _) hproject
  obtain rfl := eq_outputPath_of_place hdir he hplace
  exact houtputs d hd ⟨names, hne, hplace.trans hlies.place_eq⟩

/-- **Which archived exports can be restored**, of a sequence with distinct ids and without failures
in which no output is inside the directory of the store: those whose time can be read and whose text
is not written over. That happens at most to the texts of a project called like the way upwards,
which are not inside that directory. -/
theorem restore_iff_of_done (st : Depot) (hcs : cs = before ++ c :: later)
    (hids : (cs.map (·.id.text)).Nodup)
    (hworks : ∀ e ∈ effects dir st cs, e.isFailure = false)
    (houtputs : ∀ d ∈ cs, ¬ Path.IsInside dir d.settings.outputPath)
    (hdone : outcome dir (afterAll dir st before) c = .done x) :
    ((∃ header, (afterAll dir st cs).restore x.id = .ok (header, x.build.text) ∧
        header.id = x.id ∧ header.project = c.settings.project) ↔
      c.now.HasYear ∧ ¬ Overwritten dir (afterAll dir st before) c later) ∧
    (c.settings.project ≠ ".." → ¬ Overwritten dir (afterAll dir st before) c later) := by
  subst hcs
  rw [List.map_append, List.map_cons, List.nodup_append, List.nodup_cons] at hids
  obtain ⟨-, ⟨hnotMem, -⟩, -⟩ := hids
  have hids : ∀ d ∈ later, c.id.text ≠ d.id.text := fun d hd heq =>
    hnotMem (List.mem_map.mpr ⟨d, hd, heq.symm⟩)
  rw [effects_append] at hworks
  have hworks := (List.forall_mem_append.mp hworks).2
  have houtputs : ∀ d ∈ later, ¬ Path.IsInside dir d.settings.outputPath := fun d hd =>
    houtputs d (List.mem_append_right _ (List.mem_cons_of_mem _ hd))
  have hdir := (after_of_done hdone (List.forall_mem_append.mp hworks).1).2.1
  rw [afterAll_append]
  exact ⟨restore_afterAll_iff hdone hworks hids, fun hproject =>
    not_overwritten hdir hproject houtputs⟩

/-! ### A text that is written over -/

/-- An export of a project called like the way upwards. -/
def upwardCall (sourcePath : String) (n : ℕ) : ExportCall where
  settings := { projectName := "..", sourcePath }
  rig := some .single
  canceled := false
  now := ⟨0⟩
  archivedAt := ⟨0⟩
  id := ⟨0, n⟩

theorem exists_build_upwardCall (sourcePath : String) (n : ℕ) :
    ∃ b, build (upwardCall sourcePath n).settings (some Rig.single) = .ok b ∧ b.raised = false ∧
      b.distance.isNaN = false := by
  obtain ⟨b, hb⟩ := Rig.exists_build_single ".." sourcePath
  have hb : build (upwardCall sourcePath n).settings (some Rig.single) = .ok b := hb
  obtain ⟨r, hr, h⟩ := bind_eq_ok.mp hb
  rw [mapError_eq_ok] at hr h
  obtain rfl := Except.ok.inj (Rig.normalize_single.symm.trans hr)
  obtain ⟨summons, -, h⟩ := bind_eq_ok.mp h
  have hoffset : (upwardCall sourcePath n).settings.effectiveOffset = Settings.standOffset := rfl
  have hfields : b.raised = ((Binary.zero false).lt Rig.single.maxDistance &&
        Rig.single.maxDistance.lt (Rig.single.distanceBound Settings.standOffset)) ∧
      b.distance = Rig.single.distanceBound Settings.standOffset := by
    rw [← hoffset]
    cases h
    exact ⟨by dsimp only, by dsimp only⟩
  refine ⟨b, hb, ?_, ?_⟩
  · rw [hfields.1]
    decide +kernel
  · rw [hfields.2]
    decide +kernel

/-- What an export of that project leaves at the top, given what replacing its two files leaves
there. -/
theorem exists_effectsOf_upwardCall (st : Depot) (n : ℕ) {path name : String}
    (written kept : Content → Content → FileTree Content)
    (hout : (upwardCall path n).settings.outputPath = path) (hne : path ≠ "")
    (hname : Archive.path "archive" (upwardCall path n).id.text ".." = name)
    (hwrote : ∀ c d, (system.replace path c).run st.files = (.ok (), written c d))
    (hkept : ∀ c d, (system.replace name d).run (written c d) = (.ok (), kept c d)) :
    ∃ x c d index, outcome "archive" st (upwardCall path n) = .done x ∧
      after "archive" st (upwardCall path n) = ⟨kept c d, index⟩ ∧
      effectsOf "archive" st (upwardCall path n) =
        Export.workingEffects (upwardCall path n).settings ⟨0⟩ x := by
  obtain ⟨b, hbuild, hraised, hdistance⟩ := exists_build_upwardCall path n
  have hproject : (upwardCall path n).settings.project = ".." :=
    (by decide +kernel : Identifier.ofText ".." = "..")
  obtain ⟨x, rfl, hid, hx, rfl⟩ : ∃ x : Exported, x.build = b ∧
      x.id = (upwardCall path n).id.text ∧ x.outputPath = path ∧ x.archivePath = name :=
    ⟨⟨b, _, path, name⟩, rfl, rfl, rfl, rfl⟩
  have hcanceled : (upwardCall path n).canceled = false := rfl
  have hrig : (upwardCall path n).rig = some Rig.single := rfl
  have hmode : (upwardCall path n).settings.exportMode ≠ packMode :=
    (by decide : "mcb" ≠ packMode)
  have hwrote := hwrote (.text x.build.text) (.packed (Archive.envelope (Store.header
    (upwardCall path n).archivedAt x.id (upwardCall path n).settings.project) x.build.text))
  rw [← hproject, ← hid] at hname
  rw [← hout] at hwrote hne hx
  obtain ⟨hdone, ⟨index, hafter⟩, heffects⟩ := effectsOf_of_replace hcanceled hrig hbuild hraised
    hdistance hid hmode hne hx rfl hname hwrote (hkept _ _)
  exact ⟨x, _, _, index, hdone, hafter, heffects⟩

/-- The file of the text of the first export. -/
def firstFile : String := "00000000000000000000000000.mc.zst"

/-- The file of the text of the second export. -/
def secondFile : String := "00000000000000000000000001.mc.zst"

/-- Two exports, the second of which has the file of the text of the first as its output. -/
def upwardCalls : List ExportCall :=
  [upwardCall "a.mcb" 0, upwardCall firstFile 1]

/-- **The text of the first export is written over**, and it cannot be restored. -/
theorem restore_iff_of_done_upward :
    (upwardCalls.map (·.id.text)).Nodup ∧
    (∀ e ∈ effects "archive" {} upwardCalls, e.isFailure = false) ∧
    (∀ d ∈ upwardCalls, ¬ Path.IsInside "archive" d.settings.outputPath) ∧
    ∃ x, outcome "archive" {} (upwardCall "a.mcb" 0) = .done x ∧
      ¬ ∃ header, (afterAll "archive" {} upwardCalls).restore x.id =
        .ok (header, x.build.text) ∧ header.id = x.id ∧
          header.project = (upwardCall "a.mcb" 0).settings.project := by
  have hout : (upwardCall "a.mcb" 0).settings.outputPath = "a.mcb" := by decide +kernel
  have hout' : (upwardCall firstFile 1).settings.outputPath = firstFile := by decide +kernel
  have hname : Archive.path "archive" (upwardCall "a.mcb" 0).id.text ".." = firstFile := by
    decide +kernel
  have hname' : Archive.path "archive" (upwardCall firstFile 1).id.text ".." = secondFile := by
    decide +kernel
  obtain ⟨x, c, d, index, hdone, hafter, hfirst⟩ := exists_effectsOf_upwardCall {} 0
    (fun c _ => ⟨[("a.mcb", .file c 0)], 1⟩)
    (fun c d => ⟨[("a.mcb", .file c 0), (firstFile, .file d 1)], 2⟩)
    hout (by decide) hname (fun c d => rfl) (fun c d => rfl)
  obtain ⟨y, -, -, -, -, -, hsecond⟩ := exists_effectsOf_upwardCall
    ⟨⟨[("a.mcb", .file c 0), (firstFile, .file d 1)], 2⟩, index⟩ 1
    (fun e _ => ⟨[("a.mcb", .file c 0), (firstFile, .file e 2)], 3⟩)
    (fun e f => ⟨[("a.mcb", .file c 0), (firstFile, .file e 2), (secondFile, .file f 3)], 4⟩)
    hout' (by decide) hname' (fun e f => rfl) (fun e f => rfl)
  rw [← hafter] at hsecond
  have hids : (upwardCalls.map (·.id.text)).Nodup := by decide +kernel
  have hworks : ∀ e ∈ effects "archive" {} upwardCalls, e.isFailure = false := by
    rw [upwardCalls, effects, effects, effects, hfirst, hsecond, List.append_nil]
    exact List.forall_mem_append.mpr
      ⟨isFailure_workingEffects _ _ x, isFailure_workingEffects _ _ y⟩
  have houtputs : ∀ d ∈ upwardCalls, ¬ Path.IsInside "archive" d.settings.outputPath := by
    rw [upwardCalls, List.forall_mem_cons, List.forall_mem_singleton, hout, hout']
    have hinside : ∀ p, (Path.place p).head? = some p → p ≠ "archive" →
        ¬ Path.IsInside "archive" p := by
      rintro p hp hne ⟨names, -, hplace⟩
      rw [hplace] at hp
      exact hne (Option.some.inj hp).symm
    exact ⟨hinside _ (by decide +kernel) (by decide), hinside _ (by decide +kernel) (by decide)⟩
  have hcs : upwardCalls = [] ++ upwardCall "a.mcb" 0 :: [upwardCall firstFile 1] := rfl
  have hlast : outcome "archive" (afterAll "archive" {} []) (upwardCall "a.mcb" 0) = .done x :=
    hdone
  have hiff := (restore_iff_of_done {} hcs hids hworks houtputs hlast).1
  refine ⟨hids, hworks, houtputs, x, hdone, fun hrestored => (hiff.mp hrestored).2 ?_⟩
  refine ⟨.text y.build.text, firstFile, ?_, ?_⟩
  · rw [effects, effects, List.append_nil]
    have hsecond : effectsOf "archive" (after "archive" (afterAll "archive" {} [])
      (upwardCall "a.mcb" 0)) (upwardCall firstFile 1) = _ := hsecond
    rw [hsecond, Export.workingEffects, hout']
    exact List.mem_cons_of_mem _ (List.mem_cons_self ..)
  · have hproject : (upwardCall "a.mcb" 0).settings.project = ".." := by decide +kernel
    rw [textPlace, hproject, hname]

end Depot

end Statuary
