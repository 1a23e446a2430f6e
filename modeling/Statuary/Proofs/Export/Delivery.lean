import Mathlib.Data.List.TakeWhile
import Statuary.Export.Delivery
import Statuary.Proofs.Files.Below

/-!
# Where the files of a pack go

A pack is written below a directory file by file, each at the path of the directory with that of the
file behind it. To say where a run has been, the writer is made to **note the paths that it is
given** (`Statuary.Delivery.noting`), whatever it does with them. They are those of some files at
the front of the list, and if any file is left over, the run ends with an error
(`Statuary.Delivery.exists_passed`).

A path that goes up, begins at the root or is written with a backslash is refused, so no file gets
out of the directory. The check looks for what leads out, and **not for what leads nowhere**: a path
of points and slashes alone, such as `.`, passes it, and is that of the directory itself. So all
paths are strictly below the directory exactly if no such path is reached
(`Statuary.Delivery.writeBelow_below_iff`).
-/

namespace Statuary

namespace Delivery

/-! ### Paths that a writer is given -/

section Passed

variable {σ : Type}

/-- The path at which a file is written below a directory. -/
def target (root : String) (f : PackFile) : String :=
  Path.join [root, f.path]

/-- The same writer, noting the paths that it is given. -/
def noting (write : Writer (StateM σ)) : Writer (StateM (σ × List String)) :=
  fun path content st =>
    let (result, w) := (write path content).run st.1
    (result, w, st.2 ++ [path])

/-- **The paths that a writer is given** when files are written below a directory. -/
def passed (write : Writer (StateM σ)) (root : String) (files : List PackFile) (w : σ) :
    List String :=
  ((writeBelow (noting write) root files).run (w, [])).2.2

/-- Why files are left over: one of them may not be written, or one before them could not be. -/
def Stops (write : Writer (StateM σ)) (back : List PackFile) : Prop :=
  (∃ f rest, back = f :: rest ∧ isPackPath f.path = false) ∨
    ∃ path content w cause, ((write path content).run w).1 = .error cause

variable {write : Writer (StateM σ)} {root : String} {f : PackFile} {files : List PackFile}
  {w w₁ : σ}

theorem run_refused (h : isPackPath f.path = false) :
    (writeBelow write root (f :: files)).run w = (.error (.badFiles (.badPath f.path)), w) := by
  rw [writeBelow, h]
  rfl

theorem run_failed {cause : String} (h : isPackPath f.path = true)
    (hwrite : (write (target root f) (.text f.data)).run w = (.error cause, w₁)) :
    (writeBelow write root (f :: files)).run w = (.error (.file f.path cause), w₁) := by
  rw [target] at hwrite
  rw [writeBelow, h]
  simp only [Bool.not_true, Bool.false_eq_true, if_false, StateT.run_bind, hwrite]
  rfl

theorem run_written (h : isPackPath f.path = true)
    (hwrite : (write (target root f) (.text f.data)).run w = (.ok (), w₁)) :
    (writeBelow write root (f :: files)).run w = (writeBelow write root files).run w₁ := by
  rw [target] at hwrite
  rw [writeBelow, h]
  simp only [Bool.not_true, Bool.false_eq_true, if_false, StateT.run_bind, hwrite]
  rfl

/-- **A run that is noted is the run itself**, and the paths are those of the files before the ones
that are left over. -/
theorem exists_run_noting (write : Writer (StateM σ)) (root : String) (files : List PackFile)
    (w : σ) (past : List String) : ∃ front back, files = front ++ back ∧
      (∀ f ∈ front, isPackPath f.path = true) ∧
      (back ≠ [] → Stops write back ∧ ∃ e, ((writeBelow write root files).run w).1 = .error e) ∧
      (writeBelow (noting write) root files).run (w, past) =
        (((writeBelow write root files).run w).1, ((writeBelow write root files).run w).2,
          past ++ front.map (target root)) := by
  induction files generalizing w past with
  | nil =>
    refine ⟨[], [], rfl, nofun, fun h => absurd rfl h, ?_⟩
    rw [List.map_nil, List.append_nil]
    rfl
  | cons f files ih =>
    cases hpath : isPackPath f.path with
    | false =>
      refine ⟨[], f :: files, rfl, nofun, fun _ => ⟨.inl ⟨f, files, rfl, hpath⟩, ?_⟩, ?_⟩
      · rw [run_refused hpath]
        exact ⟨_, rfl⟩
      · rw [run_refused hpath, run_refused hpath, List.map_nil, List.append_nil]
    | true =>
      obtain ⟨⟨result, w₁⟩, hwrite⟩ : ∃ run, (write (target root f) (.text f.data)).run w = run :=
        ⟨_, rfl⟩
      have hnoting : (noting write (target root f) (.text f.data)).run (w, past) =
          (result, w₁, past ++ [target root f]) := by
        change (let (result, w) := (write (target root f) (.text f.data)).run w
          (result, w, past ++ [target root f])) = _
        rw [hwrite]
      cases result with
      | error cause =>
        rw [run_failed hpath hwrite, run_failed hpath hnoting]
        refine ⟨[f], files, rfl, List.forall_mem_singleton.mpr hpath, fun _ => ⟨?_, _, rfl⟩, rfl⟩
        exact .inr ⟨_, _, w, cause, congrArg Prod.fst hwrite⟩
      | ok =>
        rw [run_written hpath hwrite, run_written hpath hnoting]
        obtain ⟨front, back, rfl, hfront, hback, hrun⟩ := ih w₁ (past ++ [target root f])
        refine ⟨f :: front, back, rfl, List.forall_mem_cons.mpr ⟨hpath, hfront⟩, hback, ?_⟩
        rw [List.append_assoc, List.singleton_append] at hrun
        exact hrun

/-- **The paths that a writer is given** are those of the files before the ones that are left over,
and if there are any the run fails. -/
theorem exists_passed (write : Writer (StateM σ)) (root : String) (files : List PackFile) (w : σ) :
    ∃ front back, files = front ++ back ∧ passed write root files w = front.map (target root) ∧
      (∀ f ∈ front, isPackPath f.path = true) ∧
      (back ≠ [] → Stops write back ∧ ∃ e, ((writeBelow write root files).run w).1 = .error e) := by
  obtain ⟨front, back, hfiles, hfront, hback, hrun⟩ := exists_run_noting write root files w []
  refine ⟨front, back, hfiles, ?_, hfront, hback⟩
  rw [passed, hrun, List.nil_append]

/-- A writer that never fails is given the paths of all files before the first that may not be
written. -/
theorem passed_of_ok (h : ∀ path content w, ((write path content).run w).1 = .ok ())
    (root : String) (files : List PackFile) (w : σ) : passed write root files w =
      (files.takeWhile fun f => isPackPath f.path).map (target root) := by
  obtain ⟨front, back, rfl, hpassed, hfront, hback⟩ := exists_passed write root files w
  have hrest : back.takeWhile (fun f => isPackPath f.path) = [] := by
    cases back with
    | nil => rfl
    | cons f back =>
      rcases (hback (List.cons_ne_nil f back)).1 with ⟨g, rest, heq, hg⟩ | ⟨_, _, _, _, hw⟩
      · obtain ⟨rfl, -⟩ := List.cons.inj heq
        exact List.takeWhile_cons_of_neg (by simpa using hg)
      · rw [h] at hw
        cases hw
  rw [hpassed, List.takeWhile_append_of_pos hfront, hrest, List.append_nil]

end Passed

/-! ### Files that stay below the directory -/

section Below

variable {root : String} {f : PackFile}

/-- What is asked of a path for a pack, one by one. -/
theorem isPackPath_iff {p : String} : isPackPath p = true ↔
    p ≠ "" ∧ Path.isRooted p = false ∧ '\\' ∉ p.toList ∧ ".." ∉ Path.segments p := by
  simp only [isPackPath, Bool.and_eq_true, decide_eq_true_eq, Bool.not_eq_true',
    ← Bool.not_eq_true, List.contains_iff_mem, and_assoc]

/-- **A file that may be written** lies below the directory, at the plain names of its path. -/
theorem liesAt_target (root : String) (h : isPackPath f.path = true) :
    Path.LiesAt root ((Path.segments f.path).filter fun s => decide (Path.IsPlain s))
      (target root f) := by
  obtain ⟨hne, hrooted, -, hup⟩ := isPackPath_iff.mp h
  have hsegments : [f.path].flatMap Path.segments = Path.segments f.path :=
    List.flatMap_singleton ..
  have hjoin := Path.liesAt_join root f.path [] (List.forall_mem_singleton.mpr hne) hrooted
    (by rwa [hsegments])
  rwa [hsegments] at hjoin

/-- Such a file is strictly below the directory unless its path leads nowhere. -/
theorem isBelow_target_iff (root : String) (h : isPackPath f.path = true) :
    Path.IsBelow root (target root f) ↔ ¬ ∀ s ∈ Path.segments f.path, Path.IsIdle s := by
  obtain ⟨-, -, -, hup⟩ := isPackPath_iff.mp h
  rw [(liesAt_target root h).isBelow_iff, ne_eq, List.filter_eq_nil_iff, not_iff_not]
  refine forall₂_congr fun s hs => ?_
  rw [decide_eq_true_eq]
  refine ⟨fun hplain => ?_, fun hidle hplain => hplain.not_isIdle hidle⟩
  by_contra hidle
  exact hplain (Path.isPlain_of_not_isIdle hidle fun heq => hup (heq ▸ hs))

/-- **A run ends before a file**: with an error, and the writer was given no path but those of files
that come earlier. -/
def EndsBefore {σ : Type} (write : Writer (StateM σ)) (root : String) (files : List PackFile)
    (w : σ) (before : List PackFile) : Prop :=
  (∃ e, ((writeBelow write root files).run w).1 = .error e) ∧
    ∃ front, front <+: before ∧ passed write root files w = front.map (target root)

/-- **A run stays below the directory**: every path that the writer is given is strictly below it,
and the run ends before a file that would not be. -/
structure StaysBelow {σ : Type} (write : Writer (StateM σ)) (root : String)
    (files : List PackFile) (w : σ) : Prop where
  isBelow : ∀ p ∈ passed write root files w, Path.IsBelow root p
  refused : ∀ before f after, files = before ++ f :: after → ¬ Path.IsBelow root (target root f) →
    EndsBefore write root files w before

/-- A run ends before a file that is not among those whose paths were given. -/
theorem endsBefore_of_notMem {σ : Type} {write : Writer (StateM σ)} {files : List PackFile} {w : σ}
    {front back before after : List PackFile} (hfiles : files = front ++ back)
    (hpassed : passed write root files w = front.map (target root))
    (hback : back ≠ [] → Stops write back ∧
      ∃ e, ((writeBelow write root files).run w).1 = .error e)
    (hsplit : files = before ++ f :: after) (hf : f ∉ front) :
    EndsBefore write root files w before := by
  have hboth : front ++ back = before ++ f :: after := hfiles.symm.trans hsplit
  rcases List.append_eq_append_iff.mp hboth with ⟨more, rfl, hmore⟩ | ⟨more, rfl, hmore⟩
  · have hne : back ≠ [] := by
      rintro rfl
      simp at hmore
    exact ⟨(hback hne).2, front, List.prefix_append .., hpassed⟩
  · cases more with
    | nil =>
      rw [List.nil_append] at hmore
      have hne : back ≠ [] := hmore ▸ List.cons_ne_nil f after
      exact ⟨(hback hne).2, _, List.prefix_rfl, by rw [hpassed, List.append_nil]⟩
    | cons g more =>
      obtain ⟨rfl, -⟩ := List.cons.inj hmore
      exact absurd (List.mem_append_right _ (List.mem_cons_self ..)) hf

/-- A writer that takes everything. -/
def taking : Writer (StateM Unit) := fun _ _ => return .ok ()

/-- **When all writing stays below the directory.** No file gets out of it: the paths that a writer
is given are below the directory or lead to the directory itself, and a path that is no good for a
pack ends the run before it. And whatever the writer does, every path is strictly below the
directory, exactly if none of the files before the first bad one has a path that leads nowhere. -/
theorem writeBelow_below_iff (root : String) (files : List PackFile) :
    (∀ (σ : Type) (write : Writer (StateM σ)) (w : σ),
      (∀ p ∈ passed write root files w, ∃ more, Path.LiesAt root more p) ∧
      ∀ before f after, files = before ++ f :: after → isPackPath f.path = false →
        EndsBefore write root files w before) ∧
    ((∀ (σ : Type) (write : Writer (StateM σ)) (w : σ), StaysBelow write root files w) ↔
      ∀ f ∈ files.takeWhile fun f => isPackPath f.path,
        ¬ ∀ s ∈ Path.segments f.path, Path.IsIdle s) := by
  refine ⟨fun σ write w => ?_, fun h f hf hidle => ?_, fun h σ write w => ?_⟩
  · obtain ⟨front, back, hfiles, hpassed, hfront, hback⟩ := exists_passed write root files w
    refine ⟨fun p hp => ?_, fun before f after hsplit hbad => ?_⟩
    · rw [hpassed] at hp
      obtain ⟨f, hf, rfl⟩ := List.mem_map.mp hp
      exact ⟨_, liesAt_target root (hfront f hf)⟩
    · refine endsBefore_of_notMem hfiles hpassed hback hsplit fun hmem => ?_
      rw [hfront f hmem] at hbad
      cases hbad
  · -- a writer that takes everything is given the path that leads nowhere
    have hpassed : passed taking root files () = _ := passed_of_ok (fun _ _ _ => rfl) root files ()
    have hbelow := (h Unit taking ()).isBelow (target root f)
      (hpassed ▸ List.mem_map_of_mem hf)
    have hpath : isPackPath f.path = true :=
      List.mem_takeWhile_imp (p := fun f : PackFile => isPackPath f.path) hf
    exact (isBelow_target_iff root hpath).mp hbelow hidle
  · obtain ⟨front, back, rfl, hpassed, hfront, hback⟩ := exists_passed write root files w
    have hall : ∀ f ∈ front, Path.IsBelow root (target root f) := fun f hf => by
      refine (isBelow_target_iff root (hfront f hf)).mpr (h f ?_)
      rw [List.takeWhile_append_of_pos hfront]
      exact List.mem_append_left _ hf
    refine ⟨fun p hp => ?_, fun before f after hsplit hout => ?_⟩
    · rw [hpassed] at hp
      obtain ⟨f, hf, rfl⟩ := List.mem_map.mp hp
      exact hall f hf
    · exact endsBefore_of_notMem rfl hpassed hback hsplit fun hmem => hout (hall f hmem)

/-- A file with the path `.` is written at the directory itself. -/
theorem writeBelow_below_iff_point :
    ¬ ∀ (σ : Type) (write : Writer (StateM σ)) (w : σ), StaysBelow write "out" [⟨".", "x"⟩] w := by
  rw [(writeBelow_below_iff "out" [⟨".", "x"⟩]).2]
  exact fun h => h ⟨".", "x"⟩ (by decide) (by decide)

end Below

end Delivery

end Statuary
