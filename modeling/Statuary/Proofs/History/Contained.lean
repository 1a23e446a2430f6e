import Statuary.Proofs.Export.Filing
import Statuary.Proofs.History.Store

/-!
# Where the store puts its texts

A project has a directory of its own below that of the store, and **whatever the store does with a
text of the project stays in there**: its path, the file that is written first, and all that a run
changes (`Statuary.Archive.Contained`). That is so for every project but two. The identifier of a
free text has no slash and is not empty, but a point is a good character of it, so a project can be
called `.` or `..`, and these are no names in a path (`Statuary.Archive.contained_iff`).

A text of the first lies in the directory of the store itself. A text of the second lies **outside
of it**, beside the directory, unless that is the root of all directories.
-/

namespace Statuary

namespace Archive

variable {dir id project : String}

/-! ### Paths of texts -/

/-- **A text of a project with a name** lies in the directory of the project. -/
theorem liesAt_path_of_isName (dir : String) (hid : '/' ∉ id.toList)
    (hproject : Path.IsName project) :
    Path.LiesAt dir [project, id ++ ending] (path dir id project) := by
  have hname := isName_file hid
  have hlies := liesAt_path dir hid hproject.1.1 hproject.2 hproject.1.2.2
  rwa [List.filter_eq_self.mpr] at hlies
  simp [hproject.1, hname.1]

theorem liesAt_path_point (dir : String) (hid : '/' ∉ id.toList) :
    Path.LiesAt dir [id ++ ending] (path dir id ".") := by
  have hname := isName_file hid
  have hlies := liesAt_path dir hid (by decide : "." ≠ "") (by decide) (by decide)
  have hplain : [".", id ++ ending].filter (fun s => decide (Path.IsPlain s)) = [id ++ ending] := by
    rw [List.filter_cons_of_neg (by decide)]
    exact List.filter_eq_self.mpr (List.forall_mem_singleton.mpr (decide_eq_true hname.1))
  rwa [hplain] at hlies

/-- **A step upwards** takes a text out of the directory, unless nothing is above that. -/
theorem isBelow_path_upward (hid : '/' ∉ id.toList) :
    (Path.IsBelow dir (path dir id "..") ↔ Path.isRooted dir = true ∧ Path.place dir = []) ∧
      ∀ more ≠ [], Path.LiesAt dir more (path dir id "..") → more = [id ++ ending] := by
  have hname := isName_file hid
  have hsegments : ["..", id ++ ending].flatMap Path.segments = [".."] ++ [id ++ ending] := by
    simp [Path.segments_of_notMem hname.2, Path.segments_of_notMem (s := "..") (by decide)]
  obtain ⟨hrooted, hnames⟩ := Path.names_join dir ".." [id ++ ending]
    (List.forall_mem_cons.mpr ⟨by decide, List.forall_mem_singleton.mpr hname.1.1⟩) (by decide)
  rw [hsegments, ← List.append_assoc, Path.resolve_append _ _
    (List.forall_mem_singleton.mpr hname.1), Path.resolve_upward] at hnames
  obtain ⟨k, hdir, hk⟩ := Path.exists_names dir
  have hone : ∀ more ≠ [], Path.LiesAt dir more (path dir id "..") →
      (Path.isRooted dir = true ∧ Path.place dir = []) ∧ more = [id ++ ending] := by
    rintro more hmore ⟨-, hlies, hplain⟩
    have hlies := hnames.symm.trans hlies
    split_ifs at hlies with hplace hroot
    · rw [hdir, hk hroot, hplace] at hlies
      exact ⟨⟨hroot, hplace⟩, hlies.symm⟩
    · rw [List.append_assoc] at hlies
      obtain rfl := List.append_cancel_left hlies
      exact absurd rfl (hplain ".." (List.mem_cons_self ..)).2.2
    · -- one name is taken away and one is added
      have hlength := congrArg List.length hlies
      have hpos : 0 < (Path.names dir).length := by
        rw [hdir, List.length_append]
        have := List.length_pos_iff.mpr hplace
        omega
      have hmore := List.length_pos_iff.mpr hmore
      rw [List.length_append, List.length_append, List.length_dropLast,
        List.length_singleton] at hlength
      omega
  refine ⟨⟨fun ⟨more, hmore, hlies⟩ => (hone more hmore hlies).1, fun ⟨hroot, hplace⟩ => ?_⟩,
    fun more hmore hlies => (hone more hmore hlies).2⟩
  refine ⟨[id ++ ending], List.cons_ne_nil _ _, hrooted, ?_, List.forall_mem_singleton.mpr hname.1⟩
  rw [if_pos hplace, if_pos hroot] at hnames
  rw [hdir, hk hroot, hplace]
  exact hnames

/-! ### Runs of the store -/

/-- The directory of a text has the place of its path but the last name. -/
theorem place_parent_path (dir : String) (hid : '/' ∉ id.toList) (hproject : Path.IsName project) :
    Path.place (Path.parent (path dir id project)) = Path.place dir ++ [project] := by
  have hplace := (liesAt_path_of_isName dir hid hproject).place_eq
  obtain ⟨q, hclean⟩ : ∃ q, path dir id project = Path.clean q :=
    Path.exists_join_eq_clean (List.mem_cons_of_mem _ (List.mem_cons_self ..)) hproject.1.1
  rw [hclean, Path.place_clean, List.append_cons] at hplace
  rw [hclean, Path.place_parent_clean hplace]

/-- **Whatever becomes of a text**, the tree is kept but at its path and beside it. -/
theorem put_keptBut (size : Content → ℕ) (now : Instant) (dir id project text : String)
    (t : FileTree Content) :
    FileTree.KeptBut [Path.place (path dir id project),
        Path.place (FileSystem.besideName (path dir id project))]
      (Path.place (Path.parent (path dir id project))) t
      ((Store.put (FileTree.system size) now dir id project text).run t).2 := by
  rw [Store.put]
  by_cases hblank : isBlank dir = true
  · rw [if_pos hblank]
    exact .refl t
  rw [if_neg hblank]
  by_cases hkey : id = "" ∨ project = ""
  · rw [if_pos hkey]
    exact .refl t
  rw [if_neg hkey]
  dsimp only
  rcases FileTree.replace_cases size t (path dir id project)
      (.packed (envelope ⟨version, id, project, now.text⟩ text)) with
    ⟨e, t', hrun, -, hnot⟩ | ⟨t', hrun, -, hdone⟩
  · rw [FileTree.run_bind_eq hrun]
    exact hnot.kept.mono (List.subset_cons_self ..)
  · rw [FileTree.run_bind_eq hrun]
    exact hdone.kept

/-! ### Projects that stay in their directory -/

/-- **A project has a directory of its own** below that of the store: its texts are there and no
other project's are, and putting one of them into the store changes nothing else, but that missing
directories above are made. -/
structure Contained (dir project : String) : Prop where
  path : ∀ u : Ulid, Path.LiesAt dir [project, u.text ++ ending] (path dir u.text project)
  own : ∀ (x : String) (u : Ulid) (more : List String), Identifier.ofText x ≠ project → more ≠ [] →
    ¬ Path.LiesAt dir (project :: more) (Archive.path dir u.text (Identifier.ofText x))
  put : ∀ (size : Content → ℕ) (now : Instant) (u : Ulid) (text : String) (t : FileTree Content)
    (p : List String), ¬ Path.place dir ++ [project] <+: p →
    ((Store.put (FileTree.system size) now dir u.text project text).run t).2.seen p = t.seen p ∨
      p <+: Path.place dir ∧ t.seen p = .nothing ∧
        ((Store.put (FileTree.system size) now dir u.text project text).run t).2.seen p = .directory

/-- **A project with a name** stays in its directory. -/
theorem contained_of_isName (dir : String) (hproject : Path.IsName project) :
    Contained dir project where
  path u := liesAt_path_of_isName dir u.slash_notMem_text hproject
  own x u more hother hmore hlies := by
    -- the other project's text is where its own name says, or at most one name below the directory
    by_cases hup : Identifier.ofText x = ".."
    · rw [hup] at hlies
      have hone := (isBelow_path_upward u.slash_notMem_text).2 _ (List.cons_ne_nil _ _) hlies
      exact hmore (List.cons.inj hone).2
    by_cases hpoint : Identifier.ofText x = "."
    · rw [hpoint] at hlies
      exact hmore (List.cons.inj (hlies.unique (liesAt_path_point dir u.slash_notMem_text))).2
    · have hname := (Identifier.isName_ofText_iff x).mpr ⟨hpoint, hup⟩
      have hthere := liesAt_path_of_isName dir u.slash_notMem_text hname
      exact hother (List.cons.inj (hlies.unique hthere)).1.symm
  put size now u text t p hp := by
    have hkept := put_keptBut size now dir u.text project text t p
    have hplace := (liesAt_path_of_isName dir u.slash_notMem_text hproject).place_eq
    obtain ⟨s, hbeside, -⟩ := Path.exists_place_besideName (Archive.path dir u.text project)
    rw [place_parent_path dir u.slash_notMem_text hproject] at hbeside hkept
    rw [List.mem_cons, List.mem_singleton, not_or, hplace, hbeside] at hkept
    -- the path and the one beside it are both in the directory of the project
    have hne : p ≠ Path.place dir ++ [project] := fun h => hp (h ▸ List.prefix_rfl)
    refine (hkept ⟨?_, ?_⟩).imp_right fun ⟨hway, hmade⟩ =>
      ⟨(List.prefix_concat_iff.mp hway).resolve_left hne, hmade⟩
    · rintro rfl
      exact hp ⟨[u.text ++ ending], by simp⟩
    · rintro rfl
      exact hp (List.prefix_append ..)

/-- **Which projects stay in their directory**: all that are not called like a detour. A text is
strictly below the directory of the store unless its project is called like a step upwards, and then
only if nothing is above that directory. -/
theorem contained_iff (dir x : String) :
    (Contained dir (Identifier.ofText x) ↔
      Identifier.ofText x ≠ "." ∧ Identifier.ofText x ≠ "..") ∧
    ∀ u : Ulid, Path.IsBelow dir (path dir u.text (Identifier.ofText x)) ↔
      Identifier.ofText x ≠ ".." ∨ Path.isRooted dir = true ∧ Path.place dir = [] := by
  have hslash : '/' ∉ (Identifier.ofText x).toList := fun h =>
    absurd (Identifier.isNameChar_of_mem_ofText h) (by decide)
  refine ⟨⟨fun h => ?_, fun h => ?_⟩, fun u => ?_⟩
  · have hplain := (h.path ⟨0, 0⟩).isPlain _ (List.mem_cons_self ..)
    exact hplain.2
  · exact contained_of_isName dir ((Identifier.isName_ofText_iff x).mpr h)
  · by_cases hup : Identifier.ofText x = ".."
    · rw [hup, (isBelow_path_upward u.slash_notMem_text).1]
      simp
    · refine iff_of_true ?_ (.inl hup)
      exact isBelow_path dir u.slash_notMem_text (Identifier.ofText_ne_empty x) hslash hup

/-- The texts of a project called `..` are not below the directory. -/
theorem contained_iff_upward : ¬ Contained "archive" (Identifier.ofText "..") ∧
    ∀ u : Ulid, ¬ Path.IsBelow "archive" (path "archive" u.text (Identifier.ofText "..")) := by
  have hup : Identifier.ofText ".." = ".." := by decide +kernel
  obtain ⟨hcontained, hbelow⟩ := contained_iff "archive" ".."
  refine ⟨fun h => (hcontained.mp h).2 hup, fun u h => ?_⟩
  rcases (hbelow u).mp h with hne | ⟨hroot, -⟩
  · exact hne hup
  · exact absurd hroot (by decide)

end Archive

end Statuary
