import Statuary.Proofs.Files.Directories

/-!
# Replacing a file

A file is replaced by writing another one beside it and renaming that. If any of the steps fails,
**no file but the one beside is any different**, and if all work, the file has the new content and
the one beside is gone; in either case directories were made at most on the way to the file
(`Statuary.FileTree.replace_atomic`).

That the file and the one beside it are two has to be shown for every path, since a path can end in
a step upwards (`Statuary.Path.exists_place_besideName`). Both paths go through the same places, so
both can be followed once the directory of the path is made, and what can still be in the way is a
directory at either end (`Statuary.FileTree.Replaceable`).
-/

namespace Statuary

variable {α : Type}

namespace Path

open FileSystem (besideName)

variable {path : String} {p : List String}

/-! ### The name beside a path -/

theorem exists_segments_besideName (path : String) : ∃ front s, segments path = front ++ [s] ∧
    segments (besideName path) = front ++ [s ++ ".tmp"] ∧ IsName (s ++ ".tmp") := by
  have hend : '/' ∉ ".tmp".toList := by decide
  obtain ⟨front, s, hsegments, hbeside⟩ := exists_segments_append path hend
  have hs : '/' ∉ s.toList :=
    notMem_of_mem_segments (hsegments ▸ List.mem_append_right _ (List.mem_singleton_self s))
  exact ⟨front, s, hsegments, hbeside, isName_append hs hend (by decide)⟩

/-- **The name beside a path** is in its directory, and so is the path unless it leads to the
directory itself or to one above it. -/
theorem exists_place_besideName (path : String) : ∃ s,
    place (besideName path) = place (parent path) ++ [s ++ ".tmp"] ∧
      (place path = place (parent path) ++ [s] ∨ place path <+: place (parent path)) := by
  obtain ⟨front, s, hsegments, hbeside, hname⟩ := exists_segments_besideName path
  refine ⟨s, ?_, ?_⟩
  · rw [place, hbeside, resolve_append true front (List.forall_mem_singleton.mpr hname.1),
      place_parent hsegments]
  · rw [place, hsegments, place_parent hsegments]
    exact resolve_snoc_cases front s

/-- What is beside a path is not on the way to it. -/
theorem not_prefix_of_besideName (path : String) :
    ¬ place (besideName path) <+: place (parent path) := by
  obtain ⟨s, hbeside, -⟩ := exists_place_besideName path
  rw [hbeside]
  intro hprefix
  have hlength := hprefix.length_le
  rw [List.length_append, List.length_singleton] at hlength
  omega

/-- **The name beside a path** leads somewhere else. -/
theorem place_ne_besideName (path : String) : place path ≠ place (besideName path) := by
  intro heq
  obtain ⟨s, hbeside, hsame | hprefix⟩ := exists_place_besideName path
  · -- an ending makes a name longer
    rw [heq, hbeside] at hsame
    have hname : s ++ ".tmp" = s := List.singleton_inj.mp (List.append_cancel_left hsame)
    have hlength := congrArg String.length hname
    rw [String.length_append] at hlength
    exact absurd (Nat.add_eq_left.mp hlength) (by decide)
  · rw [heq] at hprefix
    exact not_prefix_of_besideName path hprefix

/-- **A path and the name beside it** go through the same places. -/
theorem through_besideName_iff : Through (besideName path) p ↔ Through path p := by
  obtain ⟨front, s, hsegments, hbeside, -⟩ := exists_segments_besideName path
  rw [through_snoc_iff hsegments, through_snoc_iff hbeside]

end Path

namespace FileTree

open FileSystem (besideName)

variable {size : α → ℕ} {t t' : FileTree α} {path : String} {p : List String} {d d' : α}

/-! ### Files that can be replaced -/

/-- **A file can be replaced**: its directory can be made, its path and the one beside it are short
and go through directories then, and they lead to none. -/
structure Replaceable (t : FileTree α) (path : String) : Prop where
  passable : t.Passable (Path.parent path)
  isShort : Path.IsShort path ∧ Path.IsShort (besideName path)
  through : ∀ p, Path.Through path p →
    p <+: Path.place (Path.parent path) ∨ t.seen p = .directory
  not_way : ¬ Path.place path <+: Path.place (Path.parent path)
  not_directory : t.seen (Path.place path) ≠ .directory
  beside : t.seen (Path.place (besideName path)) ≠ .directory

/-- **Once the directory is made**, a file can be put at the path and beside it. -/
theorem replaceable_iff {t₁ : FileTree α} (hpassable : t.Passable (Path.parent path))
    (hmade : ∀ p, t₁.seen p =
      if p <+: Path.place (Path.parent path) then .directory else t.seen p) :
    t.Replaceable path ↔ t₁.Writable (besideName path) ∧ t₁.Writable path := by
  have hdir : ∀ p, t₁.seen p = .directory ↔
      p <+: Path.place (Path.parent path) ∨ t.seen p = .directory := by
    intro p
    rw [hmade]
    split_ifs with hway
    · exact iff_of_true rfl (.inl hway)
    · exact (or_iff_right hway).symm
  simp only [writable_iff, Path.through_besideName_iff, ne_eq, hdir, not_or]
  constructor
  · rintro ⟨-, hshort, hthrough, hway, hfree, hbeside⟩
    exact ⟨⟨hshort.2, hthrough, Path.not_prefix_of_besideName path, hbeside⟩,
      hshort.1, hthrough, hway, hfree⟩
  · rintro ⟨⟨hshort, -, -, hbeside⟩, hshort', hthrough, hway, hfree⟩
    exact ⟨hpassable, ⟨hshort', hshort⟩, hthrough, hway, hfree, hbeside⟩

/-! ### The steps of a replacement -/

/-- **A file was not replaced**: at most the one beside it is gone. -/
structure Unreplaced (path : String) (t t' : FileTree α) : Prop where
  kept : KeptBut [Path.place (besideName path)] (Path.place (Path.parent path)) t t'
  beside : t'.seen (Path.place (besideName path)) = t.seen (Path.place (besideName path)) ∨
    t'.seen (Path.place (besideName path)) = .nothing

/-- **A file was replaced**, and the one beside it is gone. -/
structure Replaced (path : String) (d : α) (t t' : FileTree α) : Prop where
  kept : KeptBut [Path.place path, Path.place (besideName path)] (Path.place (Path.parent path))
    t t'
  beside : t'.seen (Path.place (besideName path)) = .nothing
  has : t'.Has (Path.place path) d
  place_eq : t'.place path = .ok (Path.place path)

theorem KeptBut.unreplaced (h : KeptBut [] (Path.place (Path.parent path)) t t') :
    Unreplaced path t t' :=
  ⟨h.mono (List.nil_subset _),
    .inl (h.seen_eq List.not_mem_nil (Path.not_prefix_of_besideName path))⟩

theorem Unreplaced.remove (h : Unreplaced path t t') :
    Unreplaced path t (t'.remove (besideName path)) := by
  rcases remove_cases t' (besideName path) with hsame | hseen
  · rwa [hsame]
  · refine ⟨h.kept.trans (.of_seen fun p hp => ?_) (List.Subset.refl _), .inr ?_⟩
    · rw [hseen, if_neg fun heq => hp (List.mem_singleton.mpr heq)]
    · rw [hseen, if_pos rfl]

/-- **Once the file beside is written**, it is renamed, or taken away if it cannot be. -/
theorem rename_beside {t₁ t₂ : FileTree α} {time : ℕ}
    (hkept : KeptBut [] (Path.place (Path.parent path)) t t₁)
    (hwritable : t₁.Writable (besideName path))
    (hseen : ∀ p, t₂.seen p =
      if p = Path.place (besideName path) then .file d time else t₁.seen p) :
    (∃ e, t₂.rename (besideName path) path = (.error e, t₂) ∧ ¬ t₁.Writable path ∧
      Unreplaced path t (t₂.remove (besideName path))) ∨
    ∃ t₃, t₂.rename (besideName path) path = (.ok (), t₃) ∧ t₁.Writable path ∧
      Replaced path d t t₃ := by
  have hbeside : t₂.seen (Path.place (besideName path)) = .file d time := by
    rw [hseen, if_pos rfl]
  have hbefore : KeptBut [Path.place (besideName path)] (Path.place (Path.parent path)) t t₂ := by
    refine hkept.trans (.of_seen fun p hp => ?_) (List.nil_subset _)
    rw [hseen, if_neg fun heq => hp (List.mem_singleton.mpr heq)]
  -- the directories are those from before the file was written
  have hdirs : ∀ q, t₂.seen q = .directory ↔ t₁.seen q = .directory := by
    intro q
    rw [hseen]
    split_ifs with hq
    · rw [hq]
      exact iff_of_false nofun hwritable.not_directory
    · rfl
  have hthere : t₂.place (besideName path) = .ok (Path.place (besideName path)) :=
    (hwritable.of_directories hdirs).place_eq
  rcases rename_cases t₂ (besideName path) path with
    ⟨e, hrename⟩ | ⟨t₃, d', time', hrename, hfile, hplace, hseen'⟩
  · have hremoved := seen_remove_file hthere hbeside
    refine .inl ⟨e, hrename, fun hfree => ?_, hbefore.trans (.of_seen fun p hp => ?_)
      (List.Subset.refl _), .inr ?_⟩
    · obtain ⟨t₃, hworks⟩ := (hfree.of_directories hdirs).exists_rename hthere hbeside
      rw [hworks] at hrename
      cases hrename
    · rw [hremoved, if_neg fun heq => hp (List.mem_singleton.mpr heq)]
    · rw [hremoved, if_pos rfl]
  · rw [hbeside] at hfile
    cases hfile
    refine .inr ⟨t₃, hrename, hplace.of_directories fun q => (hdirs q).symm,
      hbefore.trans (.of_seen fun p hp => ?_) ?_, ?_, ?_, ?_⟩
    · rw [List.mem_cons, List.mem_singleton, not_or] at hp
      rw [hseen', if_neg hp.1, if_neg hp.2]
    · exact fun p hp => List.mem_cons_of_mem _ hp
    · rw [hseen', if_neg (Path.place_ne_besideName path).symm, if_pos rfl]
    · exact FileTree.has_iff.mpr ⟨_, by rw [hseen', if_pos rfl]⟩
    · refine place_of_directories hplace.place_eq fun q hq => ?_
      rw [hseen', if_neg, if_neg, hq]
      · rintro rfl
        rw [hbeside] at hq
        cases hq
      · rintro rfl
        exact hplace.not_directory hq

/-- **A file is replaced**, or it cannot be. -/
theorem replace_cases (size : α → ℕ) (t : FileTree α) (path : String) (d : α) :
    (∃ e t', ((system size).replace path d).run t = (.error e, t') ∧ ¬ t.Replaceable path ∧
      Unreplaced path t t') ∨
    ∃ t', ((system size).replace path d).run t = (.ok (), t') ∧ t.Replaceable path ∧
      Replaced path d t t' := by
  rw [FileSystem.replace]
  rcases makeDirs_cases size t (Path.parent path) with
    ⟨e, t₁, hdirs, hkept, hnot⟩ | ⟨t₁, hdirs, hpassable, hmade⟩
  · -- some directories may have been made, and no file was touched
    rw [run_bind_eq hdirs]
    exact .inl ⟨e, t₁, rfl, fun h => hnot h.passable, hkept.unreplaced⟩
  have hkept := hpassable.keptBut hmade
  have hiff := replaceable_iff hpassable hmade
  rw [run_bind_eq hdirs]
  dsimp only
  rcases write_cases t₁ (besideName path) d with ⟨e, hwrite⟩ | ⟨t₂, hwrite, hwritable, hseen⟩
  · -- what is beside may still be taken away, such as an empty directory
    have hrun : ((system size).write (besideName path) d).run t₁ = (.error e, t₁) := hwrite
    rw [run_bind_eq hrun]
    refine .inl ⟨e, _, rfl, fun h => ?_, hkept.unreplaced.remove⟩
    obtain ⟨front, s, -, hbeside, hname⟩ := Path.exists_segments_besideName path
    obtain ⟨t₂, hworks⟩ := (hiff.mp h).1.exists_write hbeside hname.1.1 d
    rw [hworks] at hwrite
    cases hwrite
  · have hrun : ((system size).write (besideName path) d).run t₁ = (.ok (), t₂) := hwrite
    rw [run_bind_eq hrun]
    dsimp only
    rcases rename_beside hkept hwritable hseen with
      ⟨e, hrename, hnot, hunreplaced⟩ | ⟨t₃, hrename, hfree, hreplaced⟩
    · have hrun : ((system size).rename (besideName path) path).run t₂ = (.error e, t₂) := hrename
      rw [run_bind_eq hrun]
      exact .inl ⟨e, _, rfl, fun h => hnot (hiff.mp h).2, hunreplaced⟩
    · have hrun : ((system size).rename (besideName path) path).run t₂ = (.ok (), t₃) := hrename
      rw [run_bind_eq hrun]
      exact .inr ⟨t₃, rfl, hiff.mpr ⟨hwritable, hfree⟩, hreplaced⟩

theorem Replaced.isShort (h : Replaced path d t t') : Path.IsShort path :=
  (place_spec h.place_eq).2.1

theorem Replaced.read_eq (h : Replaced path d t t') : t'.read path = .ok d := by
  obtain ⟨time, hseen⟩ := FileTree.has_iff.mp h.has
  exact read_of_seen h.place_eq hseen

/-- Every other file is kept, but for the one beside. -/
theorem Replaced.has_of_ne (h : Replaced path d t t') (hhas : t.Has p d')
    (hpath : p ≠ Path.place path) (hbeside : p ≠ Path.place (besideName path)) : t'.Has p d' :=
  (h.kept.has_iff (by simp [hpath, hbeside])).mpr hhas

/-- **A replacement that works** replaces one file. -/
theorem replaced_of_replace (h : ((system size).replace path d).run t = (.ok (), t')) :
    Replaced path d t t' := by
  rcases replace_cases size t path d with ⟨e, t₁, hfails, -⟩ | ⟨t₁, hworks, -, hreplaced⟩
  · rw [hfails] at h
    cases h
  · rw [hworks] at h
    cases h
    exact hreplaced

/-- **A file is replaced all at once**, and it is replaced exactly if it can be. If that fails, the
tree is kept but for the file beside, which is as it was or gone. If it works, the tree is kept but
for these two: the file is read back with its new content, and the one beside is gone. In both cases
a directory was made only where nothing was on the way to the file. -/
theorem replace_atomic (size : α → ℕ) (t : FileTree α) (path : String) (d : α) :
    ∃ result t', ((system size).replace path d).run t = (result, t') ∧
      (result = .ok () ↔ t.Replaceable path) ∧
      Path.place path ≠ Path.place (besideName path) ∧
      match result with
      | .error _ =>
        KeptBut [Path.place (besideName path)] (Path.place (Path.parent path)) t t' ∧
          (∀ d', t'.Has (Path.place path) d' ↔ t.Has (Path.place path) d') ∧
          (t'.seen (Path.place (besideName path)) = t.seen (Path.place (besideName path)) ∨
            t'.seen (Path.place (besideName path)) = .nothing)
      | .ok _ =>
        KeptBut [Path.place path, Path.place (besideName path)]
            (Path.place (Path.parent path)) t t' ∧
          t'.Has (Path.place path) d ∧ t'.read path = .ok d ∧
          t'.seen (Path.place (besideName path)) = .nothing := by
  have hne := Path.place_ne_besideName path
  rcases replace_cases size t path d with ⟨e, t', hrun, hnot, hun⟩ | ⟨t', hrun, hcan, hdone⟩
  · refine ⟨.error e, t', hrun, iff_of_false nofun hnot, hne, hun.kept,
      fun d' => hun.kept.has_iff ?_, hun.beside⟩
    exact fun hmem => hne (List.mem_singleton.mp hmem)
  · exact ⟨.ok (), t', hrun, iff_of_true rfl hcan, hne, hdone.kept, hdone.has, hdone.read_eq,
      hdone.beside⟩

end FileTree

end Statuary
