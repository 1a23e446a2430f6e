import Statuary.Proofs.Files.Follow

/-!
# What operations do to a tree

An operation that fails changes nothing, and one that works **changes what is seen at its place and
nowhere else**: it makes a directory where nothing was (`Statuary.FileTree.makeDir_cases`), writes a
file (`Statuary.FileTree.write_cases`), moves one (`Statuary.FileTree.rename_cases`) or takes
something away (`Statuary.FileTree.remove_cases`). These are all the facts about operations that
other proofs need.

A file can be put where a path leads and no directory is (`Statuary.FileTree.Writable`).
-/

namespace Statuary

variable {α : Type}

namespace FileTree

variable {t t' : FileTree α} {path : String} {p q : List String} {d : α}

/-! ### Files of a tree -/

/-- **A tree has something in a file** at a place. -/
def Has (t : FileTree α) (p : List String) (d : α) : Prop :=
  ∃ time, t.entry? p = some (.file d time)

theorem has_iff : t.Has p d ↔ ∃ time, t.seen p = .file d time :=
  exists_congr fun _ => seen_eq_file_iff.symm

/-- What is read is what is seen. -/
theorem read_of_seen {time : ℕ} (h : t.place path = .ok p) (hseen : t.seen p = .file d time) :
    t.read path = .ok d := by
  rw [read, h]
  dsimp only
  rw [seen_eq_file_iff.mp hseen]

theorem read_clean (h : Path.IsShort (Path.clean path)) (hd : t.Has (Path.place path) d) :
    t.read (Path.clean path) = .ok d := by
  obtain ⟨time, hd⟩ := has_iff.mp hd
  exact read_of_seen (place_clean h (by rw [hd]; nofun)) hd

/-! ### Places for files -/

/-- **A file can be put where a path leads**: it can be followed, and leads to no directory. -/
structure Writable (t : FileTree α) (path : String) : Prop where
  place_eq : t.place path = .ok (Path.place path)
  not_directory : t.seen (Path.place path) ≠ .directory

theorem writable_of_place (h : t.place path = .ok q)
    (hq : ∀ inside, t.entry? q ≠ some (.dir inside)) : t.Writable path := by
  obtain ⟨rfl, -, -⟩ := place_spec h
  refine ⟨h, fun hdir => ?_⟩
  obtain ⟨inside, hdir⟩ := seen_eq_directory_iff.mp hdir
  exact hq inside hdir

theorem Writable.isShort (h : t.Writable path) : Path.IsShort path :=
  (place_spec h.place_eq).2.1

/-- Such a place is in a directory. -/
theorem Writable.exists_parent (h : t.Writable path) :
    ∃ names name, Path.place path = names ++ [name] ∧ t.seen names = .directory := by
  rcases List.eq_nil_or_concat' (Path.place path) with hnil | ⟨names, name, hlast⟩
  · exact absurd (hnil ▸ t.seen_nil) h.not_directory
  · exact ⟨names, name, hlast, (place_spec h.place_eq).2.2 names name hlast⟩

theorem Writable.seen_put (h : t.Writable path) (d : α) (time : ℕ) (p : List String) :
    (t.put (Path.place path) (.file d time)).seen p =
      if p = Path.place path then .file d time else t.seen p := by
  obtain ⟨names, name, hlast, hdir⟩ := h.exists_parent
  have hfree := h.not_directory
  rw [hlast] at hfree ⊢
  refine FileTree.seen_put hdir hfree (fun more hmore => ?_) p
  cases more with
  | nil => exact absurd rfl hmore
  | cons => rfl

/-- **Where a file can be put**: a short path that goes through directories and leads to none. -/
theorem writable_iff : t.Writable path ↔ Path.IsShort path ∧
    (∀ q, Path.Through path q → t.seen q = .directory) ∧ t.seen (Path.place path) ≠ .directory := by
  constructor
  · rintro ⟨hplace, hfree⟩
    obtain ⟨hshort, -, hthrough⟩ := place_eq_ok_iff.mp hplace
    exact ⟨hshort, hthrough, hfree⟩
  · rintro ⟨hshort, hthrough, hfree⟩
    exact ⟨place_eq_ok_iff.mpr ⟨hshort, rfl, hthrough⟩, hfree⟩

/-- Where a file can be put, one can be put in another tree that has the same directories. -/
theorem Writable.of_directories (h : t.Writable path)
    (hdirs : ∀ q, t'.seen q = .directory ↔ t.seen q = .directory) : t'.Writable path :=
  ⟨place_of_directories h.place_eq fun q => (hdirs q).mpr,
    fun hdir => h.not_directory ((hdirs _).mp hdir)⟩

/-! ### Operations -/

/-- **Making a directory** puts one where nothing was. -/
theorem makeDir_cases (t : FileTree α) (path : String) :
    (∃ e, t.makeDir path = (.error e, t)) ∨ ∃ t', t.makeDir path = (.ok (), t') ∧
      t.seen (Path.place path) = .nothing ∧
      ∀ p, t'.seen p = if p = Path.place path then .directory else t.seen p := by
  rw [makeDir]
  cases hplace : t.place path with
  | error => exact .inl ⟨_, rfl⟩
  | ok q =>
    dsimp only
    cases hentry : t.entry? q with
    | some => exact .inl ⟨_, rfl⟩
    | none =>
      obtain ⟨rfl, -, hparent⟩ := place_spec hplace
      have hnothing := seen_eq_nothing_iff.mpr hentry
      refine .inr ⟨_, rfl, hnothing, fun p => ?_⟩
      rcases List.eq_nil_or_concat' (Path.place path) with hnil | ⟨names, name, hlast⟩
      · rw [hnil] at hentry
        cases hentry
      · have hfree : t.seen (names ++ [name]) ≠ .directory := by
          rw [← hlast, hnothing]
          nofun
        rw [hlast]
        refine FileTree.seen_put (hparent names name hlast) hfree (fun more hmore => ?_) p
        cases more with
        | nil => exact absurd rfl hmore
        | cons => rfl

theorem exists_makeDir (hplace : t.place path = .ok p) (hnothing : t.seen p = .nothing) :
    ∃ t', t.makeDir path = (.ok (), t') := by
  rw [makeDir, hplace]
  dsimp only
  rw [seen_eq_nothing_iff.mp hnothing]
  exact ⟨_, rfl⟩

theorem place_of_filePlace (h : t.filePlace path = .ok q) : t.place path = .ok q := by
  rw [filePlace] at h
  split at h
  · rename_i names _
    dsimp only at h
    cases hbefore : t.placeOf path ((names.dropWhile (· = "")).tail.reverse ++ [""]) with
    | error => rw [hbefore] at h; cases h
    | ok => rw [hbefore] at h; cases h
  · exact h

/-- **Writing a file** puts it at its place. -/
theorem write_cases (t : FileTree α) (path : String) (d : α) :
    (∃ e, t.write path d = (.error e, t)) ∨ ∃ t', t.write path d = (.ok (), t') ∧
      t.Writable path ∧
      ∀ p, t'.seen p = if p = Path.place path then .file d t.clock else t.seen p := by
  rw [write]
  cases hplace : t.filePlace path with
  | error => exact .inl ⟨_, rfl⟩
  | ok q =>
    dsimp only
    split
    · exact .inl ⟨_, rfl⟩
    · rename_i hdir
      have hwritable := writable_of_place (place_of_filePlace hplace) hdir
      obtain ⟨rfl, -, -⟩ := place_spec (place_of_filePlace hplace)
      exact .inr ⟨_, rfl, hwritable, hwritable.seen_put d t.clock⟩

/-- A file can be written where one can be put, unless its path ends in a slash. -/
theorem Writable.exists_write (h : t.Writable path) {front : List String} {s : String}
    (hsegments : Path.segments path = front ++ [s]) (hs : s ≠ "") (d : α) :
    ∃ t', t.write path d = (.ok (), t') := by
  have hplace : t.filePlace path = .ok (Path.place path) := by
    rw [filePlace, hsegments, List.reverse_append, List.reverse_singleton, List.singleton_append]
    split
    · rename_i hlast
      exact absurd (List.cons.inj hlast).1 hs
    · exact h.place_eq
  rw [write, hplace]
  dsimp only
  split
  · rename_i inside hdir
    exact absurd (seen_eq_directory_iff.mpr ⟨inside, hdir⟩) h.not_directory
  · exact ⟨_, rfl⟩

/-- A file that is taken away leaves the same directories. -/
theorem seen_erase_file {time : ℕ} (h : t.seen q = .file d time) (p : List String) :
    (t.erase q).seen p = if p = q then .nothing else t.seen p := by
  have hdir : t.seen q ≠ .directory := by
    rw [h]
    nofun
  have hne : q ≠ [] := by
    rintro rfl
    exact hdir t.seen_nil
  exact seen_erase hne (fun _ => seen_append_eq_nothing hdir) p

/-- **Renaming a file** moves it from its place to the other one. -/
theorem rename_cases (t : FileTree α) (before after : String) :
    (∃ e, t.rename before after = (.error e, t)) ∨ ∃ t' d time,
      t.rename before after = (.ok (), t') ∧ t.seen (Path.place before) = .file d time ∧
      t.Writable after ∧
      ∀ p, t'.seen p = if p = Path.place after then .file d time
        else if p = Path.place before then .nothing else t.seen p := by
  rw [rename]
  cases hbefore : t.place before with
  | error => exact .inl ⟨_, rfl⟩
  | ok p =>
    dsimp only
    split
    · exact .inl ⟨_, rfl⟩
    · exact .inl ⟨_, rfl⟩
    · rename_i d time hfile
      cases hafter : t.place after with
      | error => exact .inl ⟨_, rfl⟩
      | ok q =>
        dsimp only
        split
        · exact .inl ⟨_, rfl⟩
        · rename_i hdir
          have hwritable := writable_of_place hafter hdir
          obtain ⟨rfl, -, -⟩ := place_spec hbefore
          obtain ⟨rfl, -, -⟩ := place_spec hafter
          have hfile := seen_eq_file_iff.mpr hfile
          have herased := seen_erase_file hfile
          refine .inr ⟨_, d, time, rfl, hfile, hwritable, fun r => ?_⟩
          -- the directories that the second path goes through are still there
          have hstill : (t.erase (Path.place before)).Writable after := by
            refine hwritable.of_directories fun r => ?_
            rw [herased]
            split_ifs with hr
            · rw [hr, hfile]
              exact iff_of_false nofun nofun
            · rfl
          rw [hstill.seen_put, herased]

/-- A file to which a path leads can be renamed to where one can be put. -/
theorem Writable.exists_rename {before after : String} {time : ℕ} (h : t.Writable after)
    (hplace : t.place before = .ok (Path.place before))
    (hfile : t.seen (Path.place before) = .file d time) :
    ∃ t', t.rename before after = (.ok (), t') := by
  rw [rename, hplace]
  dsimp only
  rw [seen_eq_file_iff.mp hfile]
  dsimp only
  rw [h.place_eq]
  dsimp only
  split
  · rename_i inside hdir
    exact absurd (seen_eq_directory_iff.mpr ⟨inside, hdir⟩) h.not_directory
  · exact ⟨_, rfl⟩

/-- **Removing** takes away what is at a place, or nothing. -/
theorem remove_cases (t : FileTree α) (path : String) : t.remove path = t ∨
    ∀ p, (t.remove path).seen p = if p = Path.place path then .nothing else t.seen p := by
  rw [remove]
  cases hplace : t.place path with
  | error => exact .inl rfl
  | ok q =>
    obtain ⟨rfl, -, -⟩ := place_spec hplace
    dsimp only
    split
    · exact .inl rfl
    · rename_i hnot
      by_cases hnil : Path.place path = []
      · rw [hnil]
        exact .inl rfl
      · refine .inr (seen_erase hnil fun more hmore => ?_)
        -- below a file, below nothing and in an empty directory there is nothing
        rw [seen_eq_nothing_iff, entry?, FileEntry.below?_append]
        rw [ entry?] at hnot
        rcases hentry : t.top.below? (Path.place path) with _ | ⟨_ | ⟨entry, inside⟩⟩ | ⟨data, time⟩
        · rfl
        · cases more with
          | nil => exact absurd rfl hmore
          | cons => rfl
        · exact absurd hentry (hnot entry inside)
        · cases more with
          | nil => exact absurd rfl hmore
          | cons => rfl

/-- A file to which a path leads is removed. -/
theorem seen_remove_file {time : ℕ} (h : t.place path = .ok (Path.place path))
    (hfile : t.seen (Path.place path) = .file d time) (p : List String) :
    (t.remove path).seen p = if p = Path.place path then .nothing else t.seen p := by
  rw [remove, h]
  dsimp only
  rw [seen_eq_file_iff.mp hfile]
  exact seen_erase_file hfile p

end FileTree

end Statuary
