import Mathlib.Data.List.Induction
import Statuary.Proofs.Files.Tree

/-!
# Making directories

A directory is made together with those above it, one name of the path after another. That works if
the paths are short enough and **no file is in the way** (`Statuary.FileTree.Passable`), and then
there is a directory at every place above that of the path and nothing else has changed
(`Statuary.FileTree.makeDirs_cases`). If it does not work, some of the directories may have been
made nonetheless.

The induction is on the names of the path, with the last one taken off: all places that they lead
through are directories by then (`Statuary.Path.Trail`), also where a step upwards leads back.
-/

namespace Statuary

variable {α : Type}

namespace Path

variable {path s : String} {rooted : Bool} {names p : List String}

/-! ### Directories above a path -/

/-- The paths that names spell one after another. -/
def ways (rooted : Bool) (names : List String) : List String :=
  (List.range names.length).map fun i => build rooted (names.take (i + 1))

theorem ways_snoc (rooted : Bool) (names : List String) (s : String) :
    ways rooted (names ++ [s]) = ways rooted names ++ [build rooted (names ++ [s])] := by
  rw [ways, List.length_append, List.length_singleton, List.range_succ, List.map_append,
    List.map_singleton, List.take_of_length_le (by simp)]
  congr 1
  refine List.map_congr_left fun i hi => ?_
  rw [List.take_append_of_le_length (List.mem_range.mp hi)]

theorem ancestors_eq (path : String) : ancestors path =
    if Path.names path = [] then [build (isRooted path) []]
    else ways (isRooted path) (Path.names path) := by
  rw [ancestors]
  split
  · rename_i hnil
    exact (if_pos hnil).symm
  · rename_i hsome
    exact (if_neg hsome).symm

/-- **A place on the way** of names: some of them lead there. -/
def Trail (names p : List String) : Prop :=
  ∃ front, front <+: names ∧ p = resolve true front

theorem trail_nil_iff : Trail [] p ↔ p = [] := by
  constructor
  · rintro ⟨front, hfront, rfl⟩
    rw [List.prefix_nil.mp hfront]
    rfl
  · rintro rfl
    exact ⟨[], List.prefix_rfl, rfl⟩

theorem trail_snoc_iff :
    Trail (names ++ [s]) p ↔ Trail names p ∨ p = resolve true (names ++ [s]) := by
  constructor
  · rintro ⟨front, hfront, rfl⟩
    rcases List.prefix_concat_iff.mp hfront with rfl | hfront
    · exact .inr rfl
    · exact .inl ⟨front, hfront, rfl⟩
  · rintro (⟨front, hfront, rfl⟩ | rfl)
    · exact ⟨front, hfront.trans (List.prefix_append ..), rfl⟩
    · exact ⟨_, List.prefix_rfl, rfl⟩

/-- The path of no names goes through the top alone. -/
theorem Through.eq_nil (h : Through (build rooted []) p) : p = [] := by
  obtain ⟨front, hfront, hsegments⟩ :
      ∃ front, (∀ s ∈ front, IsIdle s) ∧ segments (build rooted []) = front ++ [] :=
    exists_segments_build rooted nofun
  have hdetour : ∀ s ∈ front, IsDetour s := fun s hs => (hfront s hs).imp_right .inl
  rcases h.of_segments hdetour hsegments nofun with hnil | ⟨more, hmore, hsplit⟩
  · exact hnil
  · exact absurd (List.append_eq_nil_iff.mp hsplit.symm).2 hmore

/-- A path that names spell goes through the places on their way. -/
theorem Through.trail (h : Through (build rooted (names ++ [s])) p)
    (hslash : ∀ t ∈ names ++ [s], '/' ∉ t.toList) : Trail names p := by
  obtain ⟨idle, hidle, hsegments⟩ := exists_segments_build rooted hslash
  rw [← List.append_assoc] at hsegments
  obtain ⟨front, ⟨mid, hfront⟩, rfl⟩ := (through_snoc_iff hsegments).mp h
  rcases List.append_eq_append_iff.mp hfront with ⟨more, rfl, -⟩ | ⟨more, rfl, rfl⟩
  · have hnil : resolve true (front ++ []) = [] :=
      resolve_of_isIdle (fun s hs => hidle s (List.mem_append_left _ hs)) true []
    rw [List.append_nil] at hnil
    exact ⟨[], List.nil_prefix, hnil⟩
  · exact ⟨more, List.prefix_append .., resolve_of_isIdle hidle true more⟩

/-- **The places on the way** of a path are those above its own. -/
theorem trail_names_iff : Trail (Path.names path) p ↔ p <+: place path := by
  obtain ⟨k, hnames, -⟩ := exists_names path
  constructor
  · rintro ⟨front, hfront, rfl⟩
    rw [List.prefix_iff_eq_take.mp hfront, hnames, List.take_append, resolve_true_detours]
    · exact List.take_prefix ..
    · intro s hs
      exact .inr (.inr (List.eq_of_mem_replicate (List.mem_of_mem_take hs)))
    · exact fun s hs => isPlain_of_mem_place (List.mem_of_mem_take hs)
  · rintro ⟨more, hmore⟩
    refine ⟨List.replicate k ".." ++ p, ⟨more, ?_⟩, ?_⟩
    · rw [List.append_assoc, hmore, hnames]
    · refine (resolve_true_detours (fun s hs => ?_) fun s hs => ?_).symm
      · exact .inr (.inr (List.eq_of_mem_replicate hs))
      · exact isPlain_of_mem_place (hmore ▸ List.mem_append_left _ hs)

end Path

namespace FileTree

variable {size : α → ℕ} {t t' t'' : FileTree α} {path : String} {p way : List String}
  {places places' : List (List String)} {d d' : α}

theorem run_bind_eq {σ β γ : Type} {act : StateM σ β} {f : β → StateM σ γ} {st st₁ : σ} {b : β}
    (h : act.run st = (b, st₁)) : (act >>= f).run st = (f b).run st₁ := by
  rw [StateT.run_bind, h]
  rfl

/-! ### Trees that are kept -/

/-- **A tree is kept but at some places**: elsewhere the same is seen as before, or a directory was
made where nothing was, on the way to a place. -/
def KeptBut (places : List (List String)) (way : List String) (t t' : FileTree α) : Prop :=
  ∀ p ∉ places, t'.seen p = t.seen p ∨
    p <+: way ∧ t.seen p = .nothing ∧ t'.seen p = .directory

theorem KeptBut.of_seen (h : ∀ p ∉ places, t'.seen p = t.seen p) : KeptBut places way t t' :=
  fun p hp => .inl (h p hp)

theorem KeptBut.refl (t : FileTree α) : KeptBut places way t t :=
  .of_seen fun _ _ => rfl

theorem KeptBut.mono (h : KeptBut places way t t') (hsub : places ⊆ places') :
    KeptBut places' way t t' :=
  fun p hp => h p fun hmem => hp (hsub hmem)

theorem KeptBut.trans (h : KeptBut places way t t') (h' : KeptBut places' way t' t'')
    (hsub : places ⊆ places') : KeptBut places' way t t'' := by
  intro p hp
  rcases h p fun hmem => hp (hsub hmem) with hsame | ⟨hway, hnothing, hdir⟩
  · rcases h' p hp with hsame' | ⟨hway, hnothing, hdir⟩
    · exact .inl (hsame'.trans hsame)
    · exact .inr ⟨hway, hsame ▸ hnothing, hdir⟩
  · rcases h' p hp with hsame' | ⟨-, hnothing', -⟩
    · exact .inr ⟨hway, hnothing, hsame'.trans hdir⟩
    · rw [hdir] at hnothing'
      cases hnothing'

/-- What is not on the way is as before. -/
theorem KeptBut.seen_eq (h : KeptBut places way t t') (hp : p ∉ places) (hway : ¬ p <+: way) :
    t'.seen p = t.seen p :=
  (h p hp).resolve_right fun hmade => hway hmade.1

/-- **The files** are the same at the other places. -/
theorem KeptBut.has_iff (h : KeptBut places way t t') (hp : p ∉ places) :
    t'.Has p d ↔ t.Has p d := by
  rw [FileTree.has_iff, FileTree.has_iff]
  rcases h p hp with hsame | ⟨-, hnothing, hdir⟩
  · rw [hsame]
  · rw [hnothing, hdir]
    exact iff_of_false (fun ⟨_, h⟩ => nomatch h) fun ⟨_, h⟩ => nomatch h

/-! ### Making one directory after another -/

/-- Whether there is a directory is what is seen at the place of a path. -/
theorem run_isDir (h : t.place path = .ok p) :
    ((system size).isDir? path).run t = ((t.seen p).isDirectory, t) := by
  have hat : t.at? path = t.entry? p := by
    rw [ at?, h]
  refine (congrArg (fun x : Option (FileEntry α) => (x.map _, t)) hat).trans ?_
  rw [seen]
  rcases t.entry? p with _ | ⟨inside⟩ | ⟨data, time⟩ <;> rfl

/-- A path that cannot be followed leads to nothing, and no directory can be made there. -/
theorem makeEach_singleton_error {f : FileFault} (h : t.place path = .error f) :
    ((system size).makeEach [path]).run t = (.error ⟨.makeDir, [path], f⟩, t) := by
  have hdir : ((system size).isDir? path).run t = (none, t) := by
    have hat : t.at? path = none := by
      rw [ at?, h]
    exact congrArg (fun x : Option (FileEntry α) => (x.map _, t)) hat
  have hmake : ((system size).makeDir path).run t = (.error ⟨.makeDir, [path], f⟩, t) := by
    have hfails : t.makeDir path = (.error ⟨.makeDir, [path], f⟩, t) := by
      rw [makeDir, h]
    exact hfails
  rw [FileSystem.makeEach, run_bind_eq hdir]
  dsimp only
  rw [run_bind_eq hmake]
  rfl

/-- **One directory** is made or is there, unless a file is in the way. -/
theorem makeEach_singleton_cases (size : α → ℕ)
    (hthrough : ∀ r, Path.Through path r → t.seen r = .directory) :
    (∃ e, ((system size).makeEach [path]).run t = (.error e, t) ∧
      (Path.IsShort path → ∃ d time, t.seen (Path.place path) = .file d time)) ∨
    ∃ t', ((system size).makeEach [path]).run t = (.ok (), t') ∧ Path.IsShort path ∧
      (∀ d time, t.seen (Path.place path) ≠ .file d time) ∧
      ∀ p, t'.seen p = if p = Path.place path then .directory else t.seen p := by
  cases hplace : t.place path with
  | error f =>
    refine .inl ⟨_, makeEach_singleton_error hplace, fun hshort => ?_⟩
    rw [place_eq_ok_iff.mpr ⟨hshort, rfl, hthrough⟩] at hplace
    cases hplace
  | ok q =>
    obtain ⟨rfl, hshort, -⟩ := place_spec hplace
    rw [FileSystem.makeEach, run_bind_eq (run_isDir hplace)]
    cases hseen : t.seen (Path.place path) with
    | nothing =>
      simp only [Sight.isDirectory]
      obtain ⟨t₁, hworks⟩ := exists_makeDir hplace hseen
      rcases makeDir_cases t path with ⟨e, hfails⟩ | ⟨t', hmake, -, hseen'⟩
      · rw [hworks] at hfails
        cases hfails
      · have hrun : ((system size).makeDir path).run t = (.ok (), t') := hmake
        rw [run_bind_eq hrun]
        exact .inr ⟨t', rfl, hshort, nofun, hseen'⟩
    | directory =>
      refine .inr ⟨t, rfl, hshort, nofun, fun p => ?_⟩
      split_ifs with hp
      · rw [hp, hseen]
      · rfl
    | file d time => exact .inl ⟨_, rfl, fun _ => ⟨d, time, rfl⟩⟩

/-- Directories are made in order, and a failure ends it. -/
theorem makeEach_append (size : α → ℕ) (t : FileTree α) (paths paths' : List String) :
    ((system size).makeEach (paths ++ paths')).run t =
      match ((system size).makeEach paths).run t with
      | (.error e, t₁) => (.error e, t₁)
      | (.ok _, t₁) => ((system size).makeEach paths').run t₁ := by
  induction paths generalizing t with
  | nil => rfl
  | cons path paths ih =>
    have hdir : ((system size).isDir? path).run t = (((system size).isDir? path t).1, t) := rfl
    rw [List.cons_append, FileSystem.makeEach, FileSystem.makeEach, run_bind_eq hdir,
      run_bind_eq hdir]
    rcases ((system size).isDir? path t).1 with _ | _ | _
    · have hmake : ((system size).makeDir path).run t = ((t.makeDir path).1, (t.makeDir path).2) :=
        rfl
      dsimp only
      rw [run_bind_eq hmake, run_bind_eq hmake]
      cases (t.makeDir path).1 with
      | error => rfl
      | ok => exact ih _
    · rfl
    · exact ih t

/-- Where a directory was made and no file was, there was nothing or the directory. -/
theorem seen_eq_or_made (hdir : t'.seen p = .directory) (hnot : ∀ d time, t.seen p ≠ .file d time) :
    t'.seen p = t.seen p ∨ t.seen p = .nothing ∧ t'.seen p = .directory := by
  cases hseen : t.seen p with
  | nothing => exact .inr ⟨rfl, hdir⟩
  | directory => exact .inl hdir
  | file d time => exact absurd hseen (hnot d time)

/-- **Directories were made on the way of names**, where no file was, and nothing else was. -/
structure Made (names : List String) (t t' : FileTree α) : Prop where
  directory : ∀ p, Path.Trail names p → t'.seen p = .directory
  not_file : ∀ p, Path.Trail names p → ∀ d time, t.seen p ≠ .file d time
  seen_eq : ∀ p, ¬ Path.Trail names p → t'.seen p = t.seen p

variable {names : List String} {s : String}

theorem made_nil (t : FileTree α) : Made [] t t where
  directory p hp := by
    rw [Path.trail_nil_iff.mp hp]
    exact t.seen_nil
  not_file p hp := by
    rw [Path.trail_nil_iff.mp hp]
    exact nofun
  seen_eq _ _ := rfl

theorem Made.partly (h : Made names t t') (p : List String) : t'.seen p = t.seen p ∨
    Path.Trail names p ∧ t.seen p = .nothing ∧ t'.seen p = .directory := by
  by_cases hp : Path.Trail names p
  · exact (seen_eq_or_made (h.directory p hp) (h.not_file p hp)).imp_right fun hmade => ⟨hp, hmade⟩
  · exact .inl (h.seen_eq p hp)

/-- A file that is in the way has been there before. -/
theorem Made.seen_file {time : ℕ} (h : Made names t t') (hfile : t'.seen p = .file d time) :
    t.seen p = .file d time := by
  rw [← h.seen_eq p fun hp => ?_, hfile]
  rw [h.directory p hp] at hfile
  cases hfile

/-- One more directory is made on the way. -/
theorem Made.snoc (h : Made names t t')
    (hfree : ∀ d time, t'.seen (Path.resolve true (names ++ [s])) ≠ .file d time)
    (hseen : ∀ p, t''.seen p =
      if p = Path.resolve true (names ++ [s]) then .directory else t'.seen p) :
    Made (names ++ [s]) t t'' where
  directory p hp := by
    rw [hseen]
    split_ifs with hlast
    · rfl
    · exact h.directory p ((Path.trail_snoc_iff.mp hp).resolve_right hlast)
  not_file p hp d time hfile := by
    by_cases htrail : Path.Trail names p
    · exact h.not_file p htrail d time hfile
    · obtain rfl := (Path.trail_snoc_iff.mp hp).resolve_left htrail
      exact hfree d time ((h.seen_eq _ htrail).trans hfile)
  seen_eq p hp := by
    rw [Path.trail_snoc_iff, not_or] at hp
    rw [hseen, if_neg hp.2, h.seen_eq p hp.1]

/-- **Directories on the way of names** are all made or there, unless a file is in the way. -/
theorem makeEach_ways_cases (size : α → ℕ) (t : FileTree α) (rooted : Bool)
    (hslash : ∀ s ∈ names, '/' ∉ s.toList) :
    (∃ e t', ((system size).makeEach (Path.ways rooted names)).run t = (.error e, t') ∧
      (∀ p, t'.seen p = t.seen p ∨
        Path.Trail names p ∧ t.seen p = .nothing ∧ t'.seen p = .directory) ∧
      ((∀ q ∈ Path.ways rooted names, Path.IsShort q) →
        ∃ p d time, Path.Trail names p ∧ t.seen p = .file d time)) ∨
    ∃ t', ((system size).makeEach (Path.ways rooted names)).run t = (.ok (), t') ∧
      (∀ q ∈ Path.ways rooted names, Path.IsShort q) ∧ Made names t t' := by
  induction names using List.reverseRecOn with
  | nil => exact .inr ⟨t, rfl, nofun, made_nil t⟩
  | append_singleton names s ih =>
    have hplace := Path.place_build rooted hslash
    have hmore : ∀ p, Path.Trail names p → Path.Trail (names ++ [s]) p := fun p hp =>
      Path.trail_snoc_iff.mpr (.inl hp)
    rw [Path.ways_snoc, makeEach_append]
    rcases ih (List.forall_mem_append.mp hslash).1 with
      ⟨e, t₁, hrun, hkept, hwhy⟩ | ⟨t₁, hrun, hshort, hmade⟩
    · rw [hrun]
      refine .inl ⟨e, t₁, rfl, fun p => (hkept p).imp_right (And.imp_left (hmore p)),
        fun hall => ?_⟩
      obtain ⟨p, d, time, hp, hfile⟩ := hwhy fun q hq => hall q (List.mem_append_left _ hq)
      exact ⟨p, d, time, hmore p hp, hfile⟩
    rw [hrun]
    dsimp only
    -- the last path goes through what has been made for the others
    rcases makeEach_singleton_cases size fun r (hr : Path.Through (Path.build rooted _) r) =>
        hmade.directory r (hr.trail hslash) with
      ⟨e, hfails, hwhy⟩ | ⟨t', hworks, hlast, hfree, hseen⟩
    · refine .inl ⟨e, t₁, hfails,
        fun p => (hmade.partly p).imp_right (And.imp_left (hmore p)), fun hall => ?_⟩
      obtain ⟨d, time, hfile⟩ := hwhy (hall _ (by simp))
      rw [hplace] at hfile
      exact ⟨_, d, time, Path.trail_snoc_iff.mpr (.inr rfl), hmade.seen_file hfile⟩
    · rw [hplace] at hfree hseen
      exact .inr ⟨t', hworks, List.forall_mem_append.mpr
        ⟨hshort, List.forall_mem_singleton.mpr hlast⟩, hmade.snoc hfree hseen⟩

/-! ### A directory and those above it -/

/-- **A directory can be made** with those above it: their paths are short, and no file is in the
way. -/
structure Passable (t : FileTree α) (path : String) : Prop where
  isShort : ∀ q ∈ Path.ancestors path, Path.IsShort q
  not_file : ∀ p, p <+: Path.place path → ∀ d time, t.seen p ≠ .file d time

/-- **A directory that is made** with those above it changes nothing else. -/
theorem Passable.keptBut (h : t.Passable path)
    (hmade : ∀ p, t'.seen p = if p <+: Path.place path then .directory else t.seen p) :
    KeptBut [] (Path.place path) t t' := by
  intro p _
  by_cases hway : p <+: Path.place path
  · have hdir : t'.seen p = .directory := by
      rw [hmade, if_pos hway]
    exact (seen_eq_or_made hdir (h.not_file p hway)).imp_right fun hmade => ⟨hway, hmade⟩
  · exact .inl (by rw [hmade, if_neg hway])

/-- **A directory is made with those above it**, or a file is in the way. -/
theorem makeDirs_cases (size : α → ℕ) (t : FileTree α) (path : String) :
    (∃ e t', ((system size).makeDirs path).run t = (.error e, t') ∧
      KeptBut [] (Path.place path) t t' ∧ ¬ t.Passable path) ∨
    ∃ t', ((system size).makeDirs path).run t = (.ok (), t') ∧ t.Passable path ∧
      ∀ p, t'.seen p = if p <+: Path.place path then .directory else t.seen p := by
  have hancestors := Path.ancestors_eq path
  rw [FileSystem.makeDirs]
  by_cases hnil : Path.names path = []
  · -- the only directory is the one at the top
    rw [if_pos hnil] at hancestors
    have hplace : Path.place path = [] := by
      rw [← Path.resolve_true_names, hnil]
      rfl
    have htop : Path.place (Path.build (Path.isRooted path) []) = [] := Path.place_build _ nofun
    have hthrough : ∀ r, Path.Through (Path.build (Path.isRooted path) []) r →
        t.seen r = .directory := by
      intro r hr
      rw [hr.eq_nil]
      exact t.seen_nil
    rw [hancestors]
    rcases makeEach_singleton_cases size hthrough with
      ⟨e, hrun, hwhy⟩ | ⟨t', hrun, hshort, -, hseen⟩
    · refine .inl ⟨e, t, hrun, .refl t, fun h => ?_⟩
      obtain ⟨d, time, hfile⟩ := hwhy (h.isShort _ (hancestors ▸ List.mem_singleton_self _))
      rw [htop] at hfile
      cases hfile
    · refine .inr ⟨t', hrun, ⟨?_, ?_⟩, fun p => ?_⟩
      · rw [hancestors]
        exact List.forall_mem_singleton.mpr hshort
      · intro p hp
        rw [hplace] at hp
        rw [List.prefix_nil.mp hp]
        exact nofun
      · rw [hseen, hplace, htop]
        simp only [List.prefix_nil]
  · rw [if_neg hnil] at hancestors
    have hslash : ∀ s ∈ Path.names path, '/' ∉ s.toList := fun s hs => (Path.of_mem_names hs).1
    rw [hancestors]
    rcases makeEach_ways_cases size t (Path.isRooted path) hslash with
      ⟨e, t', hrun, hkept, hwhy⟩ | ⟨t', hrun, hshort, hmade⟩
    · refine .inl ⟨e, t', hrun, fun p _ => (hkept p).imp_right
        (And.imp_left Path.trail_names_iff.mp), fun h => ?_⟩
      obtain ⟨p, d, time, htrail, hfile⟩ := hwhy (hancestors ▸ h.isShort)
      exact h.not_file p (Path.trail_names_iff.mp htrail) d time hfile
    · refine .inr ⟨t', hrun, ⟨?_, fun p hp => ?_⟩, fun p => ?_⟩
      · rw [hancestors]
        exact hshort
      · exact hmade.not_file p (Path.trail_names_iff.mpr hp)
      · split_ifs with hp
        · exact hmade.directory p (Path.trail_names_iff.mpr hp)
        · exact hmade.seen_eq p fun htrail => hp (Path.trail_names_iff.mp htrail)

end FileTree

end Statuary
