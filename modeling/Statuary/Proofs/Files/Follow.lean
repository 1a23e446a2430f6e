import Statuary.Proofs.Files.Place
import Statuary.Proofs.Files.Sight

/-!
# Where a path leads in a tree

A path **goes through** the places that its names lead to, all but the last
(`Statuary.Path.Through`). It can be followed exactly if it is short enough and these places are
directories, and then it leads to its place from the top (`Statuary.FileTree.place_eq_ok_iff`),
whatever detours it makes on the way.

So a path that can be followed can be followed in every tree that has at least the same directories,
and a path without detours as soon as there is the directory above its place.
-/

namespace Statuary

variable {α : Type}

/-! ### The places that a path goes through -/

namespace Path

variable {path : String} {p q front names : List String} {name : String}

/-- **A path goes through a place** if some of its names lead there and another one follows. -/
def Through (path : String) (p : List String) : Prop :=
  ∃ front s back, segments path = front ++ s :: back ∧ p = resolve true front

theorem through_snoc_iff {s : String} (h : segments path = front ++ [s]) :
    Through path p ↔ ∃ before, before <+: front ∧ p = resolve true before := by
  constructor
  · rintro ⟨before, t, back, hsplit, rfl⟩
    obtain ⟨mid, u, hlast⟩ :=
      (List.eq_nil_or_concat' (t :: back)).resolve_left (List.cons_ne_nil t back)
    rw [h, hlast, ← List.append_assoc] at hsplit
    exact ⟨before, ⟨mid, (List.append_inj' hsplit rfl).1.symm⟩, rfl⟩
  · rintro ⟨before, ⟨mid, rfl⟩, rfl⟩
    rw [List.append_assoc] at h
    cases mid with
    | nil => exact ⟨before, s, [], h, rfl⟩
    | cons t mid => exact ⟨before, t, mid ++ [s], h, rfl⟩

/-- The directory that a path leads into is one that it goes through, or above one. -/
theorem exists_through (h : place path = names ++ [name]) : ∃ p, Through path p ∧ names <+: p := by
  have hne : segments path ≠ [] := fun hnil =>
    splitOnChar_ne_nil '/' path.toList (List.map_eq_nil_iff.mp hnil)
  obtain ⟨front, s, hsegments⟩ := (List.eq_nil_or_concat' (segments path)).resolve_left hne
  refine ⟨resolve true front, ⟨front, s, [], hsegments, rfl⟩, ?_⟩
  rw [place, hsegments] at h
  -- the last name stands behind the others, or leads back to a place above them
  rcases resolve_snoc_cases front s with hlast | hprefix
  · obtain rfl := (List.append_inj' (h.symm.trans hlast) rfl).1
    exact List.prefix_rfl
  · exact (List.prefix_append names [name]).trans (h ▸ hprefix)

/-- **Plain names behind detours** go through the places above theirs. -/
theorem Through.of_segments (h : Through path p) (hfront : ∀ s ∈ front, IsDetour s)
    (hsegments : segments path = front ++ names) (hplain : ∀ s ∈ names, IsPlain s) :
    p = [] ∨ ∃ more ≠ [], names = p ++ more := by
  obtain ⟨before, s, back, hsplit, rfl⟩ := h
  rcases List.append_eq_append_iff.mp (hsegments.symm.trans hsplit) with
    ⟨more, rfl, hmore⟩ | ⟨more, rfl, -⟩
  · have hmore' : ∀ t ∈ more, IsPlain t := fun t ht =>
      hplain t (hmore ▸ List.mem_append_left _ ht)
    rw [resolve_true_detours hfront hmore']
    exact .inr ⟨s :: back, List.cons_ne_nil _ _, hmore⟩
  · refine .inl ?_
    have hbefore : ∀ t ∈ before, IsDetour t := fun t ht => hfront t (List.mem_append_left _ ht)
    have hnil : resolve true (before ++ []) = [] := resolve_true_detours hbefore nofun
    rwa [List.append_nil] at hnil

end Path

/-! ### Following a path -/

namespace FileEntry

/-- Steps that were taken from the top, the last one first: each has what is there. -/
def Taken (top : FileEntry α) : List (String × Option (FileEntry α)) → Prop
  | [] => True
  | (name, e) :: steps =>
    name ≠ ".." ∧ e = top.below? ((steps.map (·.1)).reverse ++ [name]) ∧ Taken top steps

theorem taken_nil (top : FileEntry α) : Taken top [] := trivial

variable {top : FileEntry α} {steps steps' : List (String × Option (FileEntry α))}

theorem Taken.head_eq (h : Taken top steps) :
    (steps.head?.map (·.2)).getD (some top) = top.below? (steps.map (·.1)).reverse := by
  cases steps with
  | nil => rfl
  | cons step steps =>
    rw [List.map_cons, List.reverse_cons]
    exact h.2.1

/-- The steps after one more name, in a directory. -/
def advance (inside : List (String × FileEntry α)) (steps : List (String × Option (FileEntry α)))
    (name : String) : List (String × Option (FileEntry α)) :=
  if name = "" ∨ name = "." then steps
  else if name = ".." then steps.tail
  else (name, inside.lookup name) :: steps

theorem Taken.advance (h : Taken top steps) {inside : List (String × FileEntry α)}
    (hdir : top.below? (steps.map (·.1)).reverse = some (dir inside)) (name : String) :
    Taken top (advance inside steps name) ∧
      (advance inside steps name).map (·.1) = Path.step true (steps.map (·.1)) name := by
  rw [FileEntry.advance, Path.step.eq_def]
  by_cases hskip : name = "" ∨ name = "."
  · rw [if_pos hskip, if_pos hskip]
    exact ⟨h, rfl⟩
  rw [if_neg hskip, if_neg hskip]
  by_cases hup : name = ".."
  · rw [if_pos hup, if_pos hup]
    cases steps with
    | nil => exact ⟨trivial, rfl⟩
    | cons step steps =>
      refine ⟨h.2.2, ?_⟩
      rw [List.map_cons]
      exact (if_neg h.1).symm
  · rw [if_neg hup, if_neg hup]
    refine ⟨⟨hup, ?_, h⟩, rfl⟩
    rw [below?_append, hdir, Option.bind_some, below?]
    cases inside.lookup name <;> rfl

/-- One more name is followed only in a directory, and only if it is short enough. -/
theorem follow_cons {name : String} {names : List String} (hsteps : Taken top steps)
    (h : follow top steps (name :: names) = .ok steps') : ∃ inside,
      top.below? (steps.map (·.1)).reverse = some (dir inside) ∧
      Utf8.size name ≤ Path.nameBytes ∧
      follow top (advance inside steps name) names = .ok steps' := by
  rw [follow, hsteps.head_eq] at h
  cases hhead : top.below? (steps.map (·.1)).reverse with
  | none => rw [hhead] at h; cases h
  | some e =>
    rw [hhead] at h
    cases e with
    | file => cases h
    | dir inside =>
      dsimp only at h
      by_cases hlong : Path.nameBytes < Utf8.size name
      · rw [if_pos hlong] at h
        cases h
      · rw [if_neg hlong] at h
        exact ⟨inside, rfl, Nat.le_of_not_lt hlong, h⟩

theorem follow_eq_advance {name : String} {names : List String} (hsteps : Taken top steps)
    {inside : List (String × FileEntry α)}
    (hdir : top.below? (steps.map (·.1)).reverse = some (dir inside))
    (hshort : Utf8.size name ≤ Path.nameBytes) :
    follow top steps (name :: names) = follow top (advance inside steps name) names := by
  rw [follow, hsteps.head_eq, hdir]
  dsimp only
  rw [if_neg (Nat.not_lt.mpr hshort), advance]

/-- A path that is followed leads to its place. -/
theorem map_of_follow {names : List String} (hsteps : Taken top steps)
    (h : follow top steps names = .ok steps') :
    steps'.map (·.1) = names.foldl (Path.step true) (steps.map (·.1)) := by
  induction names generalizing steps with
  | nil =>
    obtain rfl := Except.ok.inj h
    rfl
  | cons name names ih =>
    obtain ⟨inside, hhead, -, hrest⟩ := follow_cons hsteps h
    obtain ⟨htaken, hnames⟩ := hsteps.advance hhead name
    rw [ih htaken hrest, hnames, List.foldl_cons]

/-- **Names can be followed** if they are short and each is looked up in a directory. -/
theorem exists_follow_iff {names : List String} (hsteps : Taken top steps) :
    (∃ steps', follow top steps names = .ok steps') ↔
      (∀ s ∈ names, Utf8.size s ≤ Path.nameBytes) ∧
      ∀ front s back, names = front ++ s :: back → ∃ inside, top.below?
        (front.foldl (Path.step true) (steps.map (·.1))).reverse = some (dir inside) := by
  induction names generalizing steps with
  | nil =>
    refine iff_of_true ⟨steps, rfl⟩ ⟨nofun, fun front s back hsplit => ?_⟩
    cases front <;> cases hsplit
  | cons name names ih =>
    constructor
    · rintro ⟨steps', h⟩
      obtain ⟨inside, hhead, hshort, hrest⟩ := follow_cons hsteps h
      obtain ⟨htaken, hnames⟩ := hsteps.advance hhead name
      obtain ⟨hshorts, hdirs⟩ := (ih htaken).mp ⟨steps', hrest⟩
      refine ⟨List.forall_mem_cons.mpr ⟨hshort, hshorts⟩, fun front s back hsplit => ?_⟩
      cases front with
      | nil => exact ⟨inside, hhead⟩
      | cons t front =>
        obtain ⟨rfl, hrest⟩ := List.cons.inj hsplit
        rw [List.foldl_cons, ← hnames]
        exact hdirs front s back hrest
    · rintro ⟨hshort, hdirs⟩
      -- the first name is looked up where the steps have led, the others one step further on
      obtain ⟨hname, hnames⟩ := List.forall_mem_cons.mp hshort
      obtain ⟨inside, hhead⟩ := hdirs [] name names rfl
      obtain ⟨htaken, hmap⟩ := hsteps.advance hhead name
      rw [follow_eq_advance hsteps hhead hname]
      refine (ih htaken).mpr ⟨hnames, fun front s back hsplit => ?_⟩
      rw [hmap, ← List.foldl_cons]
      exact hdirs (name :: front) s back (by rw [hsplit, List.cons_append])

end FileEntry

/-- **A path of the lengths that paths have.** -/
structure Path.IsShort (path : String) : Prop where
  zero_notMem : path.toList.contains '\x00' = false
  ne_empty : path ≠ ""
  size_lt : Utf8.size path < Path.pathBytes
  names : ∀ s ∈ Path.segments path, Utf8.size s ≤ Path.nameBytes

/-! ### Places -/

namespace FileTree

variable {t t' : FileTree α} {path name : String} {p front names : List String}

/-- **A path can be followed** if it is short and goes through directories. -/
theorem place_eq_ok_iff : t.place path = .ok p ↔ Path.IsShort path ∧ p = Path.place path ∧
    ∀ q, Path.Through path q → t.seen q = .directory := by
  have hfollow : (∃ steps, t.top.follow [] (Path.segments path) = .ok steps) ↔ _ :=
    FileEntry.exists_follow_iff (FileEntry.taken_nil t.top)
  rw [place, placeOf]
  constructor
  · intro h
    split_ifs at h with hzero hempty hlong
    cases hsteps : t.top.follow [] (Path.segments path) with
    | error => rw [hsteps] at h; cases h
    | ok steps =>
      rw [hsteps] at h
      obtain rfl := Except.ok.inj h
      obtain ⟨hshort, hdirs⟩ := hfollow.mp ⟨steps, hsteps⟩
      have hmap := FileEntry.map_of_follow (FileEntry.taken_nil _) hsteps
      refine ⟨⟨by simpa using hzero, hempty, Nat.lt_of_not_le hlong, hshort⟩,
        congrArg List.reverse hmap, ?_⟩
      rintro q ⟨before, s, back, hsplit, rfl⟩
      exact seen_eq_directory_iff.mpr (hdirs before s back hsplit)
  · rintro ⟨h, rfl, hdirs⟩
    obtain ⟨steps, hsteps⟩ := hfollow.mpr ⟨h.names, fun before s back hsplit =>
      seen_eq_directory_iff.mp (hdirs _ ⟨before, s, back, hsplit, rfl⟩)⟩
    have hmap := FileEntry.map_of_follow (FileEntry.taken_nil _) hsteps
    rw [if_neg (by simpa using h.zero_notMem), if_neg h.ne_empty,
      if_neg (Nat.not_le.mpr h.size_lt), hsteps]
    exact congrArg Except.ok (congrArg List.reverse hmap)

/-- **A place that a path leads to** is its place from the top, in a directory. -/
theorem place_spec (h : t.place path = .ok p) : p = Path.place path ∧ Path.IsShort path ∧
    ∀ names name, p = names ++ [name] → t.seen names = .directory := by
  obtain ⟨hshort, rfl, hdirs⟩ := place_eq_ok_iff.mp h
  refine ⟨rfl, hshort, fun names name hlast => ?_⟩
  obtain ⟨q, hthrough, more, rfl⟩ := Path.exists_through hlast
  have hdir := hdirs _ hthrough
  by_cases hmore : more = []
  · rwa [hmore, List.append_nil] at hdir
  · exact seen_eq_directory_of_append (by rw [hdir]; nofun) hmore

/-- **A path leads to the same place** in a tree that has at least the same directories. -/
theorem place_of_directories (h : t.place path = .ok p)
    (hdirs : ∀ q, t.seen q = .directory → t'.seen q = .directory) : t'.place path = .ok p := by
  obtain ⟨hshort, hplace, hthrough⟩ := place_eq_ok_iff.mp h
  exact place_eq_ok_iff.mpr ⟨hshort, hplace, fun q hq => hdirs q (hthrough q hq)⟩

/-- **The shortest path to something** leads there. -/
theorem place_clean (h : Path.IsShort (Path.clean path))
    (hseen : t.seen (Path.place path) ≠ .nothing) :
    t.place (Path.clean path) = .ok (Path.place path) := by
  obtain ⟨front, hfront, hsegments⟩ := Path.exists_segments_clean path
  refine place_eq_ok_iff.mpr ⟨h, (Path.place_clean path).symm, fun q hq => ?_⟩
  rcases hq.of_segments hfront hsegments fun s => Path.isPlain_of_mem_place with
    rfl | ⟨more, hmore, hsplit⟩
  · exact t.seen_nil
  · rw [hsplit] at hseen
    exact seen_eq_directory_of_append hseen hmore

end FileTree

end Statuary
