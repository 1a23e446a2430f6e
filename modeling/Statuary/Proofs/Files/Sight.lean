import Mathlib.Data.List.Basic
import Statuary.Files.Tree

/-!
# What is seen in a tree

At a place of a tree there is nothing, a directory, or a file with its content
(`Statuary.FileTree.seen`). What a directory lists is not part of what is seen of it, since it can
be seen at the places below.

Then putting something into a tree and taking something out of it are **changes at one place**:
everywhere else the same is seen as before (`Statuary.FileTree.seen_put`,
`Statuary.FileTree.seen_erase`). That needs a directory to put something into, and that nothing is
lost below the place, so that there was no directory there. A place below what is no directory is
empty (`Statuary.FileTree.seen_append_eq_nothing`).
-/

namespace Statuary

variable {α : Type}

/-- **What is seen at a place** of a tree. -/
inductive Sight (α : Type) where
  /-- There is nothing. -/
  | nothing
  /-- There is a directory. -/
  | directory
  /-- There is a file, with what it holds and when it was written. -/
  | file (data : α) (time : ℕ)

/-- Whether a directory is seen, if anything is. -/
def Sight.isDirectory : Sight α → Option Bool
  | nothing => none
  | directory => some true
  | file .. => some false

/-! ### Entries below an entry -/

namespace FileEntry

/-- What is seen of an entry, or of there being none. -/
def sight : Option (FileEntry α) → Sight α
  | none => .nothing
  | some (dir _) => .directory
  | some (file data time) => .file data time

theorem sight_eq_directory_iff {x : Option (FileEntry α)} :
    sight x = .directory ↔ ∃ inside, x = some (dir inside) := by
  rcases x with _ | ⟨inside⟩ | ⟨data, time⟩
  · exact iff_of_false nofun nofun
  · exact iff_of_true rfl ⟨inside, rfl⟩
  · exact iff_of_false nofun nofun

theorem sight_eq_file_iff {x : Option (FileEntry α)} {d : α} {time : ℕ} :
    sight x = .file d time ↔ x = some (file d time) := by
  rcases x with _ | ⟨inside⟩ | ⟨data, time'⟩
  · exact iff_of_false nofun nofun
  · exact iff_of_false nofun nofun
  · simp [sight]

theorem sight_eq_nothing_iff {x : Option (FileEntry α)} : sight x = .nothing ↔ x = none := by
  rcases x with _ | ⟨inside⟩ | ⟨data, time⟩
  · exact iff_of_true rfl rfl
  · exact iff_of_false nofun nofun
  · exact iff_of_false nofun nofun

theorem below?_append (e : FileEntry α) (names more : List String) :
    e.below? (names ++ more) = (e.below? names).bind (below? · more) := by
  induction names generalizing e with
  | nil => rfl
  | cons name names ih =>
    cases e with
    | file => rfl
    | dir inside =>
      rw [List.cons_append, below?, below?]
      cases inside.lookup name with
      | none => rfl
      | some e => exact ih e

theorem lookup_filter_ne (name m : String) (inside : List (String × FileEntry α)) :
    (inside.filter (·.1 ≠ name)).lookup m = if m = name then none else inside.lookup m := by
  induction inside with
  | nil => simp
  | cons entry inside ih =>
    obtain ⟨n, e⟩ := entry
    by_cases hn : n = name
    · subst hn
      rw [List.filter_cons_of_neg (by simp), ih]
      by_cases hm : m = n
      · simp [hm]
      · simp [hm, List.lookup_cons, beq_eq_false_iff_ne.mpr hm]
    · rw [List.filter_cons_of_pos (by simpa using hn), List.lookup_cons, List.lookup_cons]
      by_cases hm : m = n
      · simp [hm, hn]
      · simpa [beq_eq_false_iff_ne.mpr hm] using ih

/-! ### Putting and erasing -/

variable {new e : FileEntry α} {names place other : List String} {name : String}
  {inside : List (String × FileEntry α)}

/-- What is put is there, if there is a directory to put it into. -/
theorem below?_put_self (h : e.below? names = some (dir inside)) :
    (put new (names ++ [name]) e).below? (names ++ [name]) = some new := by
  induction names generalizing e with
  | nil =>
    obtain rfl : e = dir inside := Option.some.inj h
    simp [put, below?, Assoc.lookup_put]
  | cons n names ih =>
    cases e with
    | file => cases h
    | dir outside =>
      rw [below?] at h
      obtain ⟨e, he, hbelow⟩ := Option.bind_eq_some_iff.mp h
      simp only [List.cons_append, put, below?, Assoc.lookup_put, if_pos, he, Option.getD_some,
        Option.bind_some]
      exact ih hbelow

/-- **What is put changes nothing elsewhere.** -/
theorem sight_put (new : FileEntry α) (h : e.below? names = some (dir inside))
    (hother : ¬ names ++ [name] <+: other) :
    sight ((put new (names ++ [name]) e).below? other) = sight (e.below? other) := by
  induction names generalizing e other with
  | nil =>
    obtain rfl : e = dir inside := Option.some.inj h
    cases other with
    | nil => rfl
    | cons n other =>
      have hn : n ≠ name := fun hn => hother (hn ▸ List.cons_prefix_cons.mpr ⟨rfl, List.nil_prefix⟩)
      rw [List.nil_append, put, below?, below?, Assoc.lookup_put, if_neg hn]
  | cons m names ih =>
    cases e with
    | file => cases h
    | dir outside =>
      obtain ⟨e, he, hbelow⟩ := Option.bind_eq_some_iff.mp h
      cases other with
      | nil => rfl
      | cons n other =>
        rw [List.cons_append, put, below?, below?, Assoc.lookup_put]
        by_cases hn : n = m
        · subst hn
          rw [if_pos rfl, he]
          exact ih hbelow fun hprefix => hother (List.cons_prefix_cons.mpr ⟨rfl, hprefix⟩)
        · rw [if_neg hn]

theorem erase_cons_cons (name m : String) (place : List String)
    (inside : List (String × FileEntry α)) : erase (name :: m :: place) (dir inside) =
      ((inside.lookup name).map fun e =>
        dir (Assoc.put name (erase (m :: place) e) inside)).getD (dir inside) := by
  rw [erase.eq_def]
  dsimp only
  cases inside.lookup name <;> rfl

/-- A directory stays one. -/
theorem exists_erase_dir (place : List String) (inside : List (String × FileEntry α)) :
    ∃ inside', erase place (dir inside) = dir inside' := by
  match place with
  | [] => exact ⟨inside, rfl⟩
  | [name] => exact ⟨_, rfl⟩
  | name :: m :: place =>
    rw [erase_cons_cons]
    cases inside.lookup name <;> exact ⟨_, rfl⟩

/-- What is taken away is not there any more. -/
theorem below?_erase_self (e : FileEntry α) (hplace : place ≠ []) :
    (erase place e).below? place = none := by
  induction place generalizing e with
  | nil => exact absurd rfl hplace
  | cons name place ih =>
    cases e with
    | file => cases place <;> rfl
    | dir inside =>
      cases place with
      | nil =>
        rw [erase, below?, lookup_filter_ne, if_pos rfl]
        rfl
      | cons m place =>
        rw [erase_cons_cons]
        cases hname : inside.lookup name with
        | none =>
          rw [Option.map_none, Option.getD_none, below?, hname]
          rfl
        | some e =>
          rw [Option.map_some, Option.getD_some, below?, Assoc.lookup_put, if_pos rfl]
          exact ih e (List.cons_ne_nil m place)

/-- **What is taken away changes nothing elsewhere.** -/
theorem sight_erase (e : FileEntry α) (hother : ¬ place <+: other) :
    sight ((erase place e).below? other) = sight (e.below? other) := by
  induction place generalizing e other with
  | nil => exact absurd List.nil_prefix hother
  | cons name place ih =>
    cases e with
    | file => cases place <;> rfl
    | dir inside =>
      cases other with
      | nil =>
        obtain ⟨inside', hdir⟩ := exists_erase_dir (name :: place) inside
        rw [hdir]
        rfl
      | cons n other =>
        cases place with
        | nil =>
          have hn : n ≠ name :=
            fun hn => hother (hn ▸ List.cons_prefix_cons.mpr ⟨rfl, List.nil_prefix⟩)
          rw [erase, below?, below?, lookup_filter_ne, if_neg hn]
        | cons m place =>
          rw [erase_cons_cons]
          cases hname : inside.lookup name with
          | none => rfl
          | some e =>
            rw [Option.map_some, Option.getD_some, below?, below?, Assoc.lookup_put]
            by_cases hn : n = name
            · subst hn
              rw [if_pos rfl, hname]
              exact ih e fun hprefix => hother (List.cons_prefix_cons.mpr ⟨rfl, hprefix⟩)
            · rw [if_neg hn]

end FileEntry

/-! ### Trees -/

namespace FileTree

variable {t : FileTree α} {p q names more : List String} {name : String} {d : α} {time : ℕ}

/-- **What is seen at a place.** -/
def seen (t : FileTree α) (p : List String) : Sight α :=
  FileEntry.sight (t.entry? p)

theorem seen_eq_directory_iff :
    t.seen p = .directory ↔ ∃ inside, t.entry? p = some (.dir inside) :=
  FileEntry.sight_eq_directory_iff

theorem seen_eq_file_iff : t.seen p = .file d time ↔ t.entry? p = some (.file d time) :=
  FileEntry.sight_eq_file_iff

theorem seen_eq_nothing_iff : t.seen p = .nothing ↔ t.entry? p = none :=
  FileEntry.sight_eq_nothing_iff

@[simp] theorem seen_nil (t : FileTree α) : t.seen [] = .directory := rfl

/-- **Below what is no directory there is nothing.** -/
theorem seen_append_eq_nothing (h : t.seen p ≠ .directory) (hmore : more ≠ []) :
    t.seen (p ++ more) = .nothing := by
  rw [seen_eq_nothing_iff, entry?, FileEntry.below?_append]
  cases hp : t.top.below? p with
  | none => rfl
  | some e =>
    cases e with
    | dir inside => exact absurd (seen_eq_directory_iff.mpr ⟨inside, hp⟩) h
    | file =>
      cases more with
      | nil => exact absurd rfl hmore
      | cons => rfl

/-- **Above what is there are directories.** -/
theorem seen_eq_directory_of_append (h : t.seen (p ++ more) ≠ .nothing) (hmore : more ≠ []) :
    t.seen p = .directory := by
  by_contra hp
  exact h (seen_append_eq_nothing hp hmore)

theorem top_put (t : FileTree α) (name : String) (names : List String) (e : FileEntry α) :
    (t.put (name :: names) e).top = e.put (name :: names) t.top := rfl

theorem top_erase (t : FileTree α) (place : List String) :
    (t.erase place).top = FileEntry.erase place t.top := by
  obtain ⟨inside, h⟩ := FileEntry.exists_erase_dir place t.inside
  have h : FileEntry.erase place t.top = .dir inside := h
  rw [erase, mapTop, h]
  rfl

/-- **Putting something below which there is nothing** changes one place. -/
theorem seen_put (hdir : t.seen names = .directory) (hfree : t.seen (names ++ [name]) ≠ .directory)
    {e : FileEntry α} (hleaf : ∀ more ≠ [], e.below? more = none) (p : List String) :
    (t.put (names ++ [name]) e).seen p =
      if p = names ++ [name] then FileEntry.sight (some e) else t.seen p := by
  obtain ⟨inside, hdir⟩ := seen_eq_directory_iff.mp hdir
  have htop : (t.put (names ++ [name]) e).top = e.put (names ++ [name]) t.top := by
    cases names <;> exact top_put ..
  rw [seen, entry?, htop]
  by_cases hp : names ++ [name] <+: p
  · obtain ⟨more, rfl⟩ := hp
    rw [FileEntry.below?_append, FileEntry.below?_put_self hdir, Option.bind_some]
    by_cases hmore : more = []
    · subst hmore
      rw [List.append_nil, if_pos rfl]
      cases e <;> rfl
    · rw [if_neg fun h => hmore (List.append_right_eq_self.mp h), hleaf more hmore,
        seen_append_eq_nothing hfree hmore]
      rfl
  · have hne : p ≠ names ++ [name] := fun h => hp (h ▸ List.prefix_rfl)
    rw [if_neg hne]
    exact FileEntry.sight_put e hdir hp

/-- **Taking away something below which there is nothing** changes one place. -/
theorem seen_erase (hq : q ≠ []) (hleaf : ∀ more ≠ [], t.seen (q ++ more) = .nothing)
    (p : List String) :
    (t.erase q).seen p = if p = q then .nothing else t.seen p := by
  rw [seen, entry?, top_erase]
  by_cases hp : q <+: p
  · obtain ⟨more, rfl⟩ := hp
    rw [FileEntry.below?_append, FileEntry.below?_erase_self _ hq]
    by_cases hmore : more = []
    · rw [hmore, List.append_nil, if_pos rfl]
      rfl
    · rw [if_neg fun h => hmore (List.append_right_eq_self.mp h), hleaf more hmore]
      rfl
  · have hne : p ≠ q := fun h => hp (h ▸ List.prefix_rfl)
    rw [if_neg hne]
    exact FileEntry.sight_erase _ hp

end FileTree

end Statuary
