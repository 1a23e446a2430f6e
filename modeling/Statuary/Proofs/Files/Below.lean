import Statuary.Proofs.Files.Place

/-!
# Below a directory

A path is strictly below a directory if its shortest form goes on, by at least one plain name, where
that of the directory ends (`Statuary.Path.IsBelow`). That both begin at the same place has to be
said too: a path of steps upwards alone begins with the names of `.`, of which there are none, and
is not below it.

A path that is put behind a directory lies below it by its plain names, provided it is not rooted
and **none of its names is a step upwards** (`Statuary.Path.liesAt_join`). Names that lead nowhere
are dropped on the way, so a path of these alone is the directory itself.
-/

namespace Statuary

namespace Path

variable {dir p : String} {more more' : List String}

/-- **A path lies at plain names** below a directory. -/
structure LiesAt (dir : String) (more : List String) (p : String) : Prop where
  isRooted_eq : isRooted p = isRooted dir
  names_eq : names p = names dir ++ more
  isPlain : ∀ s ∈ more, IsPlain s

/-- **A path is strictly below a directory.** -/
def IsBelow (dir p : String) : Prop :=
  ∃ more, more ≠ [] ∧ LiesAt dir more p

theorem LiesAt.unique (h : LiesAt dir more p) (h' : LiesAt dir more' p) : more = more' :=
  List.append_cancel_left (h.names_eq.symm.trans h'.names_eq)

theorem LiesAt.isBelow_iff (h : LiesAt dir more p) : IsBelow dir p ↔ more ≠ [] :=
  ⟨fun ⟨_, hne, h'⟩ => h'.unique h ▸ hne, fun hne => ⟨more, hne, h⟩⟩

/-- **What lies below a directory** is in a tree below the place of the directory. -/
theorem LiesAt.place_eq (h : LiesAt dir more p) : place p = place dir ++ more := by
  rw [← resolve_true_names p, h.names_eq, resolve_append true _ h.isPlain, resolve_true_names]

/-! ### Paths of several parts -/

theorem isRooted_append {a : String} (ha : a ≠ "") (b : String) :
    isRooted (a ++ b) = isRooted a := by
  have hchars : a.toList ≠ [] := fun hnil => ha (String.toList_eq_nil_iff.mp hnil)
  rw [isRooted, isRooted, String.toList_append, List.head?_append_of_ne_nil _ hchars]

theorem isRooted_intercalate {p : String} (hp : p ≠ "") (ps : List String) :
    isRooted ("/".intercalate (p :: ps)) = isRooted p := by
  cases ps with
  | nil => rw [String.intercalate_singleton]
  | cons q ps => rw [String.intercalate_cons_cons, String.append_assoc, isRooted_append hp]

/-- **The names of a path of several parts** are found one part after another, whichever directory
stands in front. -/
theorem names_join (dir p : String) (ps : List String) (hne : ∀ q ∈ p :: ps, q ≠ "")
    (hrooted : isRooted p = false) : isRooted (join (dir :: p :: ps)) = isRooted dir ∧
      names (join (dir :: p :: ps)) =
        resolve (isRooted dir) (segments dir ++ (p :: ps).flatMap segments) := by
  have hp : p ≠ "" := hne p (List.mem_cons_self ..)
  by_cases hdir : dir = ""
  · -- an empty directory is left out, and stands for the one that paths begin at
    subst hdir
    have hjoin : join ("" :: p :: ps) = clean ("/".intercalate (p :: ps)) :=
      join_eq_clean (List.cons_ne_nil p ps) hne
    rw [hjoin, isRooted_clean, names_clean, names, isRooted_intercalate hp, hrooted,
      segments_intercalate_paths (List.cons_ne_nil _ _)]
    have hidle : ∀ s ∈ segments "", IsIdle s := by decide
    exact ⟨rfl, (resolve_of_isIdle hidle false _).symm⟩
  · have hjoin : join (dir :: p :: ps) = clean ("/".intercalate (dir :: p :: ps)) :=
      join_eq_clean (List.cons_ne_nil _ _) (List.forall_mem_cons.mpr ⟨hdir, hne⟩)
    rw [hjoin, isRooted_clean, names_clean, names, isRooted_intercalate hdir,
      segments_intercalate_paths (List.cons_ne_nil _ _), List.flatMap_cons]
    exact ⟨rfl, rfl⟩

/-- **Parts without a step upwards** lie below the directory before them, at their plain names. -/
theorem liesAt_join (dir p : String) (ps : List String) (hne : ∀ q ∈ p :: ps, q ≠ "")
    (hrooted : isRooted p = false) (hup : ".." ∉ (p :: ps).flatMap segments) :
    LiesAt dir (((p :: ps).flatMap segments).filter fun s => decide (IsPlain s))
      (join (dir :: p :: ps)) := by
  obtain ⟨hroot, hnames⟩ := names_join dir p ps hne hrooted
  refine ⟨hroot, ?_, fun s hs => of_decide_eq_true (List.mem_filter.mp hs).2⟩
  rw [hnames, resolve_append_of_notMem _ _ hup, names]

/-! ### Above a directory -/

/-- **A step upwards** takes the last name away. Where there is none, it leads nowhere from the root
and stands behind the other steps upwards elsewhere. -/
theorem resolve_upward (p : String) : resolve (isRooted p) (segments p ++ [".."]) =
    if place p = [] then if isRooted p then [] else names p ++ [".."] else (names p).dropLast := by
  obtain ⟨k, hnames, hrooted⟩ := exists_names p
  have hstep : resolve (isRooted p) (segments p ++ [".."]) =
      (step (isRooted p) (names p).reverse "..").reverse := by
    rw [names, resolve, resolve, List.foldl_append, List.reverse_reverse]
    rfl
  rw [hstep]
  rcases List.eq_nil_or_concat' (place p) with hnil | ⟨above, last, hlast⟩
  · rw [hnil, List.append_nil] at hnames
    rw [if_pos hnil, hnames]
    cases hroot : isRooted p with
    | true =>
      rw [hrooted hroot]
      rfl
    | false =>
      have hup : step false (List.replicate k "..") ".." = List.replicate (k + 1) ".." := by
        cases k <;> rfl
      rw [List.reverse_replicate, hup, List.reverse_replicate, List.replicate_succ']
      rfl
  · have hplain : IsPlain last := isPlain_of_mem_place (by rw [hlast]; simp)
    have hsome : place p ≠ [] := by simp [hlast]
    have htail : step (isRooted p) (last :: (List.replicate k ".." ++ above).reverse) ".." =
        (List.replicate k ".." ++ above).reverse := if_neg hplain.2.2
    rw [if_neg hsome, hnames, hlast, ← List.append_assoc, List.reverse_concat, htail,
      List.reverse_reverse, List.dropLast_concat]

end Path

end Statuary
