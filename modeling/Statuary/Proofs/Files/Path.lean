import Mathlib.Data.List.Basic
import Statuary.Files.Path
import Statuary.Proofs.Text.Split

/-!
# Where a path leads

The names of a path, detours removed, are the place it leads to, and the shortest path to a place
spells these names and no others: **two places have the same shortest path only if they are the
same** (`Statuary.Path.build_injective`). Plain names, those that are no detour, can be added at the
end of a place one by one (`Statuary.Path.resolve_append`), whatever detours came before them.
-/

namespace Statuary

namespace Path

/-! ### The names of a path -/

theorem segments_injective {a b : String} (h : segments a = segments b) : a = b :=
  cutAt_injective h

theorem segments_append (a b : String) : segments (a ++ "/" ++ b) = segments a ++ segments b :=
  cutAt_append '/' a b

theorem segments_of_notMem {s : String} (h : '/' ∉ s.toList) : segments s = [s] :=
  cutAt_of_notMem h

theorem notMem_of_mem_segments {p s : String} (h : s ∈ segments p) : '/' ∉ s.toList :=
  notMem_of_mem_cutAt h

theorem segments_intercalate {names : List String} (hne : names ≠ [])
    (h : ∀ s ∈ names, '/' ∉ s.toList) : segments ("/".intercalate names) = names :=
  cutAt_intercalate hne h

/-- A path that begins with a slash has an empty name in front. -/
theorem isRooted_of_segments {p s : String} {rest : List String} (h : segments p = s :: rest)
    (hs : s ≠ "") : isRooted p = false := by
  rw [isRooted, beq_eq_false_iff_ne]
  intro hhead
  obtain ⟨cs, hcs⟩ := List.head?_eq_some_iff.mp hhead
  rw [segments, hcs, splitOnChar, if_pos rfl, List.map_cons] at h
  exact hs (List.cons.inj h).1.symm

/-- The names of a path of paths are the names of its parts. -/
theorem mem_segments_intercalate {names : List String} {s t : String} (hs : s ∈ names)
    (ht : t ∈ segments s) : t ∈ segments ("/".intercalate names) := by
  induction names with
  | nil => exact absurd hs List.not_mem_nil
  | cons u names ih =>
    cases names with
    | nil =>
      rw [List.mem_singleton.mp hs] at ht
      rwa [String.intercalate_singleton]
    | cons v names =>
      rw [String.intercalate_cons_cons, segments_append, List.mem_append]
      rcases List.mem_cons.mp hs with rfl | hs
      · exact .inl ht
      · exact .inr (ih hs)

/-! ### Places -/

/-- A name that is no detour. -/
def IsPlain (s : String) : Prop :=
  s ≠ "" ∧ s ≠ "." ∧ s ≠ ".."

instance : DecidablePred IsPlain :=
  fun s => inferInstanceAs (Decidable (s ≠ "" ∧ s ≠ "." ∧ s ≠ ".."))

/-- A path without detours. -/
def IsClean (p : String) : Prop :=
  ∀ s ∈ segments p, IsPlain s

instance : DecidablePred IsClean :=
  fun p => inferInstanceAs (Decidable (∀ s ∈ segments p, IsPlain s))

/-- A name that leads nowhere. -/
def IsIdle (s : String) : Prop :=
  s = "" ∨ s = "."

instance : DecidablePred IsIdle :=
  fun s => inferInstanceAs (Decidable (s = "" ∨ s = "."))

theorem IsPlain.not_isIdle {s : String} (h : IsPlain s) : ¬ IsIdle s :=
  not_or.mpr ⟨h.1, h.2.1⟩

theorem isPlain_of_not_isIdle {s : String} (h : ¬ IsIdle s) (hup : s ≠ "..") : IsPlain s :=
  ⟨(not_or.mp h).1, (not_or.mp h).2, hup⟩

theorem step_of_isPlain {s : String} (h : IsPlain s) (rooted : Bool) (names : List String) :
    step rooted names s = s :: names := by
  have hidle : ¬ (s = "" ∨ s = ".") := h.not_isIdle
  rw [step.eq_def, if_neg hidle, if_neg h.2.2]

theorem step_of_isIdle {s : String} (h : IsIdle s) (rooted : Bool) (names : List String) :
    step rooted names s = names := by
  rw [step.eq_def]
  exact if_pos h

/-- **Names without a step upwards** add the plain ones among them to a place. -/
theorem resolve_append_of_notMem (rooted : Bool) (names : List String) {more : List String}
    (h : ".." ∉ more) : resolve rooted (names ++ more) =
      resolve rooted names ++ more.filter fun s => decide (IsPlain s) := by
  have hrun : ∀ st : List String, more.foldl (step rooted) st =
      (more.filter fun s => decide (IsPlain s)).reverse ++ st := by
    induction more with
    | nil => exact fun st => rfl
    | cons s more ih =>
      intro st
      rw [List.mem_cons, not_or] at h
      rw [List.foldl_cons]
      by_cases hs : IsIdle s
      · rw [step_of_isIdle hs, ih h.2,
          List.filter_cons_of_neg (by simpa using fun hplain => IsPlain.not_isIdle hplain hs)]
      · have hplain := isPlain_of_not_isIdle hs (Ne.symm h.1)
        rw [step_of_isPlain hplain, ih h.2, List.filter_cons_of_pos (by simpa using hplain),
          List.reverse_cons, List.append_assoc, List.singleton_append]
  rw [resolve, List.foldl_append, hrun, List.reverse_append, List.reverse_reverse, resolve]

/-- Plain names are added to a place as they are. -/
theorem resolve_append (rooted : Bool) (names : List String) {more : List String}
    (h : ∀ s ∈ more, IsPlain s) :
    resolve rooted (names ++ more) = resolve rooted names ++ more := by
  rw [resolve_append_of_notMem rooted names fun hup => (h _ hup).2.2 rfl,
    List.filter_eq_self.mpr fun s hs => decide_eq_true (h s hs)]

/-- Names that lead nowhere can be left out in front. -/
theorem resolve_of_isIdle {front : List String} (hfront : ∀ s ∈ front, IsIdle s) (rooted : Bool)
    (names : List String) : resolve rooted (front ++ names) = resolve rooted names := by
  have hskip : front.foldl (step rooted) [] = [] := by
    induction front with
    | nil => rfl
    | cons s front ih =>
      obtain ⟨hs, hfront⟩ := List.forall_mem_cons.mp hfront
      rw [List.foldl_cons, step_of_isIdle hs, ih hfront]
  rw [resolve, List.foldl_append, hskip, resolve]

theorem mem_step {rooted : Bool} {names : List String} {s t : String}
    (h : t ∈ step rooted names s) :
    t ∈ names ∨ t = ".." ∨ t = s ∧ s ≠ "." := by
  by_cases hskip : s = "" ∨ s = "."
  · rw [step.eq_def, if_pos hskip] at h
    exact .inl h
  by_cases hup : s = ".."
  · rw [step.eq_def, if_neg hskip, if_pos hup] at h
    split at h
    · split_ifs at h
      · exact absurd h List.not_mem_nil
      · exact .inr (.inl (List.mem_singleton.mp h))
    · split_ifs at h
      · exact (List.mem_cons.mp h).elim (fun h => .inr (.inl h)) .inl
      · exact .inl (List.mem_cons_of_mem _ h)
  · rw [step.eq_def, if_neg hskip, if_neg hup] at h
    rcases List.mem_cons.mp h with rfl | h
    · exact .inr (.inr ⟨rfl, fun he => hskip (.inr he)⟩)
    · exact .inl h

/-- What is in a place is a name of the path, or leads upwards. -/
theorem mem_resolve {rooted : Bool} {names : List String} {t : String}
    (h : t ∈ resolve rooted names) : t = ".." ∨ t ∈ names ∧ t ≠ "." := by
  have hrun : ∀ st : List String, t ∈ names.foldl (step rooted) st →
      t ∈ st ∨ t = ".." ∨ t ∈ names ∧ t ≠ "." := by
    clear h
    induction names with
    | nil => exact fun st h => .inl h
    | cons s names ih =>
      intro st h
      rcases ih _ h with h | h | ⟨h, hne⟩
      · rcases mem_step h with h | h | ⟨rfl, hne⟩
        · exact .inl h
        · exact .inr (.inl h)
        · exact .inr (.inr ⟨List.mem_cons_self .., hne⟩)
      · exact .inr (.inl h)
      · exact .inr (.inr ⟨List.mem_cons_of_mem _ h, hne⟩)
  rw [resolve, List.mem_reverse] at h
  exact (hrun [] h).resolve_left List.not_mem_nil

theorem build_cons (s : String) (names : List String) :
    build false (s :: names) = "/".intercalate (s :: names) := rfl

theorem build_injective {a b : List String} (ha : ∀ s ∈ a, '/' ∉ s.toList ∧ s ≠ ".")
    (hb : ∀ s ∈ b, '/' ∉ s.toList ∧ s ≠ ".") (h : build false a = build false b) : a = b := by
  cases a with
  | nil =>
    cases b with
    | nil => rfl
    | cons t b =>
      have hsegs := congrArg segments h
      rw [build_cons, segments_intercalate (List.cons_ne_nil _ _) fun s hs => (hb s hs).1] at hsegs
      exact absurd (List.cons.inj hsegs).1.symm (hb t (List.mem_cons_self ..)).2
  | cons s a =>
    have hsegs := congrArg segments h
    cases b with
    | nil =>
      rw [build_cons, segments_intercalate (List.cons_ne_nil _ _) fun s hs => (ha s hs).1] at hsegs
      exact absurd (List.cons.inj hsegs).1 (ha s (List.mem_cons_self ..)).2
    | cons t b =>
      rwa [build_cons, build_cons,
        segments_intercalate (List.cons_ne_nil _ _) fun s hs => (ha s hs).1,
        segments_intercalate (List.cons_ne_nil _ _) fun s hs => (hb s hs).1] at hsegs

/-! ### What a place looks like -/

theorem step_true_replicate {plain : List String} (hplain : ∀ t ∈ plain, IsPlain t) (k : ℕ)
    (s : String) : ∃ k', step false (plain ++ List.replicate k "..") s =
      step true plain s ++ List.replicate k' ".." ∧ ∀ t ∈ step true plain s, IsPlain t := by
  by_cases hskip : s = "" ∨ s = "."
  · rw [step.eq_def, step.eq_def, if_pos hskip, if_pos hskip]
    exact ⟨k, rfl, hplain⟩
  by_cases hup : s = ".."
  · rw [step.eq_def, step.eq_def, if_neg hskip, if_neg hskip, if_pos hup, if_pos hup]
    cases plain with
    | nil =>
      refine ⟨k + 1, ?_, hplain⟩
      cases k <;> rfl
    | cons t plain =>
      obtain ⟨ht, hplain⟩ := List.forall_mem_cons.mp hplain
      rw [List.cons_append]
      dsimp only
      rw [if_neg ht.2.2, if_neg ht.2.2]
      exact ⟨k, rfl, hplain⟩
  · rw [step.eq_def, step.eq_def, if_neg hskip, if_neg hskip, if_neg hup, if_neg hup]
    exact ⟨k, rfl, List.forall_mem_cons.mpr
      ⟨⟨fun h => hskip (.inl h), fun h => hskip (.inr h), hup⟩, hplain⟩⟩

/-- A place is some steps upwards and then the place from the top. -/
theorem exists_resolve_false (names : List String) :
    (∃ k, resolve false names = List.replicate k ".." ++ resolve true names) ∧
      ∀ s ∈ resolve true names, IsPlain s := by
  have hrun : ∀ k plain, (∀ t ∈ plain, IsPlain t) →
      (∃ k', names.foldl (step false) (plain ++ List.replicate k "..") =
        names.foldl (step true) plain ++ List.replicate k' "..") ∧
      ∀ t ∈ names.foldl (step true) plain, IsPlain t := by
    induction names with
    | nil => exact fun k plain h => ⟨⟨k, rfl⟩, h⟩
    | cons s names ih =>
      intro k plain hplain
      obtain ⟨k', hs, hplain'⟩ := step_true_replicate hplain k s
      rw [List.foldl_cons, hs, List.foldl_cons]
      exact ih k' _ hplain'
  obtain ⟨⟨k, hk⟩, hplain⟩ := hrun 0 [] fun _ h => absurd h List.not_mem_nil
  refine ⟨⟨k, ?_⟩, fun s hs => hplain s (List.mem_reverse.mp hs)⟩
  have hk : names.foldl (step false) [] =
      names.foldl (step true) [] ++ List.replicate k ".." := hk
  rw [resolve, hk, List.reverse_append, List.reverse_replicate, resolve]

/-- The shortest path to a place has no detours if it does not begin with one. -/
theorem isClean_of_build {names rest : List String} {p s : String}
    (hnames : ∀ t ∈ names, '/' ∉ t.toList) (h : build false (resolve false names) = p)
    (hsegments : segments p = s :: rest) (hs : IsPlain s) : IsClean p := by
  obtain ⟨⟨k, hplace⟩, hplain⟩ := exists_resolve_false names
  have hslash : ∀ t ∈ resolve false names, '/' ∉ t.toList := by
    intro t ht
    rcases mem_resolve ht with rfl | ⟨ht, -⟩
    · decide
    · exact hnames t ht
  subst h
  generalize resolve false names = place at hplace hslash hsegments ⊢
  cases place with
  | nil =>
    have hdot : segments (build false []) = ["."] := rfl
    rw [hdot] at hsegments
    exact absurd (List.cons.inj hsegments).1.symm hs.2.1
  | cons t ts =>
    rw [build_cons, segments_intercalate (List.cons_ne_nil _ _) hslash] at hsegments
    obtain ⟨rfl, -⟩ := List.cons.inj hsegments
    rw [IsClean, build_cons, segments_intercalate (List.cons_ne_nil _ _) hslash, hplace]
    -- a step upwards would stand in front
    cases k with
    | zero => simpa using hplain
    | succ k =>
      rw [List.replicate_succ, List.cons_append] at hplace
      exact absurd (List.cons.inj hplace).1 hs.2.2

/-! ### Single names -/

/-- **A single name**: no detour, and not several names. -/
def IsName (s : String) : Prop :=
  IsPlain s ∧ '/' ∉ s.toList

instance : DecidablePred IsName :=
  fun s => inferInstanceAs (Decidable (IsPlain s ∧ '/' ∉ s.toList))

/-- A name stays a name with an ending. -/
theorem isName_append {s e : String} (hs : '/' ∉ s.toList) (he : '/' ∉ e.toList)
    (hlength : 2 < e.length) : IsName (s ++ e) := by
  have hlong : 2 < (s ++ e).length := by
    rw [String.length_append]
    omega
  refine ⟨⟨?_, ?_, ?_⟩, ?_⟩
  · exact fun h => absurd (h ▸ hlong) (by decide)
  · exact fun h => absurd (h ▸ hlong) (by decide)
  · exact fun h => absurd (h ▸ hlong) (by decide)
  · rw [String.toList_append, List.mem_append]
    exact fun h => h.elim hs he

/-- **A location**: at least one name, and all are single names. -/
structure IsLocation (names : List String) : Prop where
  ne_nil : names ≠ []
  isName : ∀ s ∈ names, IsName s

/-- What is put behind a path is put behind its last name. -/
theorem intercalate_snoc_append (dirs : List String) (name e : String) :
    "/".intercalate (dirs ++ [name]) ++ e = "/".intercalate (dirs ++ [name ++ e]) := by
  induction dirs with
  | nil => rw [List.nil_append, List.nil_append, String.intercalate_singleton,
      String.intercalate_singleton]
  | cons d dirs ih =>
    cases dirs with
    | nil =>
      simp only [List.cons_append, List.nil_append, String.intercalate_cons_cons,
        String.intercalate_singleton, String.append_assoc]
    | cons d' dirs =>
      simp only [List.cons_append, String.intercalate_cons_cons, String.append_assoc] at ih ⊢
      rw [ih]

namespace IsLocation

variable {names names' front : List String} {e : String}

theorem slash_notMem (h : IsLocation names) : ∀ s ∈ names, '/' ∉ s.toList :=
  fun s hs => (h.isName s hs).2

theorem append_left (hfront : ∀ s ∈ front, IsName s) (h : IsLocation names) :
    IsLocation (front ++ names) :=
  ⟨List.append_ne_nil_of_right_ne_nil _ h.ne_nil, List.forall_mem_append.mpr ⟨hfront, h.isName⟩⟩

/-- The names of a location are joined as they are. -/
theorem join_eq (h : IsLocation names) : join names = "/".intercalate names := by
  have hfilter : names.filter (· ≠ "") = names := by
    rw [List.filter_eq_self]
    exact fun s hs => decide_eq_true (h.isName s hs).1.1
  have hsegments := segments_intercalate h.ne_nil h.slash_notMem
  have hresolve : resolve false names = names :=
    resolve_append false [] fun s hs => (h.isName s hs).1
  rw [join, hfilter]
  cases names with
  | nil => exact absurd rfl h.ne_nil
  | cons s names =>
    dsimp only
    rw [clean, isRooted_of_segments hsegments (h.isName s (List.mem_cons_self ..)).1.1, hsegments,
      hresolve, build_cons]

/-- Different locations below a directory have different paths, also with an ending behind them. -/
theorem eq_of_intercalate_append (hfront : ∀ s ∈ front, IsName s) (h : IsLocation names)
    (h' : IsLocation names')
    (he : "/".intercalate (front ++ names) ++ e = "/".intercalate (front ++ names') ++ e) :
    names = names' := by
  have hplace := h.append_left hfront
  have hplace' := h'.append_left hfront
  have hsegments := congrArg segments (String.append_left_inj e |>.mp he)
  rw [segments_intercalate hplace.ne_nil hplace.slash_notMem,
    segments_intercalate hplace'.ne_nil hplace'.slash_notMem] at hsegments
  exact List.append_cancel_left hsegments

/-- An ending changes the last name only. -/
theorem prefix_segments (hfront : ∀ s ∈ front, IsName s) (h : IsLocation names)
    (hend : '/' ∉ e.toList) :
    front <+: segments ("/".intercalate (front ++ names) ++ e) := by
  obtain ⟨dirs, name, rfl⟩ := (List.eq_nil_or_concat' names).resolve_left h.ne_nil
  obtain ⟨hdirs, hname⟩ := List.forall_mem_append.mp h.slash_notMem
  have hlast : '/' ∉ (name ++ e).toList := by
    rw [String.toList_append, List.mem_append]
    exact fun hmem => hmem.elim (List.forall_mem_singleton.mp hname) hend
  rw [← List.append_assoc, intercalate_snoc_append, segments_intercalate, List.append_assoc]
  · exact List.prefix_append ..
  · exact List.append_ne_nil_of_right_ne_nil _ (List.cons_ne_nil _ _)
  · exact List.forall_mem_append.mpr ⟨List.forall_mem_append.mpr
      ⟨fun s hs => (hfront s hs).2, hdirs⟩, List.forall_mem_singleton.mpr hlast⟩

end IsLocation

end Path

end Statuary
