import Statuary.Proofs.Files.Path

/-!
# The place of a path from the top

From the top of a tree steps upwards lead nowhere, so there a path stands for a list of plain names
(`Statuary.Path.place`). The shortest path to a place stands for the same one
(`Statuary.Path.place_clean`) and spells it out behind at most some detours
(`Statuary.Path.exists_segments_clean`).

An ending that is put behind a path is put behind **the last name of its place**, whatever detours
the path has (`Statuary.Path.exists_place_append`): with an ending the last name is no detour. So
paths with different endings have different places.
-/

namespace Statuary

namespace Path

/-- The place that a path stands for from the top. -/
def place (p : String) : List String :=
  resolve true (segments p)

/-! ### Places from the top -/

theorem isPlain_of_mem_place {p s : String} (h : s ∈ place p) : IsPlain s :=
  (exists_resolve_false _).2 s h

theorem notMem_of_mem_place {p s : String} (h : s ∈ place p) : '/' ∉ s.toList := by
  rcases mem_resolve h with rfl | ⟨h, -⟩
  · decide
  · exact notMem_of_mem_segments h

/-- A detour: a name that leads nowhere from the top. -/
def IsDetour (s : String) : Prop :=
  s = "" ∨ s = "." ∨ s = ".."

theorem resolve_true_detours {front : List String} (hfront : ∀ s ∈ front, IsDetour s)
    {plain : List String} (hplain : ∀ s ∈ plain, IsPlain s) :
    resolve true (front ++ plain) = plain := by
  have hskip : front.foldl (step true) [] = [] := by
    induction front with
    | nil => rfl
    | cons s front ih =>
      obtain ⟨hs, hfront⟩ := List.forall_mem_cons.mp hfront
      have hstep : step true [] s = [] := by
        rcases hs with rfl | rfl | rfl <;> rfl
      rw [List.foldl_cons, hstep, ih hfront]
  rw [resolve_append true front hplain, resolve, hskip]
  rfl

/-- One more name stands behind a place, or leads to it or to one above it. -/
theorem resolve_snoc_cases (front : List String) (s : String) :
    resolve true (front ++ [s]) = resolve true front ++ [s] ∨
      resolve true (front ++ [s]) <+: resolve true front := by
  by_cases hidle : IsIdle s
  · refine .inr ?_
    rw [resolve, List.foldl_append, List.foldl_cons, step_of_isIdle hidle]
    exact List.prefix_rfl
  by_cases hup : s = ".."
  · subst hup
    have hplain := (exists_resolve_false front).2
    refine .inr ?_
    rw [resolve] at hplain
    rw [resolve, List.foldl_append, List.foldl_cons, List.foldl_nil, resolve]
    cases hnames : front.foldl (step true) [] with
    | nil => exact List.nil_prefix
    | cons name names =>
      rw [hnames, List.reverse_cons] at hplain
      have hname : name ≠ ".." := (hplain name (by simp)).2.2
      have hstep : step true (name :: names) ".." = names := if_neg hname
      rw [hstep, List.reverse_cons]
      exact List.prefix_append ..
  · exact .inl (resolve_append true front
      (List.forall_mem_singleton.mpr (isPlain_of_not_isIdle hidle hup)))

/-! ### The names of the shortest path -/

/-- The names of the shortest path to where a path leads. -/
def names (p : String) : List String :=
  resolve (isRooted p) (segments p)

theorem clean_eq_build (p : String) : clean p = build (isRooted p) (names p) := rfl

/-- The shortest path has the names of the place, behind steps upwards if it is not rooted. -/
theorem exists_names (p : String) :
    ∃ k, names p = List.replicate k ".." ++ place p ∧ (isRooted p = true → k = 0) := by
  cases hrooted : isRooted p with
  | true => exact ⟨0, by rw [names, hrooted]; rfl, fun _ => rfl⟩
  | false =>
    obtain ⟨⟨k, hk⟩, -⟩ := exists_resolve_false (segments p)
    exact ⟨k, by rw [names, hrooted]; exact hk, nofun⟩

theorem resolve_true_names (p : String) : resolve true (names p) = place p := by
  obtain ⟨k, hk, -⟩ := exists_names p
  rw [hk]
  refine resolve_true_detours (fun s hs => ?_) fun s => isPlain_of_mem_place
  exact .inr (.inr (List.eq_of_mem_replicate hs))

theorem of_mem_names {p s : String} (h : s ∈ names p) :
    '/' ∉ s.toList ∧ s ≠ "" := by
  obtain ⟨k, hk, -⟩ := exists_names p
  rw [hk, List.mem_append] at h
  rcases h with h | h
  · rw [List.eq_of_mem_replicate h]
    decide
  · exact ⟨notMem_of_mem_place h, (isPlain_of_mem_place h).1⟩

/-- **A path that is put together** spells its names behind some that lead nowhere. -/
theorem exists_segments_build (rooted : Bool) {names : List String}
    (h : ∀ s ∈ names, '/' ∉ s.toList) :
    ∃ front, (∀ s ∈ front, IsIdle s) ∧ segments (build rooted names) = front ++ names := by
  cases rooted with
  | true =>
    cases names with
    | nil => exact ⟨["", ""], by decide, rfl⟩
    | cons s names =>
      have hbuild : build true (s :: names) = "/".intercalate ("" :: s :: names) := by
        rw [String.intercalate_cons_cons, build]
        simp
      refine ⟨[""], by decide, ?_⟩
      rw [hbuild, segments_intercalate (List.cons_ne_nil _ _)
        (List.forall_mem_cons.mpr ⟨by decide, h⟩)]
      rfl
  | false =>
    cases names with
    | nil => exact ⟨["."], by decide, rfl⟩
    | cons s names =>
      refine ⟨[], nofun, ?_⟩
      rw [build_cons, segments_intercalate (List.cons_ne_nil _ _) h]
      rfl

theorem place_build (rooted : Bool) {names : List String} (h : ∀ s ∈ names, '/' ∉ s.toList) :
    place (build rooted names) = resolve true names := by
  obtain ⟨front, hfront, hsegments⟩ := exists_segments_build rooted h
  rw [place, hsegments, resolve_of_isIdle hfront]

theorem isRooted_build (rooted : Bool) {names : List String}
    (h : ∀ s ∈ names, '/' ∉ s.toList ∧ s ≠ "") : isRooted (build rooted names) = rooted := by
  cases rooted with
  | true =>
    rw [build, isRooted, String.toList_append]
    rfl
  | false =>
    cases names with
    | nil => rfl
    | cons s names =>
      rw [build_cons]
      have hsegments := segments_intercalate (List.cons_ne_nil s names) fun t ht => (h t ht).1
      exact isRooted_of_segments hsegments (h s (List.mem_cons_self ..)).2

/-- **The names of a shortest path** have no detours. -/
theorem resolve_names (p : String) : resolve (isRooted p) (names p) = names p := by
  obtain ⟨k, hk, hrooted⟩ := exists_names p
  have hplain : ∀ s ∈ place p, IsPlain s := fun s => isPlain_of_mem_place
  have hup : resolve (isRooted p) (List.replicate k "..") = List.replicate k ".." := by
    cases hp : isRooted p with
    | true =>
      rw [hrooted hp]
      rfl
    | false =>
      -- steps upwards pile up where no name can be taken away
      have hrun : (List.replicate k "..").foldl (step false) [] = List.replicate k ".." := by
        clear hk hrooted
        induction k with
        | zero => rfl
        | succ k ih =>
          rw [List.replicate_succ', List.foldl_append, ih, ← List.replicate_succ']
          cases k <;> rfl
      rw [resolve, hrun, List.reverse_replicate]
  rw [hk, resolve_append _ _ hplain, hup]

theorem isRooted_clean (p : String) : isRooted (clean p) = isRooted p :=
  isRooted_build _ fun _ => of_mem_names

/-- **The shortest path** has the names of the path. -/
theorem names_clean (p : String) : names (clean p) = names p := by
  obtain ⟨front, hfront, hsegments⟩ :=
    exists_segments_build (isRooted p) fun s hs => (of_mem_names (p := p) hs).1
  rw [names, isRooted_clean, clean_eq_build, hsegments, resolve_of_isIdle hfront, resolve_names]

/-- **The shortest path to a place** has some detours in front and then the names of the place. -/
theorem exists_segments_clean (p : String) :
    ∃ front, (∀ s ∈ front, IsDetour s) ∧ segments (clean p) = front ++ place p := by
  obtain ⟨k, hk, -⟩ := exists_names p
  obtain ⟨front, hfront, hsegments⟩ :=
    exists_segments_build (isRooted p) fun s hs => (of_mem_names (p := p) hs).1
  refine ⟨front ++ List.replicate k "..", fun s hs => ?_, ?_⟩
  · rcases List.mem_append.mp hs with hs | hs
    · exact (hfront s hs).imp id .inl
    · exact .inr (.inr (List.eq_of_mem_replicate hs))
  · rw [clean_eq_build, hsegments, hk, List.append_assoc]

/-- **The shortest path stands for the same place.** -/
theorem place_clean (p : String) : place (clean p) = place p := by
  obtain ⟨front, hfront, hsegments⟩ := exists_segments_clean p
  rw [place, hsegments]
  exact resolve_true_detours hfront fun s => isPlain_of_mem_place

/-! ### Endings -/

theorem segments_ne_nil (p : String) : segments p ≠ [] :=
  fun h => splitOnChar_ne_nil '/' p.toList (List.map_eq_nil_iff.mp h)

theorem intercalate_segments (p : String) : "/".intercalate (segments p) = p :=
  segments_injective (segments_intercalate (segments_ne_nil p) fun _ => notMem_of_mem_segments)

/-- What is put behind a path is put behind its last name. -/
theorem exists_segments_append (p : String) {e : String} (he : '/' ∉ e.toList) :
    ∃ front s, segments p = front ++ [s] ∧ segments (p ++ e) = front ++ [s ++ e] := by
  obtain ⟨front, s, hfront⟩ :=
    (List.eq_nil_or_concat' (segments p)).resolve_left (segments_ne_nil p)
  have hslash : ∀ t ∈ front ++ [s], '/' ∉ t.toList := fun t ht =>
    notMem_of_mem_segments (hfront ▸ ht)
  refine ⟨front, s, hfront, ?_⟩
  rw [← intercalate_segments p, hfront, intercalate_snoc_append, segments_intercalate (by simp)]
  obtain ⟨hdirs, hs⟩ := List.forall_mem_append.mp hslash
  refine List.forall_mem_append.mpr ⟨hdirs, List.forall_mem_singleton.mpr ?_⟩
  rw [String.toList_append, List.mem_append]
  exact fun h => h.elim (List.forall_mem_singleton.mp hs) he

/-- **An ending is put behind the last name of a place.** -/
theorem exists_place_append (p : String) {e : String} (he : '/' ∉ e.toList)
    (hlength : 2 < e.length) : ∃ names s, place (p ++ e) = names ++ [s ++ e] := by
  obtain ⟨front, s, hfront, hsegments⟩ := exists_segments_append p he
  have hs : '/' ∉ s.toList :=
    notMem_of_mem_segments (hfront ▸ List.mem_append_right _ (List.mem_singleton_self s))
  refine ⟨resolve true front, s, ?_⟩
  rw [place, hsegments, resolve_append true front
    (List.forall_mem_singleton.mpr (isName_append hs he hlength).1)]

/-- The shortest path keeps an ending. -/
theorem exists_clean_append (p : String) {e : String} (he : '/' ∉ e.toList)
    (hlength : 2 < e.length) : ∃ q, clean (p ++ e) = q ++ e := by
  obtain ⟨front, s, hfront, hsegments⟩ := exists_segments_append p he
  have hs : '/' ∉ s.toList :=
    notMem_of_mem_segments (hfront ▸ List.mem_append_right _ (List.mem_singleton_self s))
  rw [clean, hsegments, resolve_append _ front
    (List.forall_mem_singleton.mpr (isName_append hs he hlength).1)]
  generalize resolve (isRooted (p ++ e)) front = names
  have hnames : "/".intercalate (names ++ [s ++ e]) = "/".intercalate (names ++ [s]) ++ e :=
    (intercalate_snoc_append names s e).symm
  cases isRooted (p ++ e) with
  | true =>
    exact ⟨"/" ++ "/".intercalate (names ++ [s]), by rw [build, hnames, String.append_assoc]⟩
  | false =>
    refine ⟨"/".intercalate (names ++ [s]), ?_⟩
    rw [← hnames]
    cases names <;> rfl

/-! ### The directory of a path -/

/-- The names up to the last slash of a path. -/
theorem eq_append_of_segments {p s : String} {front : List String} (h : segments p = front ++ [s])
    (hfront : front ≠ []) : p = "/".intercalate front ++ "/" ++ s := by
  have hslash : ∀ t ∈ front ++ [s], '/' ∉ t.toList := fun t ht => notMem_of_mem_segments (h ▸ ht)
  obtain ⟨hdirs, hs⟩ := List.forall_mem_append.mp hslash
  have hs : '/' ∉ s.toList := hs s (List.mem_singleton_self s)
  refine segments_injective ?_
  rw [segments_append, segments_intercalate hfront hdirs, segments_of_notMem hs, h]

/-- **The directory of a path** has the names of the path but the last. -/
theorem place_parent {p s : String} {front : List String} (h : segments p = front ++ [s]) :
    place (parent p) = resolve true front := by
  have hs : '/' ∉ s.toList :=
    notMem_of_mem_segments (h ▸ List.mem_append_right _ (List.mem_singleton_self s))
  have hskip : ∀ c ∈ s.toList.reverse, decide (c ≠ '/') = true := fun c hc =>
    decide_eq_true fun hc' => hs (hc' ▸ List.mem_reverse.mp hc)
  rw [parent, place_clean]
  by_cases hfront : front = []
  · subst hfront
    have hp : p = s := segments_injective (by rw [h, segments_of_notMem hs]; rfl)
    have hnone : p.toList.reverse.dropWhile (· ≠ '/') = [] := by
      rw [hp, ← List.append_nil s.toList.reverse, List.dropWhile_append_of_pos hskip]
      rfl
    rw [hnone]
    rfl
  · have hbefore : (p.toList.reverse.dropWhile (· ≠ '/')).reverse =
        ("/".intercalate front ++ "/" ++ "").toList := by
      have hlast : p.toList.reverse =
          s.toList.reverse ++ '/' :: ("/".intercalate front).toList.reverse := by
        rw [eq_append_of_segments h hfront]
        simp
      rw [hlast, List.dropWhile_append_of_pos hskip]
      simp
    have hdirs : ∀ t ∈ front, '/' ∉ t.toList := fun t ht =>
      notMem_of_mem_segments (h ▸ List.mem_append_left _ ht)
    rw [hbefore, String.ofList_toList, place, segments_append, segments_intercalate hfront hdirs,
      resolve, List.foldl_append]
    rfl

/-- The directory of a shortest path has the place of the path but the last name. -/
theorem place_parent_clean {p s : String} {names : List String} (h : place p = names ++ [s]) :
    place (parent (clean p)) = names := by
  obtain ⟨front, hfront, hsegments⟩ := exists_segments_clean p
  have hplain : ∀ t ∈ names ++ [s], IsPlain t := fun t ht => isPlain_of_mem_place (h ▸ ht)
  rw [h, ← List.append_assoc] at hsegments
  rw [place_parent hsegments, resolve_true_detours hfront (List.forall_mem_append.mp hplain).1]

/-! ### Paths of several parts -/

theorem segments_intercalate_paths {ps : List String} (h : ps ≠ []) :
    segments ("/".intercalate ps) = ps.flatMap segments := by
  induction ps with
  | nil => exact absurd rfl h
  | cons p ps ih =>
    cases ps with
    | nil => rw [String.intercalate_singleton, List.flatMap_singleton]
    | cons q ps =>
      rw [String.intercalate_cons_cons, segments_append, ih (List.cons_ne_nil _ _)]
      rfl

theorem join_eq_clean {ps : List String} (hne : ps ≠ []) (h : ∀ p ∈ ps, p ≠ "") :
    join ps = clean ("/".intercalate ps) := by
  have hfilter : ps.filter (· ≠ "") = ps :=
    List.filter_eq_self.mpr fun p hp => decide_eq_true (h p hp)
  rw [join, hfilter]
  cases ps with
  | nil => exact absurd rfl hne
  | cons => rfl

/-- A path of several parts is a shortest one if any part is not empty. -/
theorem exists_join_eq_clean {ps : List String} {p : String} (hp : p ∈ ps) (hne : p ≠ "") :
    ∃ q, join ps = clean q := by
  rw [join]
  split
  · rename_i hnil
    exact absurd (decide_eq_true hne) (List.filter_eq_nil_iff.mp hnil p hp)
  · exact ⟨_, rfl⟩

/-- A path of several parts ends as the last one does. -/
theorem exists_join_append (ps : List String) (s : String) {e : String} (he : '/' ∉ e.toList)
    (hlength : 2 < e.length) : ∃ q, join (ps ++ [s ++ e]) = q ++ e := by
  have hlast : s ++ e ≠ "" := by
    intro h
    rw [(String.append_eq_empty_iff.mp h).2] at hlength
    exact absurd hlength (by decide)
  have hfilter : (ps ++ [s ++ e]).filter (· ≠ "") = ps.filter (· ≠ "") ++ [s ++ e] := by
    have hone : [s ++ e].filter (· ≠ "") = [s ++ e] :=
      List.filter_eq_self.mpr (List.forall_mem_singleton.mpr (decide_eq_true hlast))
    rw [List.filter_append, hone]
  have hjoin : join (ps ++ [s ++ e]) =
      clean ("/".intercalate (ps.filter (· ≠ "") ++ [s]) ++ e) := by
    rw [intercalate_snoc_append, join, hfilter]
    split
    · rename_i hnil
      exact absurd hnil (by simp)
    · rfl
  rw [hjoin]
  exact exists_clean_append _ he hlength

/-- **The place of a path of several parts.** -/
theorem place_join {ps : List String} (hne : ps ≠ []) (h : ∀ p ∈ ps, p ≠ "") :
    place (join ps) = resolve true (ps.flatMap segments) := by
  rw [join_eq_clean hne h, place_clean, place, segments_intercalate_paths hne]

/-! ### Paths without detours -/

theorem IsClean.ne_empty {p : String} (h : IsClean p) : p ≠ "" := by
  rintro rfl
  exact absurd h (by decide)

theorem isClean_of_isName {s : String} (h : IsName s) : IsClean s := by
  rw [IsClean, segments_of_notMem h.2]
  exact List.forall_mem_singleton.mpr h.1

/-- A path without detours is the shortest one. -/
theorem IsClean.clean_eq {p : String} (h : IsClean p) : clean p = p := by
  obtain ⟨s, rest, hsegments⟩ := List.exists_cons_of_ne_nil (segments_ne_nil p)
  have hs : IsPlain s := h s (hsegments ▸ List.mem_cons_self ..)
  have hresolve : resolve false (segments p) = segments p := resolve_append false [] h
  rw [clean, isRooted_of_segments hsegments hs.1, hresolve, hsegments, build_cons, ← hsegments,
    intercalate_segments]

theorem isClean_intercalate {ps : List String} (hne : ps ≠ []) (h : ∀ p ∈ ps, IsClean p) :
    IsClean ("/".intercalate ps) := by
  rw [IsClean, segments_intercalate_paths hne]
  intro s hs
  obtain ⟨p, hp, hs⟩ := List.mem_flatMap.mp hs
  exact h p hp s hs

/-- Parts without detours are joined as they are. -/
theorem join_of_isClean {ps : List String} (hne : ps ≠ []) (h : ∀ p ∈ ps, IsClean p) :
    join ps = "/".intercalate ps := by
  rw [join_eq_clean hne fun p hp => (h p hp).ne_empty, (isClean_intercalate hne h).clean_eq]

end Path

end Statuary
