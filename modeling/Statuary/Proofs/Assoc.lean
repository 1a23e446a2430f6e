import Mathlib.Data.List.Induction
import Mathlib.Data.List.Nodup
import Statuary.Assoc

/-!
# Insertion-ordered maps keep their names apart

A list of pairs is a map when its names are distinct. Writing keeps them distinct, and a list of
pairs whose names are distinct already **is** the map that is made of it
(`Statuary.Assoc.ofList_of_nodup`); of a name that stands there more than once the first place and
the last value count (`Statuary.Assoc.mapOf_iff`). What stands in a map afterwards was written or
was there before (`Statuary.Assoc.mem_put`), so a property of all values survives every writing of a
value that has it.
-/

namespace Statuary.Assoc

variable {α β : Type} [DecidableEq α]

theorem put_of_notMem {k : α} (v : β) {es : List (α × β)} (h : k ∉ keys es) :
    put k v es = es ++ [(k, v)] := by
  induction es with
  | nil => rfl
  | cons e es ih =>
    obtain ⟨hne, hk⟩ := List.ne_and_not_mem_of_not_mem_cons h
    rw [put, if_neg (Ne.symm hne), ih hk, List.cons_append]

/-- A name other than that of an entry is written before the entry if it stands there, and behind it
otherwise. -/
theorem put_append_cons {k : α} (v : β) {e : α × β} (h : e.1 ≠ k) (a b : List (α × β)) :
    put k v (a ++ e :: b) = if k ∈ keys a then put k v a ++ e :: b else a ++ e :: put k v b := by
  induction a with
  | nil =>
    rw [if_neg (show k ∉ keys [] from List.not_mem_nil)]
    exact if_neg h
  | cons d a ih =>
    rw [List.cons_append, put, put, ih]
    by_cases hd : d.1 = k
    · rw [if_pos hd, if_pos hd, if_pos (show k ∈ keys (d :: a) from hd ▸ List.mem_cons_self ..),
        List.cons_append]
    · have hiff : k ∈ keys (d :: a) ↔ k ∈ keys a := by
        rw [keys, List.map_cons, List.mem_cons]
        exact ⟨fun hk => hk.resolve_left (Ne.symm hd), .inr⟩
      rw [if_neg hd, if_neg hd, apply_ite (List.cons d)]
      simp only [hiff, List.cons_append]

/-- The value of an entry is replaced where it stands. -/
theorem put_append_self {k : α} (v w : β) {a : List (α × β)} (h : k ∉ keys a)
    (b : List (α × β)) : put k v (a ++ (k, w) :: b) = a ++ (k, v) :: b := by
  induction a with
  | nil => rw [List.nil_append, put, if_pos rfl, List.nil_append]
  | cons d a ih =>
    obtain ⟨hne, hk⟩ := List.ne_and_not_mem_of_not_mem_cons h
    rw [List.cons_append, put, if_neg (Ne.symm hne), ih hk, List.cons_append]

/-- Writing what stands there already changes nothing. -/
theorem put_self {k : α} {v : β} {es : List (α × β)} (h : es.lookup k = some v) :
    put k v es = es := by
  obtain ⟨before, after, rfl, hbefore⟩ := List.lookup_eq_some_iff.mp h
  refine put_append_self v v (fun hmem => ?_) after
  obtain ⟨e, he, rfl⟩ := List.mem_map.mp hmem
  simpa using hbefore e he

theorem nodup_keys_put (k : α) (v : β) {es : List (α × β)} (h : (keys es).Nodup) :
    (keys (put k v es)).Nodup := by
  rw [keys_put]
  split_ifs with hk
  · exact h
  · rw [List.nodup_append]
    refine ⟨h, List.nodup_singleton k, fun j hj i hi => ?_⟩
    rw [List.mem_singleton] at hi
    rintro rfl
    exact hk (hi ▸ hj)

theorem mem_put {k : α} {v : β} {es : List (α × β)} {e : α × β} (h : e ∈ put k v es) :
    e = (k, v) ∨ e ∈ es := by
  induction es with
  | nil => exact .inl (List.mem_singleton.mp h)
  | cons d es ih =>
    rw [put] at h
    split_ifs at h with hd
    · rcases List.mem_cons.mp h with rfl | h
      · exact .inl rfl
      · exact .inr (List.mem_cons_of_mem _ h)
    · rcases List.mem_cons.mp h with rfl | h
      · exact .inr (List.mem_cons_self ..)
      · exact (ih h).imp id (List.mem_cons_of_mem _)

omit [DecidableEq α] in
/-- No entry before another one has its name. -/
theorem ne_of_nodup_append {e : α × β} {before after : List (α × β)}
    (h : (keys (before ++ e :: after)).Nodup) {d : α × β} (hd : d ∈ before) : d.1 ≠ e.1 := by
  rw [keys, List.map_append, List.map_cons, List.nodup_append] at h
  exact h.2.2 d.1 (List.mem_map_of_mem hd) e.1 (List.mem_cons_self ..)

/-- In a map, the value that stands under a name is the one that is found. -/
theorem lookup_of_mem {k : α} {v : β} {es : List (α × β)} (h : (keys es).Nodup)
    (hmem : (k, v) ∈ es) : es.lookup k = some v := by
  induction es with
  | nil => cases hmem
  | cons e es ih =>
    obtain ⟨hnew, hnodup⟩ := List.nodup_cons.mp h
    rcases List.mem_cons.mp hmem with rfl | hmem
    · exact List.lookup_cons_self
    · have hne : k ≠ e.1 := fun he => hnew (List.mem_map.mpr ⟨(k, v), hmem, he⟩)
      rw [List.lookup_cons, beq_eq_false_iff_ne.mpr hne]
      exact ih hnodup hmem

theorem mem_of_lookup {k : α} {v : β} {es : List (α × β)} (h : es.lookup k = some v) :
    (k, v) ∈ es := by
  obtain ⟨before, after, rfl, -⟩ := List.lookup_eq_some_iff.mp h
  simp

/-- In a map, what stands under a name does not depend on the order. -/
theorem lookup_of_perm {es fs : List (α × β)} (h : (keys es).Nodup) (hperm : es.Perm fs) (k : α) :
    es.lookup k = fs.lookup k := by
  have hfs : (keys fs).Nodup := (hperm.map Prod.fst).nodup_iff.mp h
  refine Option.ext fun v => ⟨fun hv => ?_, fun hv => ?_⟩
  · exact lookup_of_mem hfs (hperm.mem_iff.mp (mem_of_lookup hv))
  · exact lookup_of_mem h (hperm.mem_iff.mpr (mem_of_lookup hv))

theorem isSome_lookup_iff {k : α} {es : List (α × β)} : (es.lookup k).isSome ↔ k ∈ keys es := by
  constructor
  · intro h
    obtain ⟨v, hv⟩ := Option.isSome_iff_exists.mp h
    exact List.mem_map.mpr ⟨(k, v), mem_of_lookup hv, rfl⟩
  · intro h
    obtain ⟨e, he, rfl⟩ := List.mem_map.mp h
    rw [Option.isSome_iff_ne_none, Ne, List.lookup_eq_none_iff]
    exact fun hnone => absurd (hnone e he) (by simp)

theorem lookup_eq_none_iff {k : α} {es : List (α × β)} : es.lookup k = none ↔ k ∉ keys es := by
  rw [← Option.not_isSome_iff_eq_none, isSome_lookup_iff]

theorem putNew_of_notMem {k : α} (v : β) {es : List (α × β)} (h : k ∉ keys es) :
    putNew k v es = es ++ [(k, v)] := by
  rw [putNew, if_neg (mt isSome_lookup_iff.mp h), put_of_notMem v h]

theorem nodup_keys_putNew (k : α) (v : β) {es : List (α × β)} (h : (keys es).Nodup) :
    (keys (putNew k v es)).Nodup := by
  rw [putNew]
  split_ifs
  · exact h
  · exact nodup_keys_put k v h

theorem mem_putNew {k : α} {v : β} {es : List (α × β)} {e : α × β} (h : e ∈ putNew k v es) :
    e = (k, v) ∨ e ∈ es := by
  rw [putNew] at h
  split_ifs at h
  · exact .inr h
  · exact mem_put h

theorem lookup_putNew (k j : α) (v : β) (es : List (α × β)) :
    (putNew k v es).lookup j = if j = k then es.lookup k <|> some v else es.lookup j := by
  rw [putNew]
  split_ifs with hk hj hj
  · obtain ⟨w, hw⟩ := Option.isSome_iff_exists.mp hk
    rw [hj, hw]
    rfl
  · rfl
  · rw [lookup_put, if_pos hj, Option.not_isSome_iff_eq_none.mp hk]
    rfl
  · rw [lookup_put, if_neg hj]

theorem lookup_map {γ : Type} (f : β → γ) (k : α) (es : List (α × β)) :
    (es.map fun e => (e.1, f e.2)).lookup k = (es.lookup k).map f := by
  induction es with
  | nil => rfl
  | cons e es ih =>
    obtain ⟨j, v⟩ := e
    rw [List.map_cons, List.lookup_cons, List.lookup_cons]
    cases k == j
    · exact ih
    · rfl

/-! ### The order of the names -/

/-- The names after one more is written. -/
def addKey (ks : List α) (k : α) : List α :=
  if k ∈ ks then ks else ks ++ [k]

theorem keys_put_eq_addKey (k : α) (v : β) (es : List (α × β)) :
    keys (put k v es) = addKey (keys es) k :=
  keys_put k v es

theorem putNew_eq_ite (k : α) (v : β) (es : List (α × β)) :
    putNew k v es = if k ∈ keys es then es else es ++ [(k, v)] := by
  split_ifs with hk
  · rw [putNew, if_pos (isSome_lookup_iff.mpr hk)]
  · exact putNew_of_notMem v hk

theorem keys_putNew (k : α) (v : β) (es : List (α × β)) :
    keys (putNew k v es) = addKey (keys es) k := by
  rw [putNew_eq_ite, addKey]
  split_ifs
  · rfl
  · exact List.map_append

/-- Writing under distinct names leaves the names that were there in front, and of the others it
keeps the order. -/
theorem foldl_addKey {ns : List α} (h : ns.Nodup) (ks : List α) :
    ns.foldl addKey ks = ks ++ ns.filter (· ∉ ks) := by
  induction ns generalizing ks with
  | nil => rw [List.foldl_nil, List.filter_nil, List.append_nil]
  | cons n ns ih =>
    obtain ⟨hn, hns⟩ := List.nodup_cons.mp h
    rw [List.foldl_cons, ih hns, addKey]
    split_ifs with hmem
    · rw [List.filter_cons_of_neg (by simpa using hmem)]
    · have hrest : ns.filter (· ∉ ks ++ [n]) = ns.filter (· ∉ ks) := by
        refine List.filter_congr fun m hm => ?_
        have hne : m ≠ n := fun he => hn (he ▸ hm)
        simp [hne]
      rw [List.filter_cons_of_pos (by simpa using hmem), hrest, List.append_assoc,
        List.singleton_append]

/-! ### The map of a list of pairs -/

theorem foldl_put_of_nodup (es : List (α × β)) (m : List (α × β)) (h : (keys (m ++ es)).Nodup) :
    es.foldl (fun m e => put e.1 e.2 m) m = m ++ es := by
  induction es generalizing m with
  | nil => rw [List.foldl_nil, List.append_nil]
  | cons e es ih =>
    have hassoc : m ++ e :: es = (m ++ [e]) ++ es := by simp
    have hnew : e.1 ∉ keys m := by
      intro hmem
      rw [keys, List.map_append, List.nodup_append] at h
      exact h.2.2 e.1 hmem e.1 (List.mem_cons_self ..) rfl
    rw [List.foldl_cons, put_of_notMem _ hnew, hassoc]
    exact ih (m ++ [e]) (hassoc ▸ h)

/-- Pairs with distinct names are the map that is made of them. -/
theorem ofList_of_nodup {es : List (α × β)} (h : (keys es).Nodup) : ofList es = es :=
  foldl_put_of_nodup es [] h

theorem nodup_keys_ofList (es : List (α × β)) : (keys (ofList es)).Nodup := by
  have hrun : ∀ m : List (α × β), (keys m).Nodup →
      (keys (es.foldl (fun m e => put e.1 e.2 m) m)).Nodup := by
    induction es with
    | nil => exact fun m hm => hm
    | cons e es ih => exact fun m hm => ih _ (nodup_keys_put e.1 e.2 hm)
  exact hrun [] List.nodup_nil

theorem mem_ofList {es : List (α × β)} {e : α × β} (h : e ∈ ofList es) : e ∈ es := by
  have hrun : ∀ m : List (α × β), e ∈ es.foldl (fun m e => put e.1 e.2 m) m → e ∈ m ∨ e ∈ es := by
    clear h
    induction es with
    | nil => exact fun m hm => .inl hm
    | cons d es ih =>
      intro m hm
      rcases ih _ hm with hm | hm
      · rcases mem_put hm with rfl | hm
        · exact .inr (List.mem_cons_self ..)
        · exact .inl hm
      · exact .inr (List.mem_cons_of_mem _ hm)
  rcases hrun [] h with h | h
  · cases h
  · exact h

/-- The last value of a name is the one that is found. -/
theorem lookup_ofList_append (before : List (α × β)) {k : α} {v : β} {after : List (α × β)}
    (h : k ∉ keys after) : (ofList (before ++ (k, v) :: after)).lookup k = some v := by
  have hrun : ∀ m : List (α × β), m.lookup k = some v →
      (after.foldl (fun m e => put e.1 e.2 m) m).lookup k = some v := by
    induction after with
    | nil => exact fun m hm => hm
    | cons e after ih =>
      obtain ⟨hne, hafter⟩ := List.ne_and_not_mem_of_not_mem_cons h
      intro m hm
      exact ih hafter _ (by rw [lookup_put, if_neg hne, hm])
  rw [ofList, List.foldl_append, List.foldl_cons]
  exact hrun _ (by rw [lookup_put, if_pos rfl])

/-! ### First places and last values -/

/-- **A map of pairs**: the names in the order of their first places, each with its last value. -/
structure MapOf (m es : List (α × β)) : Prop where
  /-- The names stand where each was first. -/
  keys_eq : keys m = (keys es).eraseDups
  /-- The value of a name is its last one. -/
  lookup_eq : ∀ k, m.lookup k = es.reverse.lookup k

theorem ofList_snoc (es : List (α × β)) (e : α × β) :
    ofList (es ++ [e]) = put e.1 e.2 (ofList es) := by
  rw [ofList, List.foldl_append, List.foldl_cons, List.foldl_nil, ofList]

theorem mapOf_ofList (es : List (α × β)) : MapOf (ofList es) es := by
  induction es using List.reverseRecOn with
  | nil => exact ⟨rfl, fun _ => rfl⟩
  | append_singleton es e ih =>
    rw [ofList_snoc]
    constructor
    · have hkeys : keys (es ++ [e]) = keys es ++ [e.1] := List.map_append
      rw [keys_put, hkeys, List.eraseDups_append, ih.keys_eq, List.removeAll]
      by_cases h : e.1 ∈ keys es
      · simp [List.mem_eraseDups, h]
      · simp [List.mem_eraseDups, List.eraseDups_cons, h]
    · intro k
      rw [lookup_put, List.reverse_append, List.reverse_singleton, List.singleton_append,
        List.lookup_cons, ← ih.lookup_eq]
      by_cases h : k = e.1
      · simp [h]
      · simp [h, beq_eq_false_iff_ne.mpr h]

/-- Maps with the same names in the same order and the same values are equal. -/
theorem eq_of_lookup {m m' : List (α × β)} (hnodup : (keys m).Nodup) (hkeys : keys m = keys m')
    (hlookup : ∀ k, m.lookup k = m'.lookup k) : m = m' := by
  refine List.ext_getElem ?_ fun i hi hi' => ?_
  · simpa [keys] using congrArg List.length hkeys
  · have hname : (m[i]).1 = (m'[i]).1 := by
      have hi₁ : i < (keys m).length := by rwa [keys, List.length_map]
      have hi₂ : i < (keys m').length := by rwa [keys, List.length_map]
      have hget : (keys m)[i] = (keys m')[i] := by simp only [hkeys]
      simpa [keys] using hget
    have hm : m.lookup (m[i]).1 = some (m[i]).2 := lookup_of_mem hnodup (List.getElem_mem hi)
    have hm' : m'.lookup (m'[i]).1 = some (m'[i]).2 :=
      lookup_of_mem (hkeys ▸ hnodup) (List.getElem_mem hi')
    rw [hname, hlookup, hm'] at hm
    exact Prod.ext hname (Option.some.inj hm).symm

/-- The map that is made of pairs is the only one. -/
theorem mapOf_iff {m es : List (α × β)} : MapOf m es ↔ m = ofList es := by
  constructor
  · intro h
    have hmap := mapOf_ofList es
    have hkeys : keys m = keys (ofList es) := h.keys_eq.trans hmap.keys_eq.symm
    refine eq_of_lookup (hkeys ▸ nodup_keys_ofList es) hkeys fun k => ?_
    rw [h.lookup_eq, hmap.lookup_eq]
  · rintro rfl
    exact mapOf_ofList es

end Statuary.Assoc
