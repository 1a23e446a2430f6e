import Mathlib.Data.Nat.Notation
import Statuary.Proofs.Assoc
import Statuary.Tag.Basic

/-!
# Compounds with an index

In memory a compound is **a table**: its entries in the order of first writing, and an index from
names to positions, which need not be there before something is written (`Statuary.Table`). What is
found under a name is found through the index, and a name that the index knows is written in place.

The operations are programs that change a table, and one that is refused in the middle leaves behind
what it has written so far. That this is nothing, and that a table does what the list of its entries
does alone, rests on one fact: **the index knows the names at their positions and no others**
(`Statuary.Table.InStep`). Distinct names follow from it, since a name has one position in the
index.
-/

namespace Statuary

/-- The entries of a compound in memory, and the index of their names. -/
structure Table (α : Type) where
  /-- The entries in the order of first writing. -/
  entries : List (String × α)
  /-- The positions of names; there may be none yet. -/
  index : Option (List (String × ℕ))

namespace Table

variable {α : Type}

/-- A table with nothing in it, with or without an index. -/
def empty (indexed : Bool) : Table α :=
  ⟨[], if indexed then some [] else none⟩

/-- The names, in order. -/
def names (c : Table α) : List String :=
  Assoc.keys c.entries

/-- The position of a name in the index. -/
def position? (c : Table α) (name : String) : Option ℕ :=
  (c.index.getD []).lookup name

/-- What is found under a name. -/
def get? (c : Table α) (name : String) : Option α :=
  (c.position? name).bind fun i => c.entries[i]?.map (·.2)

/-- Makes an index if there is none. -/
def makeIndex (c : Table α) : Table α :=
  { c with index := some (c.index.getD []) }

/-- Replaces the value at a position. -/
def replaceAt (c : Table α) (i : ℕ) (v : α) : Table α :=
  { c with entries := c.entries.modify i fun e => (e.1, v) }

/-- Replaces the value under a name that is there. -/
def replace (c : Table α) (name : String) (v : α) : Table α :=
  match c.position? name with
  | some i => c.replaceAt i v
  | none => c

/-- Adds an entry at the end. -/
def push (c : Table α) (name : String) (v : α) : Table α :=
  ⟨c.entries ++ [(name, v)], some (Assoc.put name c.entries.length (c.index.getD []))⟩

/-- The table with a value under a name: in place if the index knows it, else at the end. -/
def put (c : Table α) (name : String) (v : α) : Table α :=
  match c.makeIndex.position? name with
  | some i => c.makeIndex.replaceAt i v
  | none => c.makeIndex.push name v

/-- The table of a list of entries, written one after the other. -/
def ofEntries (es : List (String × α)) : Table α :=
  es.foldl (fun c e => c.put e.1 e.2) (empty true)

/-! ### Operations -/

/-- Maps a name to a value, if there is one. -/
def set (name : String) (v : Option α) : EStateM EditError (Table α) Unit := do
  let some v := v | throw (.setNothing name)
  modify makeIndex
  match (← get).position? name with
  | some i => modify (·.replaceAt i v)
  | none => modify (·.push name v)

/-- Maps a new name to a value. -/
def add (name : String) (v : Option α) : EStateM EditError (Table α) Unit := do
  if ((← get).position? name).isSome then throw (.duplicateKey name)
  set name v

/-- Maps a name to a value unless it is there; the value now under the name is the result. -/
def setDefault (name : String) (v : Option α) : EStateM EditError (Table α) (Option α) := do
  match (← get).get? name with
  | some cur => return some cur
  | none =>
    set name v
    return v

theorem set_some (name : String) (v : α) (c : Table α) :
    (set name (some v)).run c = .ok () (c.put name v) := by
  change (match c.makeIndex.position? name with
    | some i => modify (·.replaceAt i v)
    | none => modify (·.push name v) : EStateM EditError (Table α) Unit).run c.makeIndex = _
  rw [put]
  cases c.makeIndex.position? name <;> rfl

theorem add_of_isSome {name : String} {c : Table α} (h : (c.position? name).isSome = true)
    (v : Option α) : (add name v).run c = .error (.duplicateKey name) c := by
  change (if (c.position? name).isSome then throw (.duplicateKey name) else set name v :
    EStateM EditError (Table α) Unit).run c = _
  rw [if_pos h]
  rfl

theorem add_of_none {name : String} {c : Table α} (h : c.position? name = none) (v : Option α) :
    (add name v).run c = (set name v).run c := by
  change (if (c.position? name).isSome then throw (.duplicateKey name) else set name v :
    EStateM EditError (Table α) Unit).run c = _
  rw [h]
  rfl

theorem setDefault_of_some {name : String} {c : Table α} {cur : α} (h : c.get? name = some cur)
    (v : Option α) : (setDefault name v).run c = .ok (some cur) c := by
  change (match c.get? name with
    | some cur => pure (some cur)
    | none => set name v >>= fun _ => pure v : EStateM EditError (Table α) (Option α)).run c = _
  rw [h]
  rfl

theorem setDefault_of_none {name : String} {c : Table α} (h : c.get? name = none)
    (v : Option α) : (setDefault name v).run c = (set name v >>= fun _ => pure v :
      EStateM EditError (Table α) (Option α)).run c := by
  change (match c.get? name with
    | some cur => pure (some cur)
    | none => set name v >>= fun _ => pure v : EStateM EditError (Table α) (Option α)).run c = _
  rw [h]

theorem setDefault_none {name : String} {c : Table α} (h : c.get? name = none) :
    (setDefault name none).run c = .error (.setNothing name) c :=
  setDefault_of_none h none

theorem setDefault_some {name : String} {c : Table α} (h : c.get? name = none) (v : α) :
    (setDefault name (some v)).run c = .ok (some v) (c.put name v) := by
  have hset := set_some name v c
  rw [setDefault_of_none h, EStateM.run_bind]
  rw [hset]
  rfl

/-! ### The index in step with the entries -/

/-- **The index is in step**: it knows the names of the entries at their positions, and no others.
-/
def InStep (c : Table α) : Prop :=
  ∀ name i, c.position? name = some i ↔ c.names[i]? = some name

theorem inStep_empty (indexed : Bool) : (empty indexed : Table α).InStep := by
  intro name i
  cases indexed <;> simp [empty, position?, names, Assoc.keys]

variable {c : Table α}

@[simp]
theorem position?_makeIndex (c : Table α) (name : String) :
    c.makeIndex.position? name = c.position? name := by
  rw [makeIndex, position?, position?, Option.getD_some]

theorem InStep.makeIndex (h : c.InStep) : c.makeIndex.InStep := by
  intro name i
  rw [position?_makeIndex]
  exact h name i

theorem InStep.nodup (h : c.InStep) : c.names.Nodup := by
  rw [List.nodup_iff_getElem?_ne_getElem?]
  -- the index would have to give a name at two positions both of them
  intro i j hij hj he
  have hname := List.getElem?_eq_getElem hj
  have hi := (h _ i).mpr (he.trans hname)
  rw [(h _ j).mpr hname] at hi
  exact Nat.ne_of_lt hij (Option.some.inj hi).symm

theorem InStep.position?_eq_none_iff (h : c.InStep) (name : String) :
    c.position? name = none ↔ name ∉ c.names := by
  rw [Option.eq_none_iff_forall_ne_some, List.mem_iff_getElem?, not_exists]
  exact forall_congr' fun i => not_congr (h name i)

/-- The entry at the position that the index gives. -/
theorem InStep.exists_getElem? (h : c.InStep) {name : String} {i : ℕ}
    (hi : c.position? name = some i) : ∃ v, c.entries[i]? = some (name, v) := by
  have hname := (h name i).mp hi
  rw [names, Assoc.keys, List.getElem?_map, Option.map_eq_some_iff] at hname
  obtain ⟨⟨k, v⟩, hentry, rfl⟩ := hname
  exact ⟨v, hentry⟩

/-- **What is found through the index** is the value of the entry with the name. -/
theorem InStep.get?_eq (h : c.InStep) (name : String) : c.get? name = c.entries.lookup name := by
  rw [get?]
  cases hi : c.position? name with
  | none => exact (Assoc.lookup_eq_none_iff.mpr ((h.position?_eq_none_iff name).mp hi)).symm
  | some i =>
    obtain ⟨v, hv⟩ := h.exists_getElem? hi
    rw [Option.bind_some, hv, Option.map_some]
    exact (Assoc.lookup_of_mem h.nodup (List.mem_of_getElem? hv)).symm

/-- A name has a position exactly if something is found under it. -/
theorem InStep.isSome_position? (h : c.InStep) (name : String) :
    (c.position? name).isSome = (c.get? name).isSome := by
  rw [get?]
  cases hi : c.position? name with
  | none => rfl
  | some i =>
    obtain ⟨v, hv⟩ := h.exists_getElem? hi
    rw [Option.bind_some, hv]
    rfl

theorem InStep.get?_eq_some_iff (h : c.InStep) (name : String) (v : α) :
    c.get? name = some v ↔ (name, v) ∈ c.entries := by
  rw [h.get?_eq]
  exact ⟨Assoc.mem_of_lookup, Assoc.lookup_of_mem h.nodup⟩

theorem names_replaceAt (c : Table α) (i : ℕ) (v : α) : (c.replaceAt i v).names = c.names := by
  refine List.ext_getElem? fun j => ?_
  simp only [names, Assoc.keys, replaceAt, List.getElem?_map, List.getElem?_modify]
  cases c.entries[j]? with
  | none => rfl
  | some e => split_ifs <;> rfl

theorem InStep.replaceAt (h : c.InStep) (i : ℕ) (v : α) : (c.replaceAt i v).InStep := by
  intro name j
  rw [names_replaceAt]
  exact h name j

/-- After replacing the value at the position of a name, the new value is found under the name. -/
theorem InStep.get?_replaceAt (h : c.InStep) {name : String} {i : ℕ}
    (hi : c.position? name = some i) (v : α) (k : String) :
    (c.replaceAt i v).get? k = if k = name then some v else c.get? k := by
  change ((c.position? k).bind fun j => (c.entries.modify i fun e => (e.1, v))[j]?.map (·.2)) = _
  split_ifs with hk
  · obtain ⟨w, hw⟩ := h.exists_getElem? hi
    rw [hk, hi, Option.bind_some, List.getElem?_modify_eq, hw]
    rfl
  · rw [get?]
    cases hj : c.position? k with
    | none => rfl
    | some j =>
      -- another name is at another position
      have hne : i ≠ j := fun he => hk <| by
        have hname := (h k j).mp hj
        rw [← he, (h name i).mp hi] at hname
        exact (Option.some.inj hname).symm
      rw [Option.bind_some, Option.bind_some, List.getElem?_modify_ne _ _ hne]

/-- Replacing the value at the position of a name writes the name. -/
theorem InStep.entries_replaceAt (h : c.InStep) {name : String} {i : ℕ}
    (hi : c.position? name = some i) (v : α) :
    (c.replaceAt i v).entries = Assoc.put name v c.entries := by
  have hmem : name ∈ Assoc.keys c.entries := List.mem_of_getElem? ((h name i).mp hi)
  have hkeys : Assoc.keys (c.replaceAt i v).entries = Assoc.keys (Assoc.put name v c.entries) := by
    rw [Assoc.keys_put, if_pos hmem]
    exact names_replaceAt c i v
  -- maps with the same names in the same order are compared by what is found in them
  refine Assoc.eq_of_lookup (h.replaceAt i v).nodup hkeys fun k => ?_
  rw [← (h.replaceAt i v).get?_eq, h.get?_replaceAt hi, Assoc.lookup_put, ← h.get?_eq]

theorem InStep.push (h : c.InStep) {name : String} (hname : c.position? name = none) (v : α) :
    (c.push name v).InStep := by
  intro k i
  have hnames : (c.push name v).names = c.names ++ [name] := List.map_append
  have hlength : c.entries.length = c.names.length := (List.length_map _).symm
  have hposition : (c.push name v).position? k =
      if k = name then some c.entries.length else c.position? k := by
    rw [Table.push, position?, Option.getD_some, Assoc.lookup_put]
    rfl
  rw [hposition, hnames, hlength, List.getElem?_append]
  split_ifs with hk hi hi
  · -- the name is new, so it is not at an old position
    subst hk
    refine ⟨fun he => absurd (Option.some.inj he) (Nat.ne_of_gt hi), fun he => ?_⟩
    rw [(h k i).mpr he] at hname
    cases hname
  · subst hk
    rw [Option.some.injEq]
    constructor
    · rintro rfl
      simp
    · intro he
      obtain ⟨hlt, -⟩ := List.getElem?_eq_some_iff.mp he
      rw [List.length_singleton] at hlt
      omega
  · exact h k i
  · constructor
    · intro he
      have hmem := (h k i).mp he
      rw [List.getElem?_eq_none (by omega)] at hmem
      cases hmem
    · intro he
      have hmem := List.mem_of_getElem? he
      exact absurd (List.mem_singleton.mp hmem) hk

/-- **Writing a name** writes it into the list of entries. -/
theorem InStep.entries_put (h : c.InStep) (name : String) (v : α) :
    (c.put name v).entries = Assoc.put name v c.entries := by
  rw [put]
  cases hi : c.makeIndex.position? name with
  | some i => exact h.makeIndex.entries_replaceAt hi v
  | none =>
    have hname := (h.makeIndex.position?_eq_none_iff name).mp hi
    exact (Assoc.put_of_notMem v hname).symm

theorem InStep.put (h : c.InStep) (name : String) (v : α) : (c.put name v).InStep := by
  rw [Table.put]
  cases hi : c.makeIndex.position? name with
  | some i => exact h.makeIndex.replaceAt i v
  | none => exact h.makeIndex.push hi v

theorem exists_position? {name : String} {w : α} (hw : c.get? name = some w) :
    ∃ i, c.position? name = some i := by
  rw [get?, Option.bind_eq_some_iff] at hw
  obtain ⟨i, hi, -⟩ := hw
  exact ⟨i, hi⟩

theorem InStep.replace (h : c.InStep) (name : String) (v : α) : (c.replace name v).InStep := by
  rw [Table.replace]
  cases c.position? name with
  | some i => exact h.replaceAt i v
  | none => exact h

/-- Replacing what is found under a name writes the name. -/
theorem InStep.entries_replace (h : c.InStep) {name : String} {w : α} (hw : c.get? name = some w)
    (v : α) : (c.replace name v).entries = Assoc.put name v c.entries := by
  obtain ⟨i, hi⟩ := exists_position? hw
  rw [Table.replace, hi]
  exact h.entries_replaceAt hi v

/-- Replacing what is found by itself changes nothing. -/
theorem InStep.replace_self (h : c.InStep) {name : String} {v : α} (hv : c.get? name = some v) :
    c.replace name v = c := by
  obtain ⟨i, hi⟩ := exists_position? hv
  have hentries : (c.replaceAt i v).entries = c.entries := by
    refine Assoc.eq_of_lookup (h.replaceAt i v).nodup (names_replaceAt c i v) fun k => ?_
    rw [h.entries_replaceAt hi, Assoc.lookup_put]
    split_ifs with hk
    · rw [hk, ← h.get?_eq, hv]
    · rfl
  rw [Table.replace, hi]
  calc c.replaceAt i v = ⟨(c.replaceAt i v).entries, c.index⟩ := rfl
    _ = c := by rw [hentries]

theorem InStep.get?_replace (h : c.InStep) {name : String} {w : α} (hw : c.get? name = some w)
    (v : α) (k : String) :
    (c.replace name v).get? k = if k = name then some v else c.get? k := by
  rw [(h.replace name v).get?_eq, h.entries_replace hw, Assoc.lookup_put, h.get?_eq]

theorem names_replace (c : Table α) (name : String) (v : α) :
    (c.replace name v).names = c.names := by
  rw [replace]
  cases c.position? name with
  | some i => exact names_replaceAt c i v
  | none => rfl

/-- What is found after a name was written. -/
theorem InStep.get?_put (h : c.InStep) (name : String) (v : α) (k : String) :
    (c.put name v).get? k = if k = name then some v else c.get? k := by
  rw [(h.put name v).get?_eq, h.entries_put, Assoc.lookup_put, h.get?_eq]

/-- Names stay where they are when a name is written. -/
theorem InStep.names_put (h : c.InStep) (name : String) (v : α) :
    c.names <+: (c.put name v).names := by
  rw [names, names, h.entries_put, Assoc.keys_put]
  split_ifs
  · exact List.prefix_refl _
  · exact List.prefix_append ..

/-- Writing entries one after the other writes them into the list of entries. -/
theorem InStep.foldl_put (h : c.InStep) (es : List (String × α)) :
    (es.foldl (fun c e => c.put e.1 e.2) c).InStep ∧
      (es.foldl (fun c e => c.put e.1 e.2) c).entries =
        es.foldl (fun m e => Assoc.put e.1 e.2 m) c.entries := by
  induction es generalizing c with
  | nil => exact ⟨h, rfl⟩
  | cons e es ih =>
    rw [List.foldl_cons, List.foldl_cons, ← h.entries_put]
    exact ih (h.put e.1 e.2)

theorem inStep_ofEntries (es : List (String × α)) : (ofEntries es).InStep :=
  ((inStep_empty true).foldl_put es).1

theorem entries_ofEntries (es : List (String × α)) : (ofEntries es).entries = Assoc.ofList es :=
  ((inStep_empty true).foldl_put es).2

end Table

end Statuary
