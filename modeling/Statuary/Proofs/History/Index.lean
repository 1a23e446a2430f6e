import Mathlib.Data.List.Nodup
import Mathlib.Data.List.Perm.Basic
import Statuary.History.Index
import Statuary.Proofs.Assoc
import Statuary.Proofs.Text.Bytes
import Statuary.Proofs.Time.Instant

/-!
# What the index answers

The answers of an index follow from **the calls that recorded exports** and from nothing else
(`Statuary.Index.afterAll_answers`). Of an id the last call counts that was not refused
(`Statuary.lastRow`); its row may be in another project than the rows of the id before it, and takes
all their places. A listing is the rows that count, of one project or of all, from the greatest id
down (`Statuary.Listing`); there is only one order of them, for no two have the same id.

The step from ids that do not ascend to ids that descend needs that different ids have different
bytes. That is so for every text that bytes stand for (`Statuary.Utf8.IsText`), and other texts are
never ids.
-/

namespace Statuary

/-! ### Calls -/

/-- A call that records an export. -/
structure Recording where
  /-- The call is called off. -/
  canceled : Bool
  /-- The time of the call. -/
  now : Instant
  /-- The export. -/
  entry : HistoryEntry (Option Instant)

namespace Recording

/-- The call is not refused. -/
def isAccepted (r : Recording) : Bool :=
  r.entry.id ≠ "" && r.entry.project ≠ "" && !r.canceled && !r.entry.distance.isNaN

/-- The time that is kept of the export. -/
def time (r : Recording) : Instant :=
  Index.timeOf r.now r.entry

/-- The row of the export. -/
def row (r : Recording) : HistoryEntry String :=
  { r.entry.withTime r.time.text with distance := Index.storedDistance r.entry.distance }

end Recording

/-- **The row that counts for an id**: that of the last call with it that was not refused. -/
def lastRow (rs : List Recording) (id : String) : Option (HistoryEntry String) :=
  (rs.reverse.find? fun r => r.isAccepted && r.entry.id = id).map Recording.row

theorem lastRow_snoc (rs : List Recording) (r : Recording) (id : String) :
    lastRow (rs ++ [r]) id =
      if r.isAccepted = true ∧ r.entry.id = id then some r.row else lastRow rs id := by
  rw [lastRow, List.reverse_append, List.reverse_singleton, List.singleton_append, List.find?_cons]
  by_cases h : r.isAccepted = true ∧ r.entry.id = id
  · rw [if_pos h, h.1, h.2]
    simp
  · rw [if_neg h, lastRow]
    have hskip : (r.isAccepted && decide (r.entry.id = id)) = false := by
      rw [Bool.eq_false_iff, Ne, Bool.and_eq_true, decide_eq_true_eq]
      exact h
    rw [hskip]

/-- The row that counts is the row of a call with the id. -/
theorem exists_of_lastRow {rs : List Recording} {id : String} {row : HistoryEntry String}
    (h : lastRow rs id = some row) : ∃ r ∈ rs, r.entry.id = id ∧ r.row = row := by
  obtain ⟨r, hr, hrow⟩ := Option.map_eq_some_iff.mp h
  have hid := List.find?_some hr
  rw [Bool.and_eq_true, decide_eq_true_eq] at hid
  exact ⟨r, List.mem_reverse.mp (List.mem_of_find?_eq_some hr), hid.2, hrow⟩

theorem id_of_lastRow {rs : List Recording} {id : String} {row : HistoryEntry String}
    (h : lastRow rs id = some row) : row.id = id := by
  obtain ⟨r, -, hid, rfl⟩ := exists_of_lastRow h
  exact hid

/-- **The listing of a project**, or of all for the empty one: the rows that count, from the
greatest id down. -/
structure Listing (rs : List Recording) (project : String) (rows : List (HistoryEntry String)) :
    Prop where
  /-- Ids descend in the order of their bytes. -/
  descending : rows.Pairwise fun a b => textLt b.id a.id = true
  /-- The rows that count and no others are listed. -/
  mem_iff : ∀ row, row ∈ rows ↔
    lastRow rs row.id = some row ∧ (project = "" ∨ row.project = project)

namespace Index

/-! ### A call -/

/-- The index after a call; a call that is refused changes nothing. -/
def after (ix : Index) (r : Recording) : Index :=
  match ix.record r.canceled r.now r.entry with
  | .ok ix => ix
  | .error _ => ix

/-- The index after calls, at first empty. -/
def afterAll (rs : List Recording) : Index :=
  rs.foldl after {}

theorem record_of_isAccepted (ix : Index) {r : Recording} (h : r.isAccepted = true) :
    ix.record r.canceled r.now r.entry = .ok ⟨Assoc.put r.entry.id r.row ix.rows⟩ := by
  simp only [Recording.isAccepted, Bool.and_eq_true, decide_eq_true_eq, Bool.not_eq_true'] at h
  obtain ⟨⟨⟨hid, hproject⟩, hcanceled⟩, hdistance⟩ := h
  rw [record, if_neg (not_or.mpr ⟨hid, hproject⟩), hcanceled, hdistance]
  rfl

theorem record_of_missingKey (ix : Index) {r : Recording}
    (h : r.entry.id = "" ∨ r.entry.project = "") :
    ix.record r.canceled r.now r.entry = .error .missingKey :=
  if_pos h

theorem not_isAccepted_of_missingKey {r : Recording} (h : r.entry.id = "" ∨ r.entry.project = "") :
    ¬ r.isAccepted = true := by
  intro haccepted
  have hrecord := record_of_isAccepted {} haccepted
  rw [record_of_missingKey _ h] at hrecord
  cases hrecord

/-- A call is refused or not whatever the index is. -/
theorem record_isOk_iff (ix : Index) (r : Recording) :
    (∃ ix', ix.record r.canceled r.now r.entry = .ok ix') ↔ r.isAccepted = true := by
  constructor
  · rintro ⟨ix', h⟩
    rw [record] at h
    split_ifs at h with hkey hcanceled hdistance
    rw [not_or] at hkey
    simp [Recording.isAccepted, hkey, hcanceled, hdistance]
  · exact fun h => ⟨_, record_of_isAccepted ix h⟩

/-- A call that succeeds puts the row of the export under its id. -/
theorem eq_of_record {ix ix' : Index} {r : Recording}
    (h : ix.record r.canceled r.now r.entry = .ok ix') :
    ix' = ⟨Assoc.put r.entry.id r.row ix.rows⟩ := by
  have hrecord := record_of_isAccepted ix ((record_isOk_iff ix r).mp ⟨ix', h⟩)
  exact Except.ok.inj (h.symm.trans hrecord)

theorem after_of_isAccepted (ix : Index) {r : Recording} (h : r.isAccepted = true) :
    ix.after r = ⟨Assoc.put r.entry.id r.row ix.rows⟩ := by
  rw [after, record_of_isAccepted ix h]

theorem after_of_not_isAccepted (ix : Index) {r : Recording} (h : ¬ r.isAccepted = true) :
    ix.after r = ix := by
  rw [after]
  cases hrecord : ix.record r.canceled r.now r.entry with
  | ok ix' => exact absurd ((record_isOk_iff ix r).mp ⟨ix', hrecord⟩) h
  | error => rfl

/-! ### All calls -/

/-- An index has for every id the row that counts for it. -/
structure Reflects (ix : Index) (rs : List Recording) : Prop where
  nodup : (Assoc.keys ix.rows).Nodup
  lookup : ∀ id, ix.rows.lookup id = lastRow rs id

theorem reflects_after {ix : Index} {rs : List Recording} (h : ix.Reflects rs) (r : Recording) :
    (ix.after r).Reflects (rs ++ [r]) := by
  by_cases hr : r.isAccepted = true
  · rw [after_of_isAccepted ix hr]
    refine ⟨Assoc.nodup_keys_put _ _ h.nodup, fun id => ?_⟩
    rw [Assoc.lookup_put, lastRow_snoc, h.lookup]
    simp only [hr, true_and, eq_comm]
  · rw [after_of_not_isAccepted ix hr]
    refine ⟨h.nodup, fun id => ?_⟩
    rw [lastRow_snoc, if_neg fun hid => hr hid.1, h.lookup]

theorem reflects_afterAll (rs : List Recording) : (afterAll rs).Reflects rs := by
  induction rs using List.reverseRecOn with
  | nil => exact ⟨List.nodup_nil, fun _ => rfl⟩
  | append_singleton rs r ih =>
    rw [afterAll, List.foldl_append]
    exact reflects_after ih r

namespace Reflects

variable {ix : Index} {rs : List Recording}

/-- The rows are those that count. -/
theorem mem_rows_iff (h : ix.Reflects rs) (row : HistoryEntry String) :
    row ∈ ix.rows.map (·.2) ↔ lastRow rs row.id = some row := by
  rw [← h.lookup]
  constructor
  · intro hmem
    obtain ⟨⟨id, row⟩, he, rfl⟩ := List.mem_map.mp hmem
    have hfound := Assoc.lookup_of_mem h.nodup he
    rwa [id_of_lastRow ((h.lookup id).symm.trans hfound)]
  · exact fun hfound => List.mem_map.mpr ⟨_, Assoc.mem_of_lookup hfound, rfl⟩

/-- No two rows have the same id. -/
theorem pairwise_rows (h : ix.Reflects rs) :
    (ix.rows.map (·.2)).Pairwise fun a b => a.id ≠ b.id := by
  have hids : (ix.rows.map (·.2)).map (·.id) = Assoc.keys ix.rows := by
    rw [List.map_map]
    refine List.map_congr_left fun e he => ?_
    exact id_of_lastRow ((h.lookup e.1).symm.trans (Assoc.lookup_of_mem h.nodup he))
  have hnodup := h.nodup
  rw [← hids, List.nodup_iff_pairwise_ne, List.pairwise_map] at hnodup
  exact hnodup

/-- The rows of a project are those of it that count. -/
theorem mem_newest_iff (h : ix.Reflects rs) (project : String) (row : HistoryEntry String) :
    row ∈ ix.newest project ↔
      lastRow rs row.id = some row ∧ (project = "" ∨ row.project = project) := by
  rw [newest, List.mem_mergeSort, List.mem_filter, h.mem_rows_iff]
  simp

/-- The rows of a project come once each, in an order in which no id ascends. -/
theorem pairwise_newest (h : ix.Reflects rs) (project : String) :
    (ix.newest project).Pairwise fun a b => textLt a.id b.id = false ∧ a.id ≠ b.id := by
  have hsorted : (ix.newest project).Pairwise fun a b => (!textLt a.id b.id) = true := by
    refine List.pairwise_mergeSort (fun a b c hab hbc => ?_) (fun a b => ?_) _
    · simp only [Bool.not_eq_true'] at *
      exact Utf8.textLt_eq_false_trans hab hbc
    · simpa using Utf8.textLt_eq_false_total a.id b.id
  have hdistinct : (ix.newest project).Pairwise fun a b => a.id ≠ b.id :=
    ((h.pairwise_rows.filter _).perm (List.mergeSort_perm _ _).symm) fun hne => hne.symm
  exact (hsorted.and hdistinct).imp fun hab => ⟨by simpa using hab.1, hab.2⟩

/-- **The rows of a project are sorted into its listing.** -/
theorem listing (h : ix.Reflects rs) (hids : ∀ r ∈ rs, Utf8.IsText r.entry.id) (project : String) :
    Listing rs project (ix.newest project) := by
  refine ⟨(h.pairwise_newest project).imp_of_mem fun {a b} ha hb hab => ?_,
    h.mem_newest_iff project⟩
  have htext : ∀ row ∈ ix.newest project, Utf8.IsText row.id := by
    intro row hrow
    obtain ⟨r, hr, hid, -⟩ := exists_of_lastRow ((h.mem_newest_iff project row).mp hrow).1
    exact hid ▸ hids r hr
  rcases (htext a ha).textLt_or (htext b hb) hab.2 with hlt | hlt
  · exact absurd hlt (Bool.eq_false_iff.mp hab.1)
  · exact hlt

end Reflects

/-! ### Answers -/

/-- The time of a row is read if its year has four digits. -/
theorem readRow_row {r : Recording} (h : r.time.HasYear) :
    readRow r.row = .ok (r.row.withTime r.time) := by
  have htext : Instant.ofText r.row.created = .ok r.time := Instant.ofText_text h
  rw [readRow, htext]

/-- Rows are answered as they are but for their times. -/
theorem exists_mapM_readRow {rows : List (HistoryEntry String)}
    (h : ∀ row ∈ rows, ∃ t, readRow row = .ok (row.withTime t)) :
    ∃ xs, rows.mapM readRow = .ok xs ∧ xs.map (·.withTime ()) = rows.map (·.withTime ()) := by
  induction rows with
  | nil => exact ⟨[], rfl, rfl⟩
  | cons row rows ih =>
    obtain ⟨⟨t, ht⟩, hrows⟩ := List.forall_mem_cons.mp h
    obtain ⟨xs, hxs, hsame⟩ := ih hrows
    refine ⟨row.withTime t :: xs, ?_, ?_⟩
    · rw [List.mapM_cons, ht, hxs]
      rfl
    · rw [List.map_cons, List.map_cons, hsame]
      rfl

/-- The number of rows that a listing has at most, given what was asked for. -/
def listLength (limit : ℤ) : ℕ :=
  if limit ≤ 0 then 50 else limit.toNat

theorem latest_eq (ix : Index) (project : String) : ix.latest false project =
    match ix.newest project with
    | [] => .error .noRows
    | row :: _ => readRow row := by
  have hone : ix.list false project 1 = ((ix.newest project).take 1).mapM readRow := rfl
  rw [latest, hone]
  cases ix.newest project with
  | nil => rfl
  | cons row rows =>
    rw [List.take_succ_cons, List.take_zero, List.mapM_cons, List.mapM_nil]
    dsimp only
    cases readRow row <;> rfl

/-- What an index answers after calls. -/
structure Answers (ix : Index) (rs : List Recording) : Prop where
  /-- A call succeeds if it has an id and a project, is not called off and has a distance. -/
  record_isOk_iff : ∀ r : Recording,
    (∃ ix', ix.record r.canceled r.now r.entry = .ok ix') ↔ r.isAccepted = true
  /-- A call without an id or a project is refused and changes nothing. -/
  record_missingKey : ∀ r : Recording, r.entry.id = "" ∨ r.entry.project = "" →
    ix.record r.canceled r.now r.entry = .error .missingKey ∧ ix.after r = ix
  /-- Of an id the row that counts is found. -/
  get_eq : ∀ id, ix.get false id =
    match lastRow rs id with
    | none => .error .noRows
    | some row => readRow row
  /-- A listing has the first rows of the project; the newest export is the first of all. If the
  times of all exports can be read then so can every listing. -/
  exists_listing : ∀ project, ∃ rows, Listing rs project rows ∧
    (∀ limit, ix.list false project limit = (rows.take (listLength limit)).mapM readRow) ∧
    ix.latest false project =
      (match rows with
      | [] => .error .noRows
      | row :: _ => readRow row) ∧
    ((∀ r ∈ rs, r.time.HasYear) → ∀ limit, ∃ xs, ix.list false project limit = .ok xs ∧
      xs.map (·.withTime ()) = (rows.take (listLength limit)).map (·.withTime ()))
  /-- A row is answered with the time that was recorded if its year has four digits. -/
  readRow_eq : ∀ r : Recording, r.time.HasYear → readRow r.row = .ok (r.row.withTime r.time)

/-- **What an index answers** is what its calls say. -/
theorem answers_afterAll (rs : List Recording) (hids : ∀ r ∈ rs, Utf8.IsText r.entry.id) :
    (afterAll rs).Answers rs := by
  have hreflects := reflects_afterAll rs
  exact {
    record_isOk_iff := record_isOk_iff _
    record_missingKey := fun r hr =>
      ⟨record_of_missingKey _ hr, after_of_not_isAccepted _ (not_isAccepted_of_missingKey hr)⟩
    get_eq := fun id => by rw [← hreflects.lookup]; rfl
    exists_listing := fun project => by
      refine ⟨_, hreflects.listing hids project, fun limit => rfl, latest_eq _ _,
        fun hyears limit => exists_mapM_readRow fun row hrow => ?_⟩
      have hlisted := ((hreflects.listing hids project).mem_iff row).mp (List.mem_of_mem_take hrow)
      obtain ⟨r, hr, -, rfl⟩ := exists_of_lastRow hlisted.1
      exact ⟨r.time, readRow_row (hyears r hr)⟩
    readRow_eq := fun r => readRow_row }

/-- Two exports of one project, of which the first is recorded again in another. -/
def movedCalls : List Recording :=
  [("A", "p"), ("B", "p"), ("A", "q")].map fun (id, project) =>
    ⟨false, ⟨0⟩, ⟨id, project, "mcb", "out.mcb", "", "", 1, 1, .zero false, none⟩⟩

theorem answers_afterAll_movedCalls : (∀ r ∈ movedCalls, Utf8.IsText r.entry.id) ∧
    (afterAll movedCalls).Answers movedCalls ∧
    (lastRow movedCalls "A").map (·.project) = some "q" := by
  have hids : ∀ r ∈ movedCalls, Utf8.IsText r.entry.id := by
    simp only [movedCalls, List.map_cons, List.map_nil, List.forall_mem_cons]
    exact ⟨rfl, rfl, rfl, fun _ h => absurd h List.not_mem_nil⟩
  exact ⟨hids, answers_afterAll movedCalls hids, rfl⟩

end Index

end Statuary
