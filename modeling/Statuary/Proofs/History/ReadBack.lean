import Mathlib.Data.List.Find
import Statuary.Proofs.History.Index
import Statuary.Proofs.Tag.Reading

/-!
# Which exports are read back

Every time can be recorded, for an index keeps it as a text. Every answer reads that text again, and
**only the years from 0 to 9999 are read** (`Statuary.Instant.hasYear_iff`). The ids themselves go
further: their 48 bits of milliseconds last until the year 10889. So an export without a time of its
own, with an id that is as good as any other, can be recorded and never be had back.

What such an export does to the answers about others is said exactly
(`Statuary.Index.readsBack_of_recordAll`). It is not found, and every listing fails that it is in;
a listing of another project, or one that ends before it, does not notice it. Where the years of all
exports that count have four digits, every answer is given, each export with the instant that was
recorded.

An export counts if it is the last one with its id (`Statuary.lastCall`), and no two of those that
count have the same id, so a listing has the exports of calls and not only their rows.
-/

namespace Statuary

variable {rs : List Recording} {ix : Index} {r : Recording} {id : String}

/-! ### Calls that count -/

/-- **The call that counts for an id**: the last one with it. -/
def lastCall (rs : List Recording) (id : String) : Option Recording :=
  rs.reverse.find? fun r => r.entry.id = id

theorem id_of_lastCall (h : lastCall rs id = some r) : r.entry.id = id := by
  rw [lastCall] at h
  simpa using List.find?_some h

/-- A call that counts for some id counts for its own. -/
theorem lastCall_own (h : lastCall rs id = some r) : r ∈ rs ∧ lastCall rs r.entry.id = some r := by
  refine ⟨List.mem_reverse.mp (List.mem_of_find?_eq_some h), ?_⟩
  rwa [id_of_lastCall h]

theorem exists_lastCall (h : r ∈ rs) : ∃ s, lastCall rs r.entry.id = some s := by
  rw [← Option.isSome_iff_exists, lastCall, List.find?_isSome]
  exact ⟨r, List.mem_reverse.mpr h, decide_eq_true rfl⟩

/-- Where no call is refused, the row that counts is that of the last call. -/
theorem lastRow_eq (h : ∀ r ∈ rs, r.isAccepted = true) (id : String) :
    lastRow rs id = (lastCall rs id).map Recording.row := by
  rw [lastRow, lastCall]
  refine congrArg _ (List.find?_congr fun r hr => ?_)
  rw [h r (List.mem_reverse.mp hr), Bool.true_and]

/-- The export of a call as it is answered, with the instant that was recorded. -/
def Recording.answer (r : Recording) : HistoryEntry Instant :=
  r.row.withTime r.time

/-- An id is readable for as long as its milliseconds are before the year 10000. -/
theorem Ulid.hasYear_instant_iff (u : Ulid) : u.instant.HasYear ↔ u.time < 253402300800000 := by
  rw [Instant.hasYear_iff, Instant.seconds, instant, Instant.ofMillis, Instant.second]
  dsimp only
  omega

namespace Index

/-! ### Calls that all succeed -/

/-- The index after calls, each on what the one before has left; the first error, if one is
refused. -/
def recordAll (rs : List Recording) : Except IndexError Index :=
  rs.foldlM (fun ix r => ix.record r.canceled r.now r.entry) {}

theorem recordAll_snoc (rs : List Recording) (r : Recording) :
    recordAll (rs ++ [r]) = recordAll rs >>= fun ix => ix.record r.canceled r.now r.entry := by
  rw [recordAll, List.foldlM_append]
  simp only [List.foldlM_cons, List.foldlM_nil, bind_pure]
  rfl

/-- Calls succeed if none of them is refused, whatever the calls before. -/
theorem recordAll_eq_ok_iff :
    recordAll rs = .ok ix ↔ (∀ r ∈ rs, r.isAccepted = true) ∧ ix = afterAll rs := by
  induction rs using List.reverseRecOn generalizing ix with
  | nil => exact ⟨fun h => ⟨by simp, (Except.ok.inj h).symm⟩, fun h => h.2 ▸ rfl⟩
  | append_singleton rs r ih =>
    have hafter : afterAll (rs ++ [r]) = (afterAll rs).after r := by
      rw [afterAll, List.foldl_append]
      rfl
    rw [recordAll_snoc, bind_eq_ok, List.forall_mem_append, List.forall_mem_singleton,
      hafter]
    constructor
    · rintro ⟨before, hbefore, hrecord⟩
      obtain ⟨hall, rfl⟩ := ih.mp hbefore
      have hr := (record_isOk_iff _ r).mp ⟨ix, hrecord⟩
      rw [after_of_isAccepted _ hr]
      exact ⟨⟨hall, hr⟩, eq_of_record hrecord⟩
    · rintro ⟨⟨hall, hr⟩, rfl⟩
      refine ⟨afterAll rs, ih.mpr ⟨hall, rfl⟩, ?_⟩
      rw [after_of_isAccepted _ hr]
      exact record_of_isAccepted _ hr

/-! ### Rows that are read -/

theorem readRow_eq_error (h : ¬ r.time.HasYear) :
    ∃ fault, readRow r.row = .error (.badTime r.time.text fault) := by
  obtain ⟨fault, hfault⟩ := Instant.exists_error_of_not_hasYear h
  have hcreated : Instant.ofText r.row.created = .error fault := hfault
  rw [readRow, hcreated]
  exact ⟨fault, rfl⟩

/-- **A row is read** if the year of its export has four digits. -/
theorem readRow_eq_ok_iff {e : HistoryEntry Instant} :
    readRow r.row = .ok e ↔ r.time.HasYear ∧ e = r.answer := by
  by_cases hyear : r.time.HasYear
  · rw [readRow_row hyear, and_iff_right hyear]
    exact ⟨fun h => (Except.ok.inj h).symm, fun h => h ▸ rfl⟩
  · obtain ⟨fault, hfault⟩ := readRow_eq_error hyear
    rw [hfault]
    exact iff_of_false nofun fun h => hyear h.1

/-- Rows are read if all of them are. -/
theorem mapM_readRow_eq_ok_iff {cs : List Recording} {es : List (HistoryEntry Instant)} :
    (cs.map Recording.row).mapM readRow = .ok es ↔
      (∀ r ∈ cs, r.time.HasYear) ∧ es = cs.map Recording.answer := by
  induction cs generalizing es with
  | nil => exact ⟨fun h => ⟨by simp, (Except.ok.inj h).symm⟩, fun h => h.2 ▸ rfl⟩
  | cons r cs ih =>
    rw [List.map_cons, List.mapM_cons, bind_eq_ok, List.forall_mem_cons, List.map_cons]
    constructor
    · rintro ⟨e, he, hrest⟩
      obtain ⟨hyear, rfl⟩ := readRow_eq_ok_iff.mp he
      obtain ⟨es', hes, ⟨⟩⟩ := bind_eq_ok.mp hrest
      obtain ⟨hyears, rfl⟩ := ih.mp hes
      exact ⟨⟨hyear, hyears⟩, rfl⟩
    · rintro ⟨⟨hyear, hyears⟩, rfl⟩
      refine ⟨r.answer, readRow_eq_ok_iff.mpr ⟨hyear, rfl⟩, ?_⟩
      rw [ih.mpr ⟨hyears, rfl⟩]
      rfl

/-! ### Calls for rows -/

/-- **The calls that are listed** for a project, or for all if it is empty: those that count, once
each, in an order in which no id ascends. -/
structure Calls (rs : List Recording) (project : String) (cs : List Recording) : Prop where
  /-- No id ascends, and none comes twice. -/
  descending : cs.Pairwise fun a b =>
    textLt a.entry.id b.entry.id = false ∧ a.entry.id ≠ b.entry.id
  /-- The calls that count and no others are listed. -/
  mem_iff : ∀ r, r ∈ cs ↔
    lastCall rs r.entry.id = some r ∧ (project = "" ∨ r.entry.project = project)

/-- The rows of a project are those of calls. -/
theorem exists_calls (hall : ∀ r ∈ rs, r.isAccepted = true) (h : ix.Reflects rs)
    (project : String) :
    ∃ cs, Calls rs project cs ∧ cs.map Recording.row = ix.newest project := by
  have hrows : ((ix.newest project).filterMap fun row => lastCall rs row.id).map Recording.row =
      ix.newest project := by
    rw [List.map_filterMap]
    refine (List.filterMap_congr fun row hrow => ?_).trans List.filterMap_some
    rw [← lastRow_eq hall]
    exact ((h.mem_newest_iff project row).mp hrow).1
  refine ⟨_, ⟨?_, fun r => ?_⟩, hrows⟩
  · have hsorted := h.pairwise_newest project
    rw [← hrows, List.pairwise_map] at hsorted
    exact hsorted
  · rw [List.mem_filterMap]
    constructor
    · rintro ⟨row, hrow, hr⟩
      obtain ⟨hlast, hproject⟩ := (h.mem_newest_iff project row).mp hrow
      obtain rfl : r.row = row := by
        rw [lastRow_eq hall, hr] at hlast
        exact Option.some.inj hlast
      exact ⟨hr, hproject⟩
    · rintro ⟨hr, hproject⟩
      have hlast : lastRow rs r.row.id = some r.row := by
        rw [lastRow_eq hall, show lastCall rs r.row.id = some r from hr]
        rfl
      exact ⟨r.row, (h.mem_newest_iff project r.row).mpr ⟨hlast, hproject⟩, hr⟩

/-! ### Answers -/

/-- **What is had back** from an index after calls that have all succeeded. -/
structure ReadsBack (ix : Index) (rs : List Recording) : Prop where
  /-- A time that is given is the one that is recorded. -/
  time_of_given : ∀ r : Recording, ∀ t, r.entry.created = some t →
    r.time = t ∧ (r.time.HasYear ↔ -62167219200 ≤ t.seconds ∧ t.seconds < 253402300800)
  /-- Without one it is that of the id. -/
  time_of_id : ∀ r : Recording, ∀ u, r.entry.created = none → Ulid.ofText? r.entry.id = some u →
    r.time = .ofMillis u.time ∧ (r.time.HasYear ↔ u.time < 253402300800000)
  /-- If the id has none either it is that of the call. -/
  time_of_call : ∀ r : Recording, r.entry.created = none → Ulid.ofText? r.entry.id = none →
    r.time = r.now
  /-- The export that counts for an id is found if its year has four digits, with its instant. -/
  get_eq_ok_iff : ∀ id r, lastCall rs id = some r → ∀ e,
    ix.get false id = .ok e ↔ r.time.HasYear ∧ e = r.answer
  /-- Otherwise it is its time that cannot be read. -/
  get_eq_error : ∀ id r, lastCall rs id = some r → ¬ r.time.HasYear →
    ∃ fault, ix.get false id = .error (.badTime r.time.text fault)
  /-- A listing is given if the years of all exports in it have four digits, with their instants. -/
  exists_calls : ∀ project, ∃ cs, Calls rs project cs ∧ ∀ limit es,
    ix.list false project limit = .ok es ↔
      (∀ r ∈ cs.take (listLength limit), r.time.HasYear) ∧
        es = (cs.take (listLength limit)).map Recording.answer
  /-- Every answer is given if and only if the year of every export that counts has four digits. -/
  all_iff : ((∀ project limit, ∃ es, ix.list false project limit = .ok es) ∧
      ∀ r ∈ rs, ∃ e, ix.get false r.entry.id = .ok e) ↔
    ∀ r, lastCall rs r.entry.id = some r → r.time.HasYear

/-- The row of the call that counts is looked up. -/
theorem get_of_lastCall (hall : ∀ r ∈ rs, r.isAccepted = true) (h : ix.Reflects rs)
    (hr : lastCall rs id = some r) : ix.get false id = readRow r.row := by
  have hrow : ix.rows.lookup id = some r.row := by
    rw [h.lookup, lastRow_eq hall, hr]
    rfl
  rw [get, if_neg Bool.false_ne_true, hrow]

/-- **What calls have recorded is had back**, each export with its instant, as far as the years of
those that count have four digits; another one takes only the answers with it that it is in. -/
theorem readsBack_of_recordAll (h : recordAll rs = .ok ix) : ix.ReadsBack rs := by
  obtain ⟨hall, rfl⟩ := recordAll_eq_ok_iff.mp h
  have hreflects := reflects_afterAll rs
  have hget : ∀ id r, lastCall rs id = some r → ∀ e,
      (afterAll rs).get false id = .ok e ↔ r.time.HasYear ∧ e = r.answer := by
    intro id r hr e
    rw [get_of_lastCall hall hreflects hr]
    exact readRow_eq_ok_iff
  have hlist : ∀ project, ∃ cs, Calls rs project cs ∧ ∀ limit es,
      (afterAll rs).list false project limit = .ok es ↔
        (∀ r ∈ cs.take (listLength limit), r.time.HasYear) ∧
          es = (cs.take (listLength limit)).map Recording.answer := by
    intro project
    obtain ⟨cs, hcs, hrows⟩ := exists_calls hall hreflects project
    refine ⟨cs, hcs, fun limit es => ?_⟩
    rw [← mapM_readRow_eq_ok_iff, List.map_take, hrows]
    rfl
  refine ⟨?_, ?_, ?_, hget, ?_, hlist, ?_, ?_⟩
  · intro r t ht
    have htime : r.time = t := by rw [Recording.time, timeOf, ht, Option.getD_some]
    exact ⟨htime, htime ▸ Instant.hasYear_iff _⟩
  · intro r u hnone hu
    have htime : r.time = u.instant := by
      rw [Recording.time, timeOf, hnone, hu]
      rfl
    exact ⟨htime, htime ▸ u.hasYear_instant_iff⟩
  · intro r hnone hu
    rw [Recording.time, timeOf, hnone, hu]
    rfl
  · intro id r hr hyear
    rw [get_of_lastCall hall hreflects hr]
    exact readRow_eq_error hyear
  · rintro ⟨-, hgets⟩ r hr
    obtain ⟨e, he⟩ := hgets r (lastCall_own hr).1
    exact ((hget _ r hr e).mp he).1
  · intro hyears
    refine ⟨fun project limit => ?_, fun r hr => ?_⟩
    · obtain ⟨cs, hcs, hlisted⟩ := hlist project
      refine ⟨_, (hlisted limit _).mpr ⟨fun r hr => ?_, rfl⟩⟩
      exact hyears r ((hcs.mem_iff r).mp (List.mem_of_mem_take hr)).1
    · obtain ⟨s, hs⟩ := exists_lastCall hr
      exact ⟨_, (hget _ s hs _).mpr ⟨hyears s (lastCall_own hs).2, rfl⟩⟩

/-- A call with an id and no time. -/
def untimedCall (id : String) : Recording :=
  ⟨false, ⟨0⟩, ⟨id, "p", "mcb", "out.mcb", "", "", 1, 1, .zero false, none⟩⟩

/-- An id of the year 2024 and the last of all ids. -/
def lateCalls : List Recording :=
  [untimedCall "01HWS000000000000000000001", untimedCall "7ZZZZZZZZZZZZZZZZZZZZZZZZZ"]

theorem readsBack_of_recordAll_lateCalls :
    recordAll lateCalls = .ok (afterAll lateCalls) ∧ (afterAll lateCalls).ReadsBack lateCalls ∧
    (∃ e, (afterAll lateCalls).get false "01HWS000000000000000000001" = .ok e) ∧
    (∀ e, (afterAll lateCalls).get false "7ZZZZZZZZZZZZZZZZZZZZZZZZZ" ≠ .ok e) ∧
    ∃ limit, ∀ es, (afterAll lateCalls).list false "p" limit ≠ .ok es := by
  have hrecorded : recordAll lateCalls = .ok (afterAll lateCalls) := rfl
  have hback := readsBack_of_recordAll hrecorded
  have hearly : (untimedCall "01HWS000000000000000000001").time.HasYear :=
    (hback.time_of_id _ ⟨1714530811904, 1⟩ rfl rfl).2.mpr (by decide)
  have hlate : ¬ (untimedCall "7ZZZZZZZZZZZZZZZZZZZZZZZZZ").time.HasYear := fun hyear =>
    absurd ((hback.time_of_id _ ⟨281474976710655, 1208925819614629174706175⟩ rfl rfl).2.mp hyear)
      (by decide)
  refine ⟨hrecorded, hback, ⟨_, (hback.get_eq_ok_iff _ _ rfl _).mpr ⟨hearly, rfl⟩⟩,
    fun e he => hlate ((hback.get_eq_ok_iff _ _ rfl e).mp he).1, ?_⟩
  obtain ⟨cs, hcs, hlist⟩ := hback.exists_calls "p"
  refine ⟨cs.length + 1, fun es hes => hlate (((hlist _ es).mp hes).1 _ ?_)⟩
  -- no listing of the project is longer than this one
  rw [List.take_of_length_le (by rw [listLength]; split_ifs <;> omega), hcs.mem_iff]
  exact ⟨rfl, .inr rfl⟩

end Index
end Statuary
