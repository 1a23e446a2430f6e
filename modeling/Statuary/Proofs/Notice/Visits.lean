import Mathlib.Data.List.Nodup
import Mathlib.Data.List.Perm.Basic
import Mathlib.Data.List.Range
import Mathlib.Data.List.TakeWhile
import Statuary.Notice.Hub
import Statuary.Proofs.Program.Preservation

/-!
# Who gets which notices

Editors come and go while notices are handed out, and each takes its notices when it likes. An event
is what happens while the table of editors is held, so events come one after another. What an
editor is due can be read off **the events alone** (`Statuary.visits`): the notices between its
coming and its going that its subscription covers, in the order in which they came. No queue occurs
in that, nor who else is there, nor when anything is taken.

The hub forgets an editor that goes, so whoever is gone is kept beside it with what it had taken and
what still waited for it (`Statuary.Hall`). Then taking a notice changes nothing, for what counts is
what was taken followed by what waits (`Statuary.Subscriber.notices`), and every other event does to
the editors what it does to the visits. A notice is lost only to a queue that is full, so no queue
may be full when a notice comes (`Statuary.Hall.HasRoom`).
-/

namespace Statuary

/-! ### Visits -/

/-- A notice is for those who want notices of a project; of all for the empty one. -/
def Notice.isFor (n : Notice) (project : String) : Bool :=
  project = "" || project = n.project

/-- The notice that an event brings. -/
def HubEvent.notice? : HubEvent → Option Notice
  | notify n => some n
  | _ => none

/-- A visit: an editor whose first message was accepted, and what happened after it came. -/
structure Visit where
  /-- The id that it was given. -/
  id : String
  /-- The project it wants notices of; empty for all. -/
  project : String
  /-- What happened after it came. -/
  after : List HubEvent

namespace Visit

/-- What happened until the editor went. -/
def stay (v : Visit) : List HubEvent :=
  v.after.takeWhile (· ≠ .disconnect v.id)

/-- The editor is gone. -/
def isOver (v : Visit) : Bool :=
  v.after.contains (.disconnect v.id)

/-- **What an editor is due**: the notices of its stay that are for it. -/
def due (v : Visit) : List Notice :=
  (v.stay.filterMap HubEvent.notice?).filter (·.isFor v.project)

/-- The visit when one more thing has happened. -/
def extend (v : Visit) (e : HubEvent) : Visit :=
  { v with after := v.after ++ [e] }

end Visit

/-- The id of an editor, given how many came before it. -/
def Hub.idOf (earlier : ℕ) : String :=
  "N" ++ toString (earlier + 1)

/-- **The visits** in a run of events, given how many there were before it. -/
def visits : ℕ → List HubEvent → List Visit
  | _, [] => []
  | earlier, .connect message :: es =>
    match Subscription.read message with
    | .ok s => ⟨Hub.idOf earlier, s.project, es⟩ :: visits (earlier + 1) es
    | .error _ => visits earlier es
  | earlier, _ :: es => visits earlier es

/-- The visit that begins with an event, given how many there were before. -/
def arrivals (earlier : ℕ) (e : HubEvent) : List Visit :=
  visits earlier [e]

theorem visits_snoc (earlier : ℕ) (es : List HubEvent) (e : HubEvent) :
    visits earlier (es ++ [e]) =
      (visits earlier es).map (·.extend e) ++
        arrivals (earlier + (visits earlier es).length) e := by
  induction es generalizing earlier with
  | nil => rfl
  | cons first es ih =>
    cases first with
    | connect message =>
      rw [List.cons_append, visits, visits]
      cases Subscription.read message with
      | error => exact ih earlier
      | ok s =>
        have hcount : earlier + ((visits (earlier + 1) es).length + 1) =
            earlier + 1 + (visits (earlier + 1) es).length := by omega
        simp only [ih, List.length_cons, hcount]
        rfl
    | notify | deliver | disconnect => exact ih earlier

theorem ids_visits (earlier : ℕ) (es : List HubEvent) :
    (visits earlier es).map Visit.id =
      (List.range' earlier (visits earlier es).length).map Hub.idOf := by
  induction es generalizing earlier with
  | nil => rfl
  | cons first es ih =>
    cases first with
    | connect message =>
      rw [visits]
      cases Subscription.read message with
      | error => exact ih earlier
      | ok s =>
        simp only [List.map_cons, List.length_cons, List.range'_succ, ih]
    | notify | deliver | disconnect => exact ih earlier

theorem Hub.idOf_injective {n m : ℕ} (h : Hub.idOf n = Hub.idOf m) : n = m :=
  Nat.succ.inj (toString_nat_injective (String.append_right_inj "N" |>.mp h))

/-- No two visits have one id. -/
theorem nodup_ids_visits (es : List HubEvent) : ((visits 0 es).map Visit.id).Nodup := by
  rw [ids_visits]
  exact List.Nodup.map (fun _ _ => Hub.idOf_injective) List.nodup_range'

namespace Visit

variable {v : Visit}

theorem isOver_iff : v.isOver = true ↔ .disconnect v.id ∈ v.after :=
  List.contains_iff_mem

theorem isOver_extend (v : Visit) (e : HubEvent) :
    (v.extend e).isOver = (v.isOver || decide (e = .disconnect v.id)) := by
  rw [Bool.eq_iff_iff, Bool.or_eq_true, isOver_iff, isOver_iff, decide_eq_true_iff, extend,
    List.mem_append, List.mem_singleton, eq_comm (a := e)]

theorem stay_eq_after (h : v.isOver = false) : v.stay = v.after := by
  refine List.takeWhile_eq_self_iff.mpr fun e he => decide_eq_true ?_
  rintro rfl
  rw [isOver_iff.mpr he] at h
  cases h

/-- What happens after an editor went is not part of its stay. -/
theorem stay_extend_of_isOver (h : v.isOver = true) (e : HubEvent) :
    (v.extend e).stay = v.stay := by
  have hshort : (v.after.takeWhile (· ≠ .disconnect v.id)).length ≠ v.after.length := by
    intro hlength
    have hall := List.takeWhile_eq_self_iff.mp
      ((List.takeWhile_prefix _).eq_of_length hlength) _ (isOver_iff.mp h)
    simp at hall
  rw [stay, extend]
  dsimp only
  rw [List.takeWhile_append, if_neg hshort, stay]

/-- One more event adds its notice to what is due, if the editor is there and it is for the
editor. -/
theorem due_extend (v : Visit) (e : HubEvent) :
    (v.extend e).due =
      if v.isOver then v.due else v.due ++ (e.notice?.toList.filter (·.isFor v.project)) := by
  split_ifs with h
  · rw [due, stay_extend_of_isOver h]
    rfl
  · have hafter := stay_eq_after (Bool.eq_false_iff.mpr h)
    -- the going of the editor itself is not part of its stay, but brings no notice either
    have hlast : ([e].takeWhile (· ≠ .disconnect v.id)).filterMap HubEvent.notice? =
        e.notice?.toList := by
      by_cases he : e = .disconnect v.id
      · subst he
        simp [HubEvent.notice?]
      · cases hnotice : e.notice? <;> simp [he, hnotice]
    have hstay : (v.extend e).stay = v.after ++ [e].takeWhile (· ≠ .disconnect v.id) :=
      List.takeWhile_append_of_pos (List.takeWhile_eq_self_iff.mp hafter)
    rw [due, hstay, List.filterMap_append, List.filter_append, hlast, due, hafter]
    rfl

end Visit

/-! ### Editors that are gone -/

/-- The notices of an editor: those that it has taken, then those that wait for it. -/
def Subscriber.notices (s : Subscriber) : List Notice :=
  s.received ++ s.queue

/-- The hub, and the editors that are gone with what they had taken and what waited for them. -/
structure Hall where
  /-- The hub. -/
  hub : Hub := {}
  /-- The editors that are gone. -/
  gone : List Subscriber := []

namespace Hall

/-- An event in the hall. Who was about to take a notice when it went may still take it. -/
def step (g : Hall) (e : HubEvent) : Hall where
  hub := g.hub.step e
  gone := match e with
    | .deliver id => g.gone.map fun s => if s.id = id then s.take else s
    | .disconnect id => g.gone ++ g.hub.subscribers.filter (·.id = id)
    | _ => g.gone

/-- **A run of events**, from an empty hall. -/
def run (es : List HubEvent) : Hall :=
  es.foldl step {}

/-- Everyone who was ever accepted. -/
def everyone (g : Hall) : List Subscriber :=
  g.hub.subscribers ++ g.gone

/-- Whenever a notice comes in a run, no queue is full. -/
def HasRoom (es : List HubEvent) : Prop :=
  ∀ before n after, es = before ++ .notify n :: after →
    ∀ s ∈ (run before).hub.subscribers, s.queue.length < Subscriber.capacity

theorem step_connect_ok {message : String} {s : Subscription}
    (h : Subscription.read message = .ok s) (g : Hall) :
    g.step (.connect message) = ⟨⟨g.hub.accepted + 1,
      g.hub.subscribers ++ [{ id := g.hub.nextId, project := s.project }]⟩, g.gone⟩ := by
  have hhub : g.hub.step (.connect message) = ⟨g.hub.accepted + 1,
      g.hub.subscribers ++ [{ id := g.hub.nextId, project := s.project }]⟩ := by
    rw [Hub.step, Hub.connect, h]
    rfl
  exact congrArg (Hall.mk · g.gone) hhub

/-- An editor that is refused changes nothing. -/
theorem step_connect_error {message : String} {e : SubscriptionError}
    (h : Subscription.read message = .error e) (g : Hall) : g.step (.connect message) = g := by
  have hhub : g.hub.step (.connect message) = g.hub := by
    rw [Hub.step, Hub.connect, h]
    rfl
  exact congrArg (Hall.mk · g.gone) hhub

theorem run_snoc (es : List HubEvent) (e : HubEvent) : run (es ++ [e]) = (run es).step e := by
  rw [run, List.foldl_append]
  rfl

theorem HasRoom.of_snoc {es : List HubEvent} {e : HubEvent} (h : HasRoom (es ++ [e])) :
    HasRoom es := by
  rintro before n after rfl
  exact h before n (after ++ [e]) (by simp)

end Hall

/-! ### Editors and visits -/

/-- What counts of an editor: who it is, what it wants, and its notices. -/
abbrev Account := String × String × List Notice

/-- The account of an editor. -/
def Subscriber.account (s : Subscriber) : Account :=
  ⟨s.id, s.project, s.notices⟩

/-- The account that an editor is due. -/
def Visit.account (v : Visit) : Account :=
  ⟨v.id, v.project, v.due⟩

/-- An account with one more notice, if it is for the editor. -/
def Account.add (n : Notice) : Account → Account
  | (id, project, ns) => (id, project, if n.isFor project then ns ++ [n] else ns)

theorem Subscriber.account_take (s : Subscriber) : s.take.account = s.account := by
  rw [take.eq_def]
  split
  · rfl
  · rename_i n rest hqueue
    simp [account, notices, hqueue]

theorem Subscriber.account_offer {s : Subscriber} (h : s.queue.length < capacity) (n : Notice) :
    (s.offer n).account = s.account.add n := by
  have hcovers : s.covers n = n.isFor s.project := rfl
  rw [offer, decide_eq_true h, Bool.and_true, hcovers]
  by_cases hfor : n.isFor s.project = true <;> simp [account, notices, Account.add, hfor]

theorem Visit.account_extend {v : Visit} {e : HubEvent} (h : e.notice? = none) :
    (v.extend e).account = v.account := by
  rw [account, due_extend, h]
  simp [extend, account]

theorem Visit.account_extend_of_isOver {v : Visit} (h : v.isOver = true) (e : HubEvent) :
    (v.extend e).account = v.account := by
  rw [account, due_extend, if_pos h]
  rfl

theorem Visit.account_extend_notify {v : Visit} (h : v.isOver = false) (n : Notice) :
    (v.extend (.notify n)).account = v.account.add n := by
  rw [account, due_extend, h]
  by_cases hfor : n.isFor v.project = true <;>
    simp [HubEvent.notice?, account, extend, Account.add, hfor]

namespace Hall

/-- **The editors of a hall are the visitors**: who is there, in the order of coming, and who is
gone, in some order, each with what it is due. -/
structure Attended (g : Hall) (vs : List Visit) : Prop where
  /-- Every visitor was counted. -/
  accepted : g.hub.accepted = vs.length
  /-- Those who are there. -/
  present : g.hub.subscribers.map Subscriber.account =
    (vs.filter (!·.isOver)).map Visit.account
  /-- Those who are gone. -/
  gone : (g.gone.map Subscriber.account).Perm ((vs.filter (·.isOver)).map Visit.account)

variable {g : Hall} {vs : List Visit}

/-- The visits of a kind after an event are those that are of the kind then. -/
theorem filter_extend {p q : Visit → Bool} {e : HubEvent} (h : ∀ v ∈ vs, p (v.extend e) = q v) :
    (vs.map (·.extend e)).filter p = (vs.filter q).map (·.extend e) := by
  rw [List.filter_map]
  exact congrArg _ (List.filter_congr h)

/-- What happens to those who are there happens to their visits, if nobody comes or goes. -/
theorem Attended.extend {g' : Hall} {e : HubEvent} (h : g.Attended vs)
    (hstays : ∀ v ∈ vs, (v.extend e).isOver = v.isOver)
    (haccepted : g'.hub.accepted = g.hub.accepted) {f : Account → Account}
    (hpresent : g'.hub.subscribers.map Subscriber.account =
      (g.hub.subscribers.map Subscriber.account).map f)
    (hgone : g'.gone.map Subscriber.account = g.gone.map Subscriber.account)
    (hf : ∀ v ∈ vs, v.isOver = false → (v.extend e).account = f v.account) :
    g'.Attended (vs.map (·.extend e)) := by
  refine ⟨by rw [haccepted, h.accepted, List.length_map], ?_, ?_⟩
  · rw [hpresent, h.present, filter_extend (q := (!·.isOver)) fun v hv => by rw [hstays v hv],
      List.map_map, List.map_map]
    refine List.map_congr_left fun v hv => (hf v (List.mem_of_mem_filter hv) ?_).symm
    simpa using (List.mem_filter.mp hv).2
  · rw [hgone, filter_extend hstays, List.map_map]
    refine h.gone.trans (.of_eq (List.map_congr_left fun v hv => ?_))
    exact (Visit.account_extend_of_isOver (List.mem_filter.mp hv).2 e).symm

/-- An event that neither is a going nor brings a notice changes no visit. -/
theorem Attended.quiet {g' : Hall} {e : HubEvent} (h : g.Attended vs)
    (hgoing : ∀ id, e ≠ .disconnect id) (hnotice : e.notice? = none)
    (haccepted : g'.hub.accepted = g.hub.accepted)
    (hpresent : g'.hub.subscribers.map Subscriber.account =
      g.hub.subscribers.map Subscriber.account)
    (hgone : g'.gone.map Subscriber.account = g.gone.map Subscriber.account) :
    g'.Attended (vs.map (·.extend e)) := by
  refine h.extend (f := id) (fun v _ => ?_) haccepted (by rw [hpresent, List.map_id]) hgone
    fun v _ _ => Visit.account_extend hnotice
  rw [Visit.isOver_extend, decide_eq_false (hgoing v.id), Bool.or_false]

theorem account_deliver (ss : List Subscriber) (id : String) :
    (ss.map fun s => if s.id = id then s.take else s).map Subscriber.account =
      ss.map Subscriber.account := by
  rw [List.map_map]
  refine List.map_congr_left fun s _ => ?_
  rw [Function.comp_apply, apply_ite Subscriber.account, Subscriber.account_take, ite_self]

/-- Who comes begins a visit, in which nothing has happened yet. -/
theorem Attended.connect (h : g.Attended vs) (message : String) :
    (g.step (.connect message)).Attended
      (vs.map (·.extend (.connect message)) ++ arrivals vs.length (.connect message)) := by
  have hold : g.Attended (vs.map (·.extend (.connect message))) :=
    h.quiet nofun rfl rfl rfl rfl
  rw [arrivals, visits]
  cases hread : Subscription.read message with
  | error e =>
    rw [step_connect_error hread]
    simpa [visits] using hold
  | ok s =>
    rw [step_connect_ok hread]
    have hid : g.hub.nextId = Hub.idOf vs.length := by rw [← h.accepted]; rfl
    refine ⟨?_, ?_, ?_⟩
    · simp [h.accepted, visits]
    · simp [hold.present, visits, hid, Visit.isOver, Visit.account, Visit.due, Visit.stay,
        Subscriber.account, Subscriber.notices]
    · simpa [visits, Visit.isOver] using hold.gone

/-- A notice is added to the accounts of those who are there and whom it is for. -/
theorem Attended.notify (h : g.Attended vs) (n : Notice)
    (hroom : ∀ s ∈ g.hub.subscribers, s.queue.length < Subscriber.capacity) :
    (g.step (.notify n)).Attended (vs.map (·.extend (.notify n))) := by
  refine h.extend (f := Account.add n) (fun v _ => ?_) rfl ?_ rfl
    fun v _ hstays => Visit.account_extend_notify hstays n
  · rw [Visit.isOver_extend, decide_eq_false nofun, Bool.or_false]
  · change (g.hub.subscribers.map (·.offer n)).map Subscriber.account = _
    rw [List.map_map, List.map_map]
    exact List.map_congr_left fun s hs => Subscriber.account_offer (hroom s hs) n

/-- Who goes leaves its account behind. -/
theorem Attended.disconnect (h : g.Attended vs) (id : String) :
    (g.step (.disconnect id)).Attended (vs.map (·.extend (.disconnect id))) := by
  have hover : ∀ v : Visit,
      (v.extend (.disconnect id)).isOver = (v.isOver || decide (v.id = id)) := fun v => by
    simp [Visit.isOver_extend, eq_comm]
  have haccount : ∀ ws : List Visit, (ws.map (·.extend (.disconnect id))).map Visit.account =
      ws.map Visit.account := fun ws => by
    rw [List.map_map]
    exact List.map_congr_left fun v _ => Visit.account_extend rfl
  -- who an editor is can be told from its account
  have hnamed : ∀ p : String → Bool,
      (g.hub.subscribers.filter fun s => p s.id).map Subscriber.account =
        (vs.filter fun v => p v.id && !v.isOver).map Visit.account := by
    intro p
    have hkeyed := congrArg (List.filter fun a => p a.1) h.present
    rw [List.filter_map, List.filter_map, List.filter_filter] at hkeyed
    exact hkeyed
  refine ⟨h.accepted.trans (List.length_map ..).symm, ?_, ?_⟩
  · rw [filter_extend (q := fun v => decide (v.id ≠ id) && !v.isOver) fun v _ => by
      rw [hover, Bool.not_or, Bool.and_comm, decide_not], haccount]
    exact hnamed (· ≠ id)
  · have hsplit : (vs.filter (·.isOver) ++ vs.filter fun v => decide (v.id = id) && !v.isOver).Perm
        (vs.filter fun v => v.isOver || decide (v.id = id)) := by
      have hparts := List.filter_append_perm Visit.isOver
        (vs.filter fun v => v.isOver || decide (v.id = id))
      simp only [List.filter_filter] at hparts
      refine .trans (.of_eq ?_) hparts
      congr 1 <;> refine List.filter_congr fun v _ => ?_ <;> cases v.isOver <;> simp
    rw [filter_extend fun v _ => hover v, haccount]
    change ((g.gone ++ g.hub.subscribers.filter fun s => decide (s.id = id)).map _).Perm _
    rw [List.map_append, hnamed fun i => decide (i = id)]
    refine (h.gone.append_right _).trans ?_
    rw [← List.map_append]
    exact hsplit.map _

/-- **One event** does to the editors what it does to the visits. -/
theorem attended_step (h : g.Attended vs) {e : HubEvent}
    (hroom : ∀ n, e = .notify n → ∀ s ∈ g.hub.subscribers, s.queue.length < Subscriber.capacity) :
    (g.step e).Attended (vs.map (·.extend e) ++ arrivals vs.length e) := by
  cases e with
  | connect message => exact h.connect message
  | notify n =>
    rw [arrivals, visits, visits, List.append_nil]
    · exact h.notify n (hroom n rfl)
    · exact nofun
  | deliver id =>
    rw [arrivals, visits, visits, List.append_nil]
    · exact h.quiet nofun rfl rfl (account_deliver _ id) (account_deliver _ id)
    · exact nofun
  | disconnect id =>
    rw [arrivals, visits, visits, List.append_nil]
    · exact h.disconnect id
    · exact nofun

/-- **So does a run.** -/
theorem attended_run {es : List HubEvent} (hroom : HasRoom es) :
    (run es).Attended (visits 0 es) := by
  induction es using List.reverseRecOn with
  | nil => exact ⟨rfl, rfl, .refl _⟩
  | append_singleton es e ih =>
    rw [run_snoc, visits_snoc, Nat.zero_add]
    refine attended_step (ih hroom.of_snoc) ?_
    rintro n rfl
    exact hroom es n [] rfl

end Hall

/-! ### Room -/

namespace Hall

/-- A queue holds no more notices than there were events. -/
theorem length_queue_le (es : List HubEvent) :
    ∀ s ∈ (run es).hub.subscribers, s.queue.length ≤ es.length := by
  induction es using List.reverseRecOn with
  | nil => exact fun s hs => absurd hs List.not_mem_nil
  | append_singleton es e ih =>
    rw [run_snoc, List.length_append, List.length_singleton]
    cases e with
    | connect message =>
      cases hread : Subscription.read message with
      | error =>
        rw [step_connect_error hread]
        exact fun s hs => (ih s hs).trans (Nat.le_succ _)
      | ok new =>
        rw [step_connect_ok hread]
        intro s hs
        rcases List.mem_append.mp hs with hs | hs
        · exact (ih s hs).trans (Nat.le_succ _)
        · rw [List.mem_singleton.mp hs]
          exact Nat.zero_le _
    | notify n =>
      refine List.forall_mem_map.mpr fun s hs => ?_
      have hs := ih s hs
      rw [Subscriber.offer]
      split_ifs
      · rw [List.length_append, List.length_singleton]
        omega
      · omega
    | deliver id =>
      refine List.forall_mem_map.mpr fun s hs => ?_
      have hs := ih s hs
      have htake : s.take.queue.length ≤ s.queue.length := by
        rw [Subscriber.take.eq_def]
        split <;> simp_all
      split_ifs <;> omega
    | disconnect id =>
      exact fun s hs => (ih s (List.mem_of_mem_filter hs)).trans (Nat.le_succ _)

/-- A run of no more events than a queue has room for has room. -/
theorem hasRoom_of_length {es : List HubEvent} (h : es.length ≤ Subscriber.capacity) :
    HasRoom es := by
  rintro before n after rfl s hs
  have hqueue := length_queue_le before s hs
  rw [List.length_append, List.length_cons] at h
  omega

end Hall

/-! ### The first message -/

/-- A first message is accepted if it says that it subscribes in the version of the messages. -/
theorem Subscription.read_eq_ok_iff {message : String} {s : Subscription} :
    Subscription.read message = .ok s ↔
      Subscription.fields? message = some (⟨"SUBSCRIBE", "1.0"⟩, s.project) := by
  have hbase : (⟨Subscription.type, Notice.version⟩ : BaseMessage) = ⟨"SUBSCRIBE", "1.0"⟩ := rfl
  obtain ⟨wanted⟩ := s
  rw [Subscription.read]
  rcases Subscription.fields? message with - | ⟨base, project⟩
  · simp
  · rw [hbase]
    by_cases h : base = ⟨"SUBSCRIBE", "1.0"⟩ <;> simp [h]

/-! ### Who gets what -/

/-- **Every editor gets what it is due, once and in order, and nobody else gets anything.** Of
everyone who was accepted, what it has taken followed by what waits for it are the notices between
its coming and its going that are for it; those who are there are counted; and who says anything
else first than that it subscribes changes nothing. -/
theorem Hall.run_notices {es : List HubEvent} (hroom : Hall.HasRoom es) :
    ((Hall.run es).everyone.map Subscriber.account).Perm ((visits 0 es).map Visit.account) ∧
    ((visits 0 es).map Visit.id).Nodup ∧
    (Hall.run es).hub.subscribers.map Subscriber.account =
      ((visits 0 es).filter (!·.isOver)).map Visit.account ∧
    (Hall.run es).hub.size = (visits 0 es).countP (!·.isOver) ∧
    ∀ message, (¬ ∃ project,
      Subscription.fields? message = some (⟨"SUBSCRIBE", "1.0"⟩, project)) →
        ∀ g : Hall, g.step (.connect message) = g := by
  have h := Hall.attended_run hroom
  refine ⟨?_, nodup_ids_visits es, h.present, ?_, fun message hother g => ?_⟩
  · rw [Hall.everyone, List.map_append, h.present]
    refine (h.gone.append_left _).trans ?_
    rw [← List.map_append]
    refine (List.perm_append_comm.trans ?_).map _
    exact List.filter_append_perm Visit.isOver _
  · rw [Hub.size, ← List.length_map (f := Subscriber.account), h.present, List.length_map,
      List.countP_eq_length_filter]
  · cases hread : Subscription.read message with
    | error e => exact Hall.step_connect_error hread g
    | ok s => exact absurd ⟨s.project, Subscription.read_eq_ok_iff.mp hread⟩ hother

/-- An editor that wants all notices, one that wants those of a project and goes before the last
one, and one that says the wrong thing. -/
def twoEditors : List HubEvent :=
  [.connect "\x7b\"type\":\"SUBSCRIBE\",\"protocol_version\":\"1.0\"\x7d",
    .notify (.notice "other" "" "first" 0),
    .connect "\x7b\"type\":\"SUBSCRIBE\",\"protocol_version\":\"1.0\",\"project\":\"demo\"\x7d",
    .connect "\x7b\"type\":\"HELLO\",\"protocol_version\":\"1.0\"\x7d",
    .notify (.notice "demo" "" "second" 0), .deliver "N1", .deliver "N2",
    .notify (.notice "other" "" "third" 0), .disconnect "N2",
    .notify (.notice "demo" "" "fourth" 0)]

theorem Hall.run_notices_twoEditors :
    Hall.HasRoom twoEditors ∧
    ((Hall.run twoEditors).everyone.map Subscriber.account).Perm
      [("N1", "", [.notice "other" "" "first" 0, .notice "demo" "" "second" 0,
        .notice "other" "" "third" 0, .notice "demo" "" "fourth" 0]),
        ("N2", "demo", [.notice "demo" "" "second" 0])] ∧
    (Hall.run twoEditors).hub.size = 1 := by
  have hroom : Hall.HasRoom twoEditors := Hall.hasRoom_of_length (by decide)
  have haccounts : (visits 0 twoEditors).map Visit.account =
      [("N1", "", [.notice "other" "" "first" 0, .notice "demo" "" "second" 0,
        .notice "other" "" "third" 0, .notice "demo" "" "fourth" 0]),
        ("N2", "demo", [.notice "demo" "" "second" 0])] := by decide +kernel
  obtain ⟨heveryone, -, -, hsize, -⟩ := Hall.run_notices hroom
  refine ⟨hroom, haccounts ▸ heveryone, hsize.trans ?_⟩
  decide +kernel

end Statuary
