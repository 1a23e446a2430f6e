import Statuary.Notice.Subscription

/-!
# Handing out notices

The hub knows the editors that have subscribed. A notice is **queued for every editor whose
subscription covers its project**, and each editor takes its notices from its own queue, in order. A
queue has room for a fixed number of notices; an editor that is so slow that its queue is full
misses the next one, and nobody waits for it.

What an editor has taken is kept here beside its queue, so that "received, then queued" is one list.
-/

namespace Statuary

/-- An editor that has subscribed. -/
structure Subscriber where
  /-- The id that the hub gave it. -/
  id : String
  /-- The project it wants notices of; empty for all. -/
  project : String
  /-- The notices it has taken, the oldest one first. -/
  received : List Notice := []
  /-- The notices that wait for it, the oldest one first. -/
  queue : List Notice := []
  deriving DecidableEq, Repr

/-- The hub. -/
structure Hub where
  /-- How many editors have subscribed so far. A counter of 64 bits would begin again after more
  editors than can come; this one has no end. -/
  accepted : Nat := 0
  /-- The editors that are there. -/
  subscribers : List Subscriber := []
  deriving DecidableEq, Repr

namespace Subscriber

/-- The room of a queue. -/
def capacity : Nat := 64

/-- The subscription covers a notice. -/
def covers (s : Subscriber) (n : Notice) : Bool :=
  s.project = "" || s.project = n.project

/-- The editor after a notice. -/
def offer (s : Subscriber) (n : Notice) : Subscriber :=
  if s.covers n && s.queue.length < capacity then { s with queue := s.queue ++ [n] } else s

/-- The editor after it has taken a notice, if one waits. -/
def take (s : Subscriber) : Subscriber :=
  match s.queue with
  | [] => s
  | n :: rest => { s with received := s.received ++ [n], queue := rest }

end Subscriber

namespace Hub

/-- The number of editors. -/
def size (h : Hub) : Nat := h.subscribers.length

/-- The id of the next editor. -/
def nextId (h : Hub) : String := "N" ++ toString (h.accepted + 1)

/-- **An editor comes** with a first message; the result has its id. The id is given and the editor
entered in one step. Were they two, editors that come at once could be entered in another order than
that of their ids, on which nothing depends: every editor has a queue of its own. -/
def connect (h : Hub) (message : String) : Except SubscriptionError (String × Hub) :=
  (Subscription.read message).map fun s =>
    (h.nextId, ⟨h.accepted + 1, h.subscribers ++ [{ id := h.nextId, project := s.project }]⟩)

/-- The line of the log about an editor that came. -/
def connectText (id project : String) : String :=
  "notify: " ++ id ++ " subscribed project=" ++ quoted project

/-- **A notice comes.** -/
def notify (h : Hub) (n : Notice) : Hub :=
  { h with subscribers := h.subscribers.map (·.offer n) }

/-- An editor takes a notice from its queue. -/
def deliver (h : Hub) (id : String) : Hub :=
  { h with subscribers := h.subscribers.map fun s => if s.id = id then s.take else s }

/-- An editor goes. -/
def disconnect (h : Hub) (id : String) : Hub :=
  { h with subscribers := h.subscribers.filter (·.id ≠ id) }

end Hub

/-- What can happen to a hub. -/
inductive HubEvent where
  /-- An editor comes with a first message. -/
  | connect (message : String)
  /-- A notice comes. -/
  | notify (n : Notice)
  /-- An editor takes a notice. -/
  | deliver (id : String)
  /-- An editor goes. -/
  | disconnect (id : String)
  deriving DecidableEq, Repr

namespace Hub

/-- The hub after something has happened; an editor that is refused changes nothing. -/
def step (h : Hub) : HubEvent → Hub
  | .connect message =>
    match h.connect message with
    | .ok (_, h) => h
    | .error _ => h
  | .notify n => h.notify n
  | .deliver id => h.deliver id
  | .disconnect id => h.disconnect id

end Hub

end Statuary
