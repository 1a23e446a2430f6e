import Statuary.Json.Fields
import Statuary.Notice.Basic

/-!
# What an editor says first

An editor that wants notices sends one message: that it subscribes, in which version of the
messages, and to which project, or to all (`Statuary.Subscription.read`). Two things can be wrong
with it, and they are told apart: it is no message with these fields at all, or it is a message of
another kind.
-/

namespace Statuary

/-- What every message says of itself. -/
structure BaseMessage where
  /-- The type. -/
  type : String
  /-- The version of the messages. -/
  version : String
  deriving DecidableEq, Repr

/-- What a message in a text says of itself. -/
def BaseMessage.read? (s : String) : Option BaseMessage := do
  let ms ← (← Json.readMessage? s).message?
  return ⟨← Json.textField? "type" ms, ← Json.textField? "protocol_version" ms⟩

/-- A wish for notices. -/
structure Subscription where
  /-- The project that the notices are of; empty for all. -/
  project : String
  deriving DecidableEq, Repr

/-- Why a first message is refused. -/
inductive SubscriptionError where
  /-- It is no message with the right fields. -/
  | malformed
  /-- It is a message of another kind or version. -/
  | unexpected
  deriving DecidableEq, Repr

/-- The text of a refusal. -/
def SubscriptionError.message : SubscriptionError → String
  | malformed => "bad subscribe"
  | unexpected => "expected SUBSCRIBE"

namespace Subscription

/-- The type of the message. -/
def type : String := "SUBSCRIBE"

/-- The project in a message, and what the message says of itself. -/
def fields? (s : String) : Option (BaseMessage × String) := do
  let base ← BaseMessage.read? s
  let ms ← (← Json.readMessage? s).message?
  return (base, ← Json.textField? "project" ms)

/-- **Reading the first message.** -/
def read (s : String) : Except SubscriptionError Subscription :=
  match fields? s with
  | none => .error .malformed
  | some (base, project) =>
    if base = ⟨type, Notice.version⟩ then .ok ⟨project⟩ else .error .unexpected

end Subscription

end Statuary
