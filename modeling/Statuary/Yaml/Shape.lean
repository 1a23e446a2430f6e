import Statuary.Assoc
import Statuary.Yaml.Reading

/-!
# The shapes of documents

A place in a document wants a value of one type. A `Statuary.Yaml.Shape` says how a node is read
there, over the value that the place has before: it gives the new value, or **nothing**, and then
the place keeps what it had. Nothing is said by `null`, and by a value of the wrong type, which is a
mistake besides.

Shapes are put together: `Statuary.Yaml.Shape.list`, `Statuary.Yaml.Shape.table` and
`Statuary.Yaml.Shape.record` take the shapes of what they contain. Reading a text by a shape is
`Statuary.Yaml.readAs`.
-/

namespace Statuary.Yaml

open Reading

/-- How a node that is no reference is read over a value. -/
abbrev Shape (α : Type) := α → Node → Reading (Option α)

/-- A part of a value of type `ρ` that a document can give by name. -/
structure Field (ρ : Type) where
  /-- The name. -/
  name : String
  /-- Reads a node into the part. -/
  read : ρ → Node → Reading ρ

/-- A field with a shape, a way to see the part and a way to change it. -/
def Field.of {ρ α : Type} (name : String) (shape : Shape α) (get : ρ → α) (set : ρ → α → ρ) :
    Field ρ where
  name := name
  read r n := do
    match ← visit (shape (get r)) n with
    | some a => return set r a
    | none => return r

namespace Shape

/-! ### Scalars -/

/-- A scalar, of which `f` gives the value by its letters and its meaning. -/
def scalar {α : Type} (f : String → Value → Option α) : Shape α := fun _ n => do
  match n with
  | .scalar type s plain =>
    match ← readScalar type s plain with
    | .null => return none
    | v =>
      match f s v with
      | some a => return some a
      | none =>
        mistake
        return none
  | _ =>
    mistake
    return none

/-- A text: any scalar counts by its letters. -/
def text : Shape String := fun _ n => readText n

/-- The whole part of a number, as a number of 64 bits; out of range it is the least one. -/
def truncated (x : Double) : Option Int64 :=
  match x with
  | .nan => none
  | .infinite negative => if negative then some Int64.minValue else none
  | .finite s m q _ =>
    let (n, d) := scaleDown m 1 (-q)
    let whole : Int := if s then -((n / d : Nat) : Int) else (n / d : Nat)
    if whole ≤ signedBound 64 then
      some (if isSigned 64 whole then Int64.ofInt whole else Int64.minValue)
    else none

/-- A whole number of 64 bits; a floating-point number is cut. -/
def whole : Shape Int64 :=
  scalar fun _ v => match v with
    | .int n => if n < signedBound 64 then some (Int64.ofInt n) else none
    | .float x => truncated x
    | _ => none

/-- A floating-point number; whole numbers count. -/
def number : Shape Double :=
  scalar fun _ v => match v with
    | .int n => some (.ofInt n)
    | .float x => some x
    | _ => none

/-- A truth value; some words count beside the usual two. -/
def truth : Shape Bool :=
  scalar fun _ v => match v with
    | .bool b => some b
    | .text s =>
      if ["y", "Y", "yes", "Yes", "YES", "on", "On", "ON"].contains s then some true
      else if ["n", "N", "no", "No", "NO", "off", "Off", "OFF"].contains s then some false
      else none
    | _ => none

/-- The node says nothing. -/
def isNull : Node → Reading Bool
  | .scalar type s plain => return (← readScalar type s plain) == .null
  | _ => return false

/-- A value that may be missing: `null` takes it away. -/
def optional {α : Type} (shape : Shape α) (start : α) : Shape (Option α) := fun _ n => do
  if ← isNull n then return some none
  return (← shape start n).map some

/-! ### Collections -/

/-- What a node that is no collection gives for one: `null` gives `nothing`. -/
def unlessNull {α : Type} (nothing : Option α) (n : Node) : Reading (Option α) := do
  if ← isNull n then return nothing
  mistake
  return none

/-- Items, each read over `start`; those that say nothing are left out. -/
def list {α : Type} (shape : Shape α) (start : α) : Shape (List α) := fun _ n => do
  match n with
  | .sequence _ items => return some ((← items.mapM (visit (shape start))).filterMap id)
  | n => unlessNull (some []) n

/-- Exactly `count` items, as a list from which those that say nothing are left out. -/
def exactly {α : Type} (count : Nat) (shape : Shape α) (start : α) : Shape (List α) := fun _ n => do
  match n with
  | .sequence _ items =>
    if items.length ≠ count then fail .malformed
    return some ((← items.mapM (visit (shape start))).filterMap id)
  | n => unlessNull none n

/-- The entries of a mapping, taken in by a reader whose keys are texts. -/
def mapping {σ : Type} (value : EntryContext → String → Node → σ → Reading σ)
    (es : List (Node × Node)) (s : σ) : Reading (Option σ) := do
  if Node.repeatsKey es then
    mistake
    return none
  let bound := (← read).bound
  let reader : EntryReader σ := {
    key := readTextKey
    value := fun context key n s => match key with
      | .text name => value context name n s
      | _ => return s
    looseKey := readLoose bound }
  return some (← reader.entries false bound es s)

/-- A mapping from names to values, each read over `start`. A name that says nothing gets `start`,
unless it has a value and this is merged in. -/
def table {α : Type} (shape : Shape α) (start : α) : Shape (List (String × α)) := fun old n => do
  match n with
  | .mapping _ es => mapping entry es old
  | n => unlessNull (some []) n
where
  /-- Takes in the value of a name. -/
  entry (context : EntryContext) (name : String) (n : Node) (es : List (String × α)) :
      Reading (List (String × α)) := do
    match ← visit (shape start) n with
    | some a => return Assoc.put name a es
    | none =>
      let null := (← read).typeName n == some "!!null"
      if null && !(context.merged && Assoc.has name es) then return Assoc.put name start es
      return es

/-- A value with fields. Names of no field are passed over; a field that is named twice is a
mistake. -/
def record {ρ : Type} (fields : List (Field ρ)) : Shape ρ := fun old n => do
  match n with
  | .mapping _ es => mapping entry es old
  | n => unlessNull none n
where
  /-- Takes in the value of a field. -/
  entry (context : EntryContext) (name : String) (n : Node) (r : ρ) : Reading ρ := do
    match fields.find? (·.name == name) with
    | none => return r
    | some f =>
      if context.repeated then
        mistake
        return r
      f.read r n

end Shape

/-- **Reading the first document of a text** by a shape, over a value. A text without a document
leaves the value as it is. -/
def readAs {α : Type} (shape : Shape α) (start : α) (text : String) : Except Fault α :=
  match (Utf8.string? text).bind read? with
  | none => .error .malformed
  | some none => .ok start
  | some (some d) =>
    let reading : Reading (Option α) := do
      step
      visit (shape start) d.root
    match (reading d).run {} with
    | .error f => .error f
    | .ok (a, p) => if p.mistaken then .error .malformed else .ok (a.getD start)

end Statuary.Yaml
