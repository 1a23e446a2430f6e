import Statuary.Yaml.Value

/-!
# Going through a document

A document is read node by node, and every node that is looked at is a **step**. References are
followed, but not without end: a reference that is met again while it is being followed is a fault,
and so is a document most of whose steps are made inside references
(`Statuary.Yaml.Progress.isExcessive`).

There are two kinds of trouble. A value that is not of the wanted type is a *mistake*: reading goes
on, to find further trouble, and fails in the end. A `Statuary.Yaml.Fault` ends reading at once.

The obstacle is the key `<<`, which merges other mappings into one. The keys of a mapping win over
those merged in, and the first of several merged ones wins, so while mappings are merged the keys
that are already **covered** are remembered. They are remembered by their meaning and not by their
letters: the number one does not cover the text `1`. Only scalars can be remembered so, and a
collection as a key is a fault of its own then.

* `Statuary.Yaml.visit` takes a step, following a reference;
* `Statuary.Yaml.readEntries` reads the entries of a mapping with those merged in;
* `Statuary.Yaml.readLoose` reads a node of which no type is wanted.
-/

namespace Statuary.Yaml

/-! ### Trouble -/

/-- A kind of collection that no type is wanted of. -/
inductive Collection where
  /-- Items. -/
  | list
  /-- Entries whose keys are texts. -/
  | textTable
  /-- Entries whose keys are any scalars. -/
  | table
  deriving DecidableEq, Repr

/-- Why reading a document ends. -/
inductive Fault where
  /-- The text is no document, or a value is not of the type that its place wants. -/
  | malformed
  /-- A collection is a key of a mapping into which others are merged. -/
  | collectionKey (kind : Collection)
  deriving DecidableEq, Repr

/-- How a kind of collection is called. -/
def Collection.name : Collection → String
  | list => "[]interface \x7b\x7d"
  | textTable => "map[string]interface \x7b\x7d"
  | table => "map[interface \x7b\x7d]interface \x7b\x7d"

/-- What is said of a collection as a key. -/
def Collection.complaint (kind : Collection) : String :=
  "runtime error: hash of unhashable type " ++ kind.name

/-! ### Steps -/

/-- How far reading has come. -/
structure Progress where
  /-- How many steps were made. -/
  steps : Nat := 0
  /-- How many of them were made inside references. -/
  referred : Nat := 0
  /-- The references that are being followed, the innermost one first. -/
  following : List Nat := []
  /-- A value was not of the type that its place wants. -/
  mistaken : Bool := false
  /-- While mappings are merged, the keys that further ones are not read for. -/
  covered : Option (List Value) := none

/-- Too many steps were made inside references: more than 99 of 100, in a document of many steps
fewer, down to 10 of 100. Small documents are not looked at. -/
def Progress.isExcessive (p : Progress) : Bool :=
  100 < p.referred && 1000 < p.steps &&
    if p.steps ≤ 400000 then 99 * p.steps < 100 * p.referred
    else if 4000000 ≤ p.steps then p.steps < 10 * p.referred
    else p.steps * (99 * 3600000 - 89 * (p.steps - 400000)) < 100 * 3600000 * p.referred

/-- An action on a document. -/
abbrev Reading := ReaderT Document (StateT Progress (Except Fault))

namespace Reading

/-- Ends reading. -/
def fail {α : Type} (f : Fault) : Reading α := throw f

/-- A value is not of the type that its place wants. -/
def mistake : Reading Unit :=
  modify fun p => { p with mistaken := true }

/-- Makes a step. -/
def step : Reading Unit := do
  let p ← get
  let p := { p with
    steps := p.steps + 1
    referred := if p.following.isEmpty then p.referred else p.referred + 1 }
  if p.isExcessive then fail .malformed
  set p

/-- Sets the keys that are covered. -/
def cover (keys : Option (List Value)) : Reading Unit :=
  modify fun p => { p with covered := keys }

/-- Goes into a reference, given its number. -/
def enter (place : Nat) : Reading Unit :=
  modify fun p => { p with following := place :: p.following }

/-- Comes back out of a reference. -/
def leave : Reading Unit :=
  modify fun p => { p with following := p.following.drop 1 }

/-- The node that a reference stands for. -/
def anchored (target : Nat) : Reading Node := do
  match (← read).anchored[target]? with
  | some n => return n
  | none => fail .malformed

end Reading

open Reading

/-- **A step to a node**, which `f` reads; for a reference, two steps, and `f` reads the node that
it stands for. -/
def visit {α : Type} (f : Node → Reading α) (n : Node) : Reading α := do
  step
  match n with
  | .alias _ place target =>
    if (← get).following.contains place then fail .malformed
    let n ← anchored target
    enter place
    step
    let a ← f n
    leave
    return a
  | n => f n

/-- What a scalar means. -/
def readScalar (type : Option String) (s : String) (plain : Bool) : Reading Value :=
  match scalarValue? type s plain with
  | some v => return v
  | none => fail .malformed

/-- Reads a text: any scalar counts by its letters. Nothing for what says nothing. -/
def readText : Node → Reading (Option String)
  | .scalar type s plain => do
    match ← readScalar type s plain with
    | .null => return none
    | .text t => return some t
    | _ => return some (Utf8.ofString s)
  | _ => do
    mistake
    return none

/-! ### Mappings -/

/-- A node of which no type is wanted. -/
inductive Loose where
  /-- A scalar. -/
  | scalar (v : Value)
  /-- A collection. -/
  | collection (kind : Collection)

/-- Reads a text as a key. -/
def readTextKey (n : Node) : Reading (Option Loose) :=
  return (← visit readText n).map fun s => .scalar (.text s)

/-- What is known of an entry of a mapping besides its key and value. -/
structure EntryContext where
  /-- There was an entry with the same key before in the mapping. -/
  repeated : Bool
  /-- The mapping is merged into another one. -/
  merged : Bool

/-- How the entries of a mapping are read, a value of type `σ` taking them in. -/
structure EntryReader (σ : Type) where
  /-- Reads a key. -/
  key : Node → Reading (Option Loose)
  /-- Reads the value of an entry with a key. -/
  value : EntryContext → Value → Node → σ → Reading σ
  /-- Reads a key of which no type is wanted. -/
  looseKey : Node → Reading (Option Loose)

namespace EntryReader

variable {σ : Type} (r : EntryReader σ)

/-- Reads the entries of a mapping but those that merge others in. `covered` are the keys that are
covered, to which those read are added, and `seen` the keys before. -/
def ownEntries (merged : Bool) :
    List (Node × Node) → Option (List Value) → List Value → σ → Reading (Option (List Value) × σ)
  | [], covered, _, s => return (covered, s)
  | (k, v) :: es, covered, seen, s => do
    if k.isMerge then ownEntries merged es covered seen s
    else match ← r.key k with
      | none => ownEntries merged es covered seen s
      | some (.collection kind) => fail (if covered.isSome then .collectionKey kind else .malformed)
      | some (.scalar key) =>
        if (covered.getD []).any key.same then ownEntries merged es covered seen s
        else
          let s ← r.value ⟨seen.any key.same, merged⟩ key v s
          ownEntries merged es (covered.map (key :: ·)) (key :: seen) s

/-- The keys of a mapping cover those of the mappings that are merged into it. -/
def coverKeys : List (Node × Node) → Reading Unit
  | [] => return
  | (k, _) :: es => do
    match ← r.looseKey k with
    | none => pure ()
    | some (.scalar key) => modify fun p => { p with covered := p.covered.map (key :: ·) }
    | some (.collection kind) => fail (.collectionKey kind)
    coverKeys es

/-- A node is a mapping or a reference to one. -/
def isMapping : Node → Reading Bool
  | .mapping _ _ => return true
  | .alias _ _ target => do
    match ← anchored target with
    | .mapping _ _ => return true
    | _ => return false
  | _ => return false

/-- The mappings that a value of `<<` merges in: one, or a sequence of them. -/
def mergedNodes : Node → List Node
  | .sequence _ ns => ns
  | n => [n]

mutual

/-- **Reads the entries of a mapping** with those merged in. -/
def entries (merged : Bool) : Nat → List (Node × Node) → σ → Reading σ
  | 0, _, _ => fail .malformed
  | fuel + 1, es, s => do
    let covered := (← get).covered
    cover none
    let (covered, s) ← r.ownEntries merged es covered [] s
    cover covered
    match (es.filter (·.1.isMerge)).getLast? with
    | none => return s
    | some (_, v) =>
      if covered.isSome then merge fuel (mergedNodes v) s
      else
        cover (some [])
        r.coverKeys es
        let s ← merge fuel (mergedNodes v) s
        cover none
        return s

/-- Merges mappings in, one after the other. -/
def merge : Nat → List Node → σ → Reading σ
  | 0, _, _ => fail .malformed
  | _ + 1, [], s => return s
  | fuel + 1, n :: ns, s => do
    if !(← isMapping n) then fail .malformed
    let s ← visit (fun n => match n with
      | .mapping _ es => do
        if Node.repeatsKey es then
          mistake
          return s
        entries true fuel es s
      | _ => fail .malformed) n
    merge fuel ns s

end

end EntryReader

/-- Whether all keys of a mapping are texts, or merge others in. -/
def hasTextKeys (es : List (Node × Node)) : Reading Bool := do
  let d ← read
  return es.all fun (k, _) => (d.typeName k).any fun t => t == "!!str" || t == "!!merge"

/-- **Reads a node of which no type is wanted.** -/
def readLoose : Nat → Node → Reading (Option Loose)
  | 0, _ => fail .malformed
  | fuel + 1, n => visit (fun n => match n with
    | .scalar type s plain => return some (.scalar (← readScalar type s plain))
    | .sequence _ items => do
      items.forM fun n => discard (readLoose fuel n)
      return some (.collection .list)
    | .mapping _ es => do
      if Node.repeatsKey es then
        mistake
        return none
      let textKeys ← hasTextKeys es
      let reader : EntryReader Unit := {
        key := if textKeys then readTextKey else readLoose fuel
        value := fun _ _ v _ => discard (readLoose fuel v)
        looseKey := readLoose fuel }
      reader.entries false fuel es ()
      return some (.collection (if textKeys then .textTable else .table))
    | .alias .. => fail .malformed) n

end Statuary.Yaml
