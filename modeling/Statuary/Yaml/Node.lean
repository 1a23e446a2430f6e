import Statuary.Yaml.Token

/-!
# The tree of a document

The tokens of the first document of a text become a tree of scalars, sequences and mappings
(`Statuary.Yaml.Document`). Later documents are not looked at, except that the token after the first
one must be there.

An anchor may be referred to inside its own node, and one name may be given to several nodes. So a
reference does not hold the node that it stands for but its number among the anchored nodes: that of
the last node of the name whose beginning stands before the reference. Each reference has a number
of its own too, by which a reader notices that it came back to the same place.
-/

namespace Statuary.Yaml

/-- A node of a document. The name of a type is in its short form; one that says nothing is left
out. -/
inductive Node where
  /-- A scalar; an empty place is the plain empty text. -/
  | scalar (type : Option String) (text : String) (plain : Bool)
  /-- Items. -/
  | sequence (type : Option String) (items : List Node)
  /-- Keys and values, in order and with repetitions. -/
  | mapping (type : Option String) (entries : List (Node × Node))
  /-- The reference with a number, to an anchored node with a number. -/
  | alias (name : String) (place target : Nat)

/-- An empty place. -/
def Node.empty : Node := .scalar none "" true

/-- A document. -/
structure Document where
  /-- The node around everything. -/
  root : Node
  /-- The nodes with an anchor, in the order of their beginnings. -/
  anchored : Array Node
  /-- No way through the document that takes every reference at most once is longer. -/
  bound : Nat

/-! ### Building -/

/-- What is known while the nodes of a document are put together. -/
structure Builder where
  /-- The tokens left. -/
  tokens : List Token
  /-- What handles stand for. -/
  handles : Handles := .standard
  /-- The names of anchors, the last one first, with the numbers of their nodes. -/
  names : List (String × Nat) := []
  /-- The nodes with an anchor, empty while they are not finished. -/
  anchored : Array Node := #[]
  /-- How many references there were. -/
  places : Nat := 0

/-- An action on tokens; nothing if they are no document. -/
abbrev Build := StateT Builder Option

namespace Build

/-- The next token. -/
def peek : Build Token := do
  match (← get).tokens with
  | t :: _ => return t
  | [] => failure

/-- Goes over a token. -/
def skip : Build Unit :=
  modify fun b => { b with tokens := b.tokens.drop 1 }

/-- Goes over a token that must be there. -/
def expect (t : Token) : Build Unit := do
  if (← peek) == t then skip else failure

/-- The next token is one of those after which a key, value or item is empty. -/
def atOneOf (ends : List Token) : Build Bool :=
  return ends.contains (← peek)

/-- A node begins that has an anchor; its number. -/
def openAnchor (name : String) : Build Nat :=
  modifyGet fun b =>
    let n := b.anchored.size
    (n, { b with names := (name, n) :: b.names, anchored := b.anchored.push .empty })

/-- The node with an anchor is finished. -/
def closeAnchor (n : Nat) (node : Node) : Build Unit :=
  modify fun b => { b with anchored := b.anchored.setIfInBounds n node }

/-- A reference to an anchor. -/
def reference (name : String) : Build Node := do
  let b ← get
  match b.names.lookup name with
  | none => failure
  | some target =>
    set { b with places := b.places + 1 }
    return .alias name b.places target

/-- The type that a name in front of a node gives it. -/
def typeOf (t : TypeName) : Build (Option String) := do
  match t.full? (← get).handles with
  | none => failure
  | some name => return if name = "!" then none else some (shortType name)

/-- The anchor and type in front of a node. -/
structure Properties where
  /-- The name of the anchor. -/
  anchor : Option String := none
  /-- The name of the type as it is written. -/
  tag : Option TypeName := none

/-- Reads the properties in front of a node, in either order. -/
def properties : Build Properties := do
  match ← peek with
  | .anchor a =>
    skip
    match ← peek with
    | .tag t =>
      skip
      return ⟨some a, some t⟩
    | _ => return ⟨some a, none⟩
  | .tag t =>
    skip
    match ← peek with
    | .anchor a =>
      skip
      return ⟨some a, some t⟩
    | _ => return ⟨none, some t⟩
  | _ => return {}

mutual

/-- Reads a node. `block` says whether collections by indentation may start here, `indentless`
whether the items of a sequence may stand at the column of the key around it. -/
def node (block indentless : Bool) : Nat → Build Node
  | 0 => failure
  | fuel + 1 => do
    if let .alias name := ← peek then
      skip
      return ← reference name
    let props ← properties
    let type ← match props.tag with
      | some t => typeOf t
      | none => pure none
    let mayBeEmpty := props.anchor.isSome || props.tag.isSome
    match props.anchor with
    | none => content block indentless mayBeEmpty type fuel
    | some a =>
      let n ← openAnchor a
      let node ← content block indentless mayBeEmpty type fuel
      closeAnchor n node
      return node

/-- Reads a node after its properties. -/
def content (block indentless mayBeEmpty : Bool) (type : Option String) : Nat → Build Node
  | 0 => failure
  | fuel + 1 => do
    match ← peek with
    | .scalar text plain =>
      skip
      return .scalar type text plain
    | .flowSequence =>
      skip
      return .sequence type (← flowItems fuel true [])
    | .flowMapping =>
      skip
      return .mapping type (← flowEntries fuel true [])
    | t =>
      if indentless && t == .entry then return .sequence type (← items true fuel [])
      else if block && t == .blockSequence then
        skip
        return .sequence type (← items false fuel [])
      else if block && t == .blockMapping then
        skip
        return .mapping type (← entries fuel [])
      else if mayBeEmpty then return .scalar type "" true
      else failure

/-- Reads the items of a sequence by indentation, after those in `done`. A sequence without an
indentation of its own ends where the items end, any other with its closing token. -/
def items (indentless : Bool) : Nat → List Node → Build (List Node)
  | 0, _ => failure
  | fuel + 1, done => do
    match ← peek with
    | .entry =>
      skip
      let ends := if indentless then [.entry, .key, .value, .blockEnd] else [.entry, .blockEnd]
      let item ← if ← atOneOf ends then pure .empty else node true false fuel
      items indentless fuel (item :: done)
    | t =>
      if indentless then return done.reverse
      else if t == .blockEnd then
        skip
        return done.reverse
      else failure

/-- Reads the entries of a mapping by indentation, after those in `done`. -/
def entries : Nat → List (Node × Node) → Build (List (Node × Node))
  | 0, _ => failure
  | fuel + 1, done => do
    match ← peek with
    | .blockEnd =>
      skip
      return done.reverse
    | .key =>
      skip
      let key ← blockPart fuel
      let value ←
        if (← peek) == .value then
          skip
          blockPart fuel
        else pure .empty
      entries fuel ((key, value) :: done)
    | _ => failure

/-- Reads a key or value of a mapping by indentation, after its mark. -/
def blockPart : Nat → Build Node
  | 0 => failure
  | fuel + 1 => do
    if ← atOneOf [.key, .value, .blockEnd] then return .empty
    node true true fuel

/-- Reads the items of a sequence between brackets, after those in `done`. -/
def flowItems : Nat → Bool → List Node → Build (List Node)
  | 0, _, _ => failure
  | fuel + 1, first, done => do
    if (← peek) == .flowSequenceEnd then
      skip
      return done.reverse
    unless first do expect .comma
    match ← peek with
    | .flowSequenceEnd =>
      skip
      return done.reverse
    | .key =>
      skip
      let pair ← flowPair fuel
      flowItems fuel false (pair :: done)
    | _ =>
      let item ← node false false fuel
      flowItems fuel false (item :: done)

/-- Reads a key and a value that are an item of a sequence between brackets. An empty key takes the
token after it along, whatever it is. -/
def flowPair : Nat → Build Node
  | 0 => failure
  | fuel + 1 => do
    let key ←
      if ← atOneOf [.value, .comma, .flowSequenceEnd] then
        skip
        pure .empty
      else node false false fuel
    let value ← flowValue .flowSequenceEnd fuel
    return .mapping none [(key, value)]

/-- Reads the entries of a mapping between braces, after those in `done`. -/
def flowEntries : Nat → Bool → List (Node × Node) → Build (List (Node × Node))
  | 0, _, _ => failure
  | fuel + 1, first, done => do
    if (← peek) == .flowMappingEnd then
      skip
      return done.reverse
    unless first do expect .comma
    match ← peek with
    | .flowMappingEnd =>
      skip
      return done.reverse
    | .key =>
      skip
      let key ←
        if ← atOneOf [.value, .comma, .flowMappingEnd] then pure .empty
        else node false false fuel
      let value ← flowValue .flowMappingEnd fuel
      flowEntries fuel false ((key, value) :: done)
    | _ =>
      let key ← node false false fuel
      flowEntries fuel false ((key, .empty) :: done)

/-- Reads the value of an entry between brackets that end with the given token. -/
def flowValue (close : Token) : Nat → Build Node
  | 0 => failure
  | fuel + 1 => do
    if (← peek) == .value then
      skip
      if ← atOneOf [.comma, close] then return .empty
      node false false fuel
    else return .empty

end

/-- Reads the directives in front of a document. A handle may be given a meaning once, and one of
the standard handles keeps the meaning that it was given. `versioned` says whether there was a
version. -/
def directives : Nat → Bool → Handles → Build Unit
  | 0, _, _ => failure
  | fuel + 1, versioned, handles => do
    match ← peek with
    | .directive (.version major minor) =>
      if versioned || major != 1 || minor != 1 then failure
      skip
      directives fuel true handles
    | .directive (.handle name stands) =>
      if (handles.lookup name).isSome then failure
      skip
      directives fuel versioned ((name, stands) :: handles)
    | _ => modify fun b => { b with handles := handles ++ .standard }

/-- The token is one before which a document that has started is empty. -/
def endsDocument : Token → Bool
  | .directive _ => true
  | .documentStart => true
  | .documentEnd => true
  | .streamEnd => true
  | _ => false

/-- Reads the first document, if there is one. -/
def document (fuel : Nat) : Build (Option Node) := do
  let root ← match ← peek with
    | .streamEnd => return none
    | .documentStart => started
    | .directive _ => started
    | _ => node true false fuel
  discard peek
  return some root
where
  /-- Reads a document with a mark at its start. -/
  started : Build Node := do
    directives fuel false []
    expect .documentStart
    if endsDocument (← peek) then return .empty
    node true false fuel

end Build

/-- **Reading the first document of a text.** The outer option is for malformed texts, the inner one
for texts without any document. -/
def read? (text : String) : Option (Option Document) :=
  let ts := tokens text
  match (Build.document (4 * ts.length + 8)).run { tokens := ts } with
  | none => none
  | some (none, _) => some none
  | some (some root, b) => some (some ⟨root, b.anchored, (b.places + 1) * (ts.length + 8)⟩)

end Statuary.Yaml
