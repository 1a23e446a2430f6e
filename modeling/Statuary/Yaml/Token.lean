import Statuary.Yaml.Directive

/-!
# The tokens of a document

Indentation and brackets are turned into a sequence of tokens first: collections open and close by
tokens of their own, whether they are written with brackets or by indentation.

The obstacle is the **simple key**. That a scalar, or a whole bracketed collection, is a key of a
mapping is only seen at the colon after it, on the same line. So every place where a key could start
is remembered (`Statuary.Yaml.SimpleKey`), and when a colon comes the tokens that open the mapping
and the key are inserted there, before tokens that were already read.

A document is read only as far as it is needed. A token leaves the queue
(`Statuary.Yaml.TokenQueue`) when two more have been read after it and it cannot turn out to start a
key; a text that becomes malformed later on still has the tokens that left the queue before.
-/

namespace Statuary.Yaml

/-- A token of a document. -/
inductive Token where
  /-- The end of the text. -/
  | streamEnd
  /-- The mark that starts a document. -/
  | documentStart
  /-- The mark that ends a document. -/
  | documentEnd
  /-- A line that tells how to read the document. -/
  | directive (d : Directive)
  /-- A sequence by indentation starts. -/
  | blockSequence
  /-- A mapping by indentation starts. -/
  | blockMapping
  /-- A collection by indentation ends. -/
  | blockEnd
  /-- An opening bracket. -/
  | flowSequence
  /-- A closing bracket. -/
  | flowSequenceEnd
  /-- An opening brace. -/
  | flowMapping
  /-- A closing brace. -/
  | flowMappingEnd
  /-- The dash of an item. -/
  | entry
  /-- A comma between brackets. -/
  | comma
  /-- A key follows. -/
  | key
  /-- A value follows. -/
  | value
  /-- A reference to an anchor. -/
  | alias (name : String)
  /-- A name for the node that follows. -/
  | anchor (name : String)
  /-- A type for the node that follows. -/
  | tag (name : TypeName)
  /-- A scalar; plain ones may be numbers and the like. -/
  | scalar (text : String) (plain : Bool)
  deriving DecidableEq, Repr

/-- A place where a key may have started. -/
structure SimpleKey where
  /-- A key may have started; if not, the other fields tell what was there before. -/
  possible : Bool := false
  /-- There must be a key here: the line starts at the indentation of a mapping. -/
  required : Bool := false
  /-- The number of the first token of the key. -/
  token : Nat := 0
  /-- Where the key starts. -/
  index : Nat := 0
  /-- The line on which the key starts. -/
  line : Nat := 0
  /-- The column at which the key starts. -/
  column : Nat := 0

/-- The tokens read so far, and what decides how to go on. -/
structure TokenQueue where
  /-- What is left of the text. -/
  cursor : Cursor
  /-- The tokens, from the first one of the text. -/
  tokens : Array Token := #[]
  /-- How many of them have left the queue. -/
  left : Nat := 0
  /-- The column of the innermost collection by indentation. -/
  indent : Int := -1
  /-- The columns of the collections around it, with their number. -/
  indents : List Int := []
  /-- How many collections by indentation are open. -/
  depth : Nat := 0
  /-- For the outside and for each open bracket, the place where a key may have started. -/
  keys : Array SimpleKey := #[{}]
  /-- The numbers of tokens that may start a key, each with the place in `keys` that tells so. -/
  awaited : List (Nat × Nat) := []
  /-- A key may start here. -/
  keyAllowed : Bool := true

namespace TokenQueue

/-- The most brackets, and the most collections by indentation, that may be open at once. -/
def maxDepth : Nat := 10000

/-- The place is between brackets. -/
def inFlow (s : TokenQueue) : Bool :=
  1 < s.keys.size

/-- Adds a token. -/
def emit (s : TokenQueue) (t : Token) : TokenQueue :=
  { s with tokens := s.tokens.push t }

/-- Inserts a token before token number `n`, or at the end if that one has left the queue. -/
def insert (s : TokenQueue) (n : Nat) (t : Token) : TokenQueue :=
  if s.left ≤ n then { s with tokens := s.tokens.insertIdxIfInBounds n t } else s.emit t

/-- Goes along the text. -/
def walk {α : Type} (s : TokenQueue) (w : Walk α) : Option (α × TokenQueue) :=
  (w s.cursor).map fun (a, c) => (a, { s with cursor := c })

/-- Goes along the text by an action without a result. -/
def pass (s : TokenQueue) (w : Walk Unit) : Option TokenQueue :=
  (s.walk w).map (·.2)

/-! ### Keys -/

/-- The place where a key may have started at the level of the place. -/
def currentKey (s : TokenQueue) : SimpleKey :=
  s.keys.back?.getD {}

/-- Replaces that place. -/
def setKey (s : TokenQueue) (k : SimpleKey) : TokenQueue :=
  { s with keys := s.keys.pop.push k }

/-- Token number `n` is no longer one that may start a key. -/
def settle (s : TokenQueue) (n : Nat) : TokenQueue :=
  { s with awaited := s.awaited.filter (·.1 != n) }

/-- A key that started at a place can still end here: on the same line, within 1024 characters. -/
def isFresh (s : TokenQueue) (k : SimpleKey) : Bool :=
  s.cursor.line ≤ k.line && s.cursor.index ≤ k.index + 1024

/-- Whether the key of a level can still be one; malformed if it had to be one and cannot. -/
def checkKey (s : TokenQueue) (level : Nat) : Option (Bool × TokenQueue) :=
  let k := s.keys.getD level {}
  if !k.possible then some (false, s)
  else if s.isFresh k then some (true, s)
  else if k.required then none
  else some (false, { s with keys := s.keys.modify level ({ · with possible := false }) })

/-- No key started; malformed if there had to be one. -/
def dropKey (s : TokenQueue) : Option TokenQueue :=
  let k := s.currentKey
  if !k.possible then some s
  else if k.required then none
  else some ((s.setKey { k with possible := false }).settle k.token)

/-- A key may start here. -/
def saveKey (s : TokenQueue) : Option TokenQueue :=
  if s.keyAllowed then
    s.dropKey.map fun s =>
      let s := s.setKey {
        possible := true
        required := !s.inFlow && s.indent == (s.cursor.column : Int)
        token := s.tokens.size
        index := s.cursor.index
        line := s.cursor.line
        column := s.cursor.column }
      { s with awaited := (s.tokens.size, s.keys.size - 1) :: s.awaited }
  else some s

/-! ### Indentation -/

/-- Opens a collection at a column, if that is deeper than the innermost one. Its token goes before
token number `n`. -/
def roll (s : TokenQueue) (column n : Nat) (t : Token) : Option TokenQueue :=
  if s.inFlow || (column : Int) ≤ s.indent then some s
  else if maxDepth ≤ s.depth then none
  else
    let s := { s with indent := column, indents := s.indent :: s.indents, depth := s.depth + 1 }
    some (s.insert n t)

/-- Closes the collections that are deeper than a column. -/
def unrollTo (column : Int) : List Int → TokenQueue → TokenQueue
  | [], s => s
  | i :: is, s =>
    if column < s.indent then
      let s := { s with indent := i, indents := is, depth := s.depth - 1 }
      unrollTo column is (s.emit .blockEnd)
    else s

/-- Closes the collections that are deeper than a column, outside of brackets. -/
def unroll (s : TokenQueue) (column : Int) : TokenQueue :=
  if s.inFlow then s else unrollTo column s.indents s

/-! ### Blank space -/

/-- Goes over a mark of the byte order at the start of a line. The mark is looked for at the place
where the text last had to be waited for. -/
def passMark : Walk Unit := do
  Walk.want 1
  let c ← Walk.place
  if c.column == 0 && c.front == byteOrderMark then Walk.skip

/-- Goes to the next token: over blanks, comments and line breaks. A tabulator is no blank where a
key could start outside of brackets. -/
def passBlank : Nat → TokenQueue → Option TokenQueue
  | 0, s => some s
  | fuel + 1, s => do
    let tabs := s.inFlow || !s.keyAllowed
    let s ← s.pass do
      passMark
      Walk.want 1
      Walk.skipWhile fun ch => ch == ' ' || (tabs && ch == '\t')
      if (← Walk.look) == '#' then Walk.comments
    if isBreak s.cursor.head then
      let s ← s.pass do
        Walk.want 2
        Walk.skipLine
      passBlank fuel { s with keyAllowed := s.keyAllowed || !s.inFlow }
    else some s

/-! ### Single tokens -/

/-- A token that ends what a key could have started. -/
def fetchMark (s : TokenQueue) (width : Nat) (allowed : Bool) (t : Token) : Option TokenQueue := do
  let s ← s.dropKey
  let s ← s.pass (Walk.skips width)
  some ({ s with keyAllowed := allowed }.emit t)

/-- The end of the text, which is at the start of a line. -/
def fetchEnd (s : TokenQueue) : Option TokenQueue :=
  let c := s.cursor
  let c := if c.column = 0 then c else { c with column := 0, line := c.line + 1 }
  ({ s with cursor := c }.unroll (-1)).fetchMark 0 false .streamEnd

/-- A directive. -/
def fetchDirective (s : TokenQueue) : Option TokenQueue := do
  let s ← (s.unroll (-1)).dropKey
  let (d, s) ← s.walk Directive.read
  some ({ s with keyAllowed := false }.emit (.directive d))

/-- A mark between documents. -/
def fetchDocumentMark (s : TokenQueue) (t : Token) : Option TokenQueue :=
  (s.unroll (-1)).fetchMark 3 false t

/-- An opening bracket. The place for keys inside starts with the number of the bracket. -/
def fetchOpen (s : TokenQueue) (t : Token) : Option TokenQueue := do
  let s ← s.saveKey
  let s := { s with keys := s.keys.push { token := s.tokens.size } }
  if maxDepth < s.keys.size - 1 then none else
  let s ← s.pass Walk.skip
  some ({ s with keyAllowed := true }.emit t)

/-- A closing bracket. A key that the bracket itself had started is no longer awaited if nothing
inside could be a key. -/
def fetchClose (s : TokenQueue) (t : Token) : Option TokenQueue := do
  let s ← s.dropKey
  let s :=
    if s.inFlow then { s.settle s.currentKey.token with keys := s.keys.pop } else s
  let s ← s.pass Walk.skip
  some ({ s with keyAllowed := false }.emit t)

/-- A dash before an item. -/
def fetchEntry (s : TokenQueue) : Option TokenQueue := do
  if s.inFlow then s.fetchMark 1 true .entry
  else if s.keyAllowed then
    let s ← s.roll s.cursor.column s.tokens.size .blockSequence
    s.fetchMark 1 true .entry
  else none

/-- A question mark before a key. -/
def fetchKey (s : TokenQueue) : Option TokenQueue := do
  if s.inFlow then s.fetchMark 1 false .key
  else if s.keyAllowed then
    let s ← s.roll s.cursor.column s.tokens.size .blockMapping
    s.fetchMark 1 true .key
  else none

/-- A colon before a value. If a key started on this line, its tokens are inserted now. -/
def fetchValue (s : TokenQueue) : Option TokenQueue := do
  let (simple, s) ← s.checkKey (s.keys.size - 1)
  let k := s.currentKey
  let s ←
    if simple then do
      let s ← (s.insert k.token .key).roll k.column k.token .blockMapping
      let s := (s.setKey { k with possible := false }).settle k.token
      some { s with keyAllowed := false }
    else if s.inFlow then some { s with keyAllowed := false }
    else if s.keyAllowed then s.roll s.cursor.column s.tokens.size .blockMapping
    else none
  let s ← s.pass Walk.skip
  some (s.emit .value)

/-- A token that may start a key, read by `w`. -/
def fetchContent {α : Type} (s : TokenQueue) (w : Walk α) (t : α → Token) :
    Option TokenQueue := do
  let s ← s.saveKey
  let (a, s) ← s.walk w
  some ({ s with keyAllowed := false }.emit (t a))

/-- An anchor or a reference to one. -/
def fetchAnchor (s : TokenQueue) (t : String → Token) : Option TokenQueue :=
  s.fetchContent (do Walk.skip; readAnchor) t

/-- A scalar after `|` or `>`. -/
def fetchBlock (s : TokenQueue) (literal : Bool) : Option TokenQueue := do
  let s ← s.dropKey
  let (text, s) ← s.walk do
    Walk.skip
    readBlock literal s.indent
  some ({ s with keyAllowed := true }.emit (.scalar text false))

/-- A scalar between quotes. -/
def fetchQuoted (s : TokenQueue) (single : Bool) : Option TokenQueue :=
  s.fetchContent (do Walk.skip; readQuoted single (← Walk.bound) "") (.scalar · false)

/-- A plain scalar. A key may start after it if it goes to the end of its line. -/
def fetchPlain (s : TokenQueue) : Option TokenQueue := do
  let s ← s.saveKey
  let (p, s) ← s.walk do readPlain s.inFlow (s.indent + 1).toNat (← Walk.bound) {}
  some ({ s with keyAllowed := p.gap.broken }.emit (.scalar p.text true))

/-- A plain scalar can start with this character, which stands before `next`. -/
def startsPlain (flow : Bool) (c next : Char) : Bool :=
  !(isGap c || "-?:,[]\x7b\x7d#&*!|>'\"%@".toList.contains c || c.toNat == 0x60) ||
    (c == '-' && !isBlank next) || (!flow && (c == '?' || c == ':') && !isGap next)

/-- The token that starts with the character `ch`, which stands before `next`. -/
def fetchAt (s : TokenQueue) (ch next : Char) : Option TokenQueue :=
  if ch == '[' then s.fetchOpen .flowSequence
  else if ch == '{' then s.fetchOpen .flowMapping
  else if ch == ']' then s.fetchClose .flowSequenceEnd
  else if ch == '}' then s.fetchClose .flowMappingEnd
  else if ch == ',' then s.fetchMark 1 true .comma
  else if ch == '-' && isGap next then s.fetchEntry
  else if ch == '?' && (s.inFlow || isGap next) then s.fetchKey
  else if ch == ':' && (s.inFlow || isGap next) then s.fetchValue
  else if ch == '*' then s.fetchAnchor .alias
  else if ch == '&' then s.fetchAnchor .anchor
  else if ch == '!' then s.fetchContent readTypeName .tag
  else if ch == '|' && !s.inFlow then s.fetchBlock true
  else if ch == '>' && !s.inFlow then s.fetchBlock false
  else if ch == '\'' then s.fetchQuoted true
  else if ch == '"' then s.fetchQuoted false
  else if startsPlain s.inFlow ch next then s.fetchPlain
  else none

/-- **The next token**, with a comment that follows it on its line. A comment after a dash belongs
to what comes next. -/
def fetch (s : TokenQueue) : Option TokenQueue := do
  let s ← s.pass (Walk.want 1)
  let s ← passBlank (s.cursor.rest.length + 1) s
  let s := s.unroll s.cursor.column
  let s ← s.pass (Walk.want 4)
  let c := s.cursor
  if isEnd c.head then s.fetchEnd
  else if c.column == 0 && c.head == '%' then s.fetchDirective
  else if c.atDocumentMark '-' then s.fetchDocumentMark .documentStart
  else if c.atDocumentMark '.' then s.fetchDocumentMark .documentEnd
  else
    let s ← s.fetchAt c.head (c.peek 1)
    if s.tokens.back? == some .entry then some s else s.pass Walk.lineComment

/-! ### The whole text -/

/-- Whether the next token can leave the queue. -/
def isReady (s : TokenQueue) : Option (Bool × TokenQueue) :=
  if s.tokens.size ≤ s.left + 2 then some (false, s)
  else match s.awaited.lookup s.left with
    | none => some (true, s)
    | some level => (s.checkKey level).map fun (waits, s) => (!waits, s)

/-- The next token leaves the queue. -/
def leave (s : TokenQueue) : TokenQueue :=
  { s with left := s.left + 1, awaited := s.awaited.filter (s.left < ·.1) }

/-- Reads tokens to the end of the text or to the first fault, after those in `done`, of which the
last one comes first. -/
def run : Nat → TokenQueue → List Token → List Token
  | 0, _, done => done.reverse
  | fuel + 1, s, done =>
    match s.isReady with
    | none => done.reverse
    | some (true, s) =>
      match s.tokens[s.left]? with
      | none => done.reverse
      | some .streamEnd => (.streamEnd :: done).reverse
      | some t => run fuel s.leave (t :: done)
    | some (false, s) =>
      match s.fetch with
      | none => done.reverse
      | some s => run fuel s done

end TokenQueue

/-- **The tokens of a text**, as far as they are certain. -/
def tokens (text : String) : List Token :=
  let c := Cursor.ofText text
  TokenQueue.run (10 * c.rest.length + 64) { cursor := c } []

end Statuary.Yaml
