/-!
# A place in a text with lines

Rig and settings documents are written in YAML, where the column of a character decides what it
belongs to. A `Statuary.Yaml.Cursor` is what is left of a text together with the line and column it
starts at. The end of the text reads as the zero character, which no document contains.

A text does not arrive all at once but in **blocks** (`Statuary.Yaml.Block`), and a block is looked
at as a whole when it arrives: one with a character that no document may contain is malformed. So
what stands far behind the end of a document does no harm, and `Statuary.Yaml.Cursor.want` says how
far a text has been looked at.

* `Statuary.Yaml.Block.cut` cuts a text into blocks;
* `Statuary.Yaml.Walk` is an action that goes along a text, or finds it malformed;
* `Statuary.Yaml.Walk.takeWhile` reads the characters of one kind.
-/

namespace Statuary.Yaml

/-! ### Kinds of characters -/

/-- A character that ends a line. -/
def isBreak (c : Char) : Bool :=
  c == '\n' || c == '\r' || c.toNat == 0x85 || c.toNat == 0x2028 || c.toNat == 0x2029

/-- A space or tabulator. -/
def isBlank (c : Char) : Bool :=
  c == ' ' || c == '\t'

/-- The end of the text. -/
def isEnd (c : Char) : Bool :=
  c == '\x00'

/-- The end of a line or of the text. -/
def isBreakOrEnd (c : Char) : Bool :=
  isBreak c || isEnd c

/-- A space, a tabulator, or the end of a line or of the text. -/
def isGap (c : Char) : Bool :=
  isBlank c || isBreakOrEnd c

/-- A character of a name: of an anchor, a directive or a handle. -/
def isNameChar (c : Char) : Bool :=
  c.isAlphanum || c == '_' || c == '-'

/-- A character that a document may contain. -/
def isAllowed (c : Char) : Bool :=
  let n := c.toNat
  n == 0x09 || n == 0x0A || n == 0x0D || (0x20 ≤ n && n ≤ 0x7E) || n == 0x85 ||
    (0xA0 ≤ n && n ≤ 0xD7FF) || (0xE000 ≤ n && n ≤ 0xFFFD) || 0x10000 ≤ n

/-- The mark of the byte order, which may stand before a text. -/
def byteOrderMark : Char := Char.ofNat 0xFEFF

/-! ### Blocks -/

/-- A piece of a text that arrives at once. -/
structure Block where
  /-- How many characters it has. -/
  length : Nat := 0
  /-- A document may contain each of them. -/
  clean : Bool := true
  deriving DecidableEq, Repr

namespace Block

/-- The most bytes of a block. -/
def capacity : Nat := 512

/-- The block with one more character. -/
def push (b : Block) (c : Char) : Block :=
  ⟨b.length + 1, b.clean && isAllowed c⟩

/-- **The blocks of a text**, the first of which goes on after `b` and has room for some more bytes.
A character is never divided between two blocks. -/
def cut (b : Block) (room : Nat) : List Char → List Block
  | [] => if b.length = 0 then [] else [b]
  | c :: cs =>
    if c.utf8Size ≤ room then cut (b.push c) (room - c.utf8Size) cs
    else b :: cut (Block.push {} c) (capacity - c.utf8Size) cs

/-- Lets blocks arrive after `ahead` characters until there are `n`. At the end of the text one
character more is there, the zero character. Malformed if one of the blocks is. -/
def arrive (n : Nat) : Nat → List Block → Option (Nat × List Block)
  | ahead, [] => some (ahead + 1, [])
  | ahead, b :: bs =>
    if !b.clean then none
    else if n ≤ ahead + b.length then some (ahead + b.length, bs)
    else arrive n (ahead + b.length) bs

end Block

/-! ### Places -/

/-- What is left of a text, and where it starts. -/
structure Cursor where
  /-- The characters left. -/
  rest : List Char
  /-- Characters before. -/
  index : Nat := 0
  /-- Lines before. -/
  line : Nat := 0
  /-- Characters before on the line. -/
  column : Nat := 0
  /-- Nothing but blanks stands between here and the last line break. -/
  fresh : Bool := false
  /-- How many of the characters left have arrived. -/
  ahead : Nat := 0
  /-- The blocks that have not arrived. -/
  coming : List Block := []
  /-- The character at which the text was when a block was last waited for. -/
  front : Char := '\x00'

namespace Cursor

/-- The start of a text. A mark of the byte order there is no part of the text, but takes room in
its first block. -/
def ofText (text : String) : Cursor :=
  match text.toList with
  | [] => { rest := [] }
  | c :: cs =>
    if c == byteOrderMark then
      { rest := cs, coming := Block.cut {} (Block.capacity - c.utf8Size) cs }
    else { rest := c :: cs, coming := Block.cut {} Block.capacity (c :: cs) }

/-- The character `n` places ahead. -/
def peek (c : Cursor) (n : Nat) : Char :=
  (c.rest.drop n).headD '\x00'

/-- The next character. -/
def head (c : Cursor) : Char :=
  c.rest.headD '\x00'

/-- Waits until `n` characters have arrived. -/
def want (n : Nat) (c : Cursor) : Option Cursor :=
  if n ≤ c.ahead then some c
  else (Block.arrive n c.ahead c.coming).map fun (ahead, coming) =>
    { c with ahead := ahead, coming := coming, front := c.head }

/-- The place one character further on the line. -/
def next (c : Cursor) : Cursor :=
  match c.rest with
  | [] => c
  | ch :: cs =>
    { c with
      rest := cs
      index := c.index + 1
      column := c.column + 1
      fresh := c.fresh && isBlank ch
      ahead := c.ahead - 1 }

/-- The text of the line break here, and the place at the start of the next line. A carriage return
and a line feed are one break, and all breaks but the two separators of Unicode read as a line
feed. -/
def lineBreak (c : Cursor) : List Char × Cursor :=
  match c.rest with
  | '\r' :: '\n' :: cs => (['\n'], newLine cs 2)
  | ch :: cs =>
    if isBreak ch then
      ([if ch.toNat == 0x2028 || ch.toNat == 0x2029 then ch else '\n'], newLine cs 1)
    else ([], c)
  | [] => ([], c)
where
  /-- The start of the next line, after a break of the given width. -/
  newLine (rest : List Char) (width : Nat) : Cursor :=
    { c with
      rest := rest
      index := c.index + width
      line := c.line + 1
      column := 0
      fresh := true
      ahead := c.ahead - width }

/-- A line that separates documents starts here: three equal marks at the start of a line. -/
def atDocumentMark (c : Cursor) (mark : Char) : Bool :=
  c.column == 0 && c.head == mark && c.peek 1 == mark && c.peek 2 == mark && isGap (c.peek 3)

/-- A line that separates documents starts here. -/
def atSeparator (c : Cursor) : Bool :=
  c.atDocumentMark '-' || c.atDocumentMark '.'

/-- Collects the characters that satisfy `p`, waiting for the next one after each. The text left is
given beside the place, and `taken` holds what was collected, the last one first. -/
def gather (p : Char → Bool) : List Char → List Char → Cursor → Option (List Char × Cursor)
  | [], taken, c => some (taken.reverse, c)
  | ch :: cs, taken, c =>
    if p ch then
      match c.next.want 1 with
      | some c => gather p cs (ch :: taken) c
      | none => none
    else some (taken.reverse, c)

end Cursor

/-! ### Going along a text -/

/-- An action that goes along a text; nothing if the text is malformed there. -/
abbrev Walk := StateT Cursor Option

namespace Walk

/-- The place. -/
def place : Walk Cursor := get

/-- Waits until `n` characters have arrived. -/
def want (n : Nat) : Walk Unit := fun c =>
  (c.want n).map ((), ·)

/-- The next character. -/
def look : Walk Char := return (← get).head

/-- The character `n` places ahead. -/
def lookAt (n : Nat) : Walk Char := return (← get).peek n

/-- Goes over one character. -/
def skip : Walk Unit := modify Cursor.next

/-- Goes over some characters. -/
def skips : Nat → Walk Unit
  | 0 => pure ()
  | n + 1 => do
    skip
    skips n

/-- Reads a line break. -/
def lineBreak : Walk (List Char) := modifyGet Cursor.lineBreak

/-- Goes over a line break. -/
def skipLine : Walk Unit := modify fun c => c.lineBreak.2

/-- Reads the characters that satisfy `p`. -/
def takeWhile (p : Char → Bool) : Walk (List Char) := fun c =>
  c.gather p c.rest []

/-- Goes over the characters that satisfy `p`. -/
def skipWhile (p : Char → Bool) : Walk Unit :=
  discard (takeWhile p)

/-- The text is malformed unless a condition holds. -/
def ensure (b : Bool) : Walk Unit :=
  if b then pure () else failure

end Walk

end Statuary.Yaml
