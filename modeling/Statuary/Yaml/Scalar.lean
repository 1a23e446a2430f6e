import Statuary.Json.Basic
import Statuary.Number.Decimal
import Statuary.Yaml.Comment

/-!
# The texts of scalars

A scalar is written plainly, between quotes, or as a block of lines after `|` or `>`. Over several
lines the first two are **folded**: a single line break between two words reads as a space, and of
more breaks all but the first remain. What lies between two words of a scalar is collected as a
`Statuary.Yaml.Gap`, and `Statuary.Yaml.Gap.text` says what it reads as.

Every reader here is a `Statuary.Yaml.Walk`, which gives nothing when the text is malformed. A
reader that goes on over lines takes a bound on its steps; the length of what is left of the text
is always enough.
-/

namespace Statuary.Yaml

/-- The blanks and line breaks between two words of a scalar. -/
structure Gap where
  /-- Blanks before the first line break, the last one first. -/
  blanks : List Char := []
  /-- There was a line break. -/
  broken : Bool := false
  /-- The first line break. -/
  first : List Char := []
  /-- The line breaks after it, the last one first. -/
  more : List Char := []

namespace Gap

/-- What a gap reads as. -/
def text (g : Gap) : List Char :=
  if g.broken then
    if g.first.head? == some '\n' then (if g.more.isEmpty then [' '] else g.more.reverse)
    else g.first ++ g.more.reverse
  else g.blanks.reverse

/-- One more line break. -/
def addBreak (g : Gap) (b : List Char) : Gap :=
  if g.broken then { g with more := b.reverse ++ g.more }
  else { g with blanks := [], broken := true, first := b }

/-- One more blank; those after a line break do not count. -/
def addBlank (g : Gap) (c : Char) : Gap :=
  if g.broken then g else { g with blanks := c :: g.blanks }

/-- Reads blanks and line breaks. A tabulator left of `limit` on a new line is malformed. -/
def read (limit : Nat) : Nat → Gap → Walk Gap
  | 0, g => pure g
  | fuel + 1, g => do
    let c ← Walk.place
    let ch := c.head
    if isBlank ch then
      Walk.ensure !(g.broken && c.column < limit && ch == '\t')
      Walk.skip
      Walk.want 1
      read limit fuel (g.addBlank ch)
    else if isBreak ch then
      Walk.want 2
      let b ← Walk.lineBreak
      Walk.want 1
      read limit fuel (g.addBreak b)
    else return g

end Gap

/-- How many steps a reader may need here. -/
def Walk.bound : Walk Nat :=
  return (← place).rest.length + 1

/-! ### Plain scalars -/

/-- A character that ends a plain scalar between brackets. -/
def isFlowMark (c : Char) : Bool :=
  c == ',' || c == '?' || c == '[' || c == ']' || c == '{' || c == '}'

/-- A plain word ends at this character, which stands before `next`. -/
def endsWord (flow : Bool) (c next : Char) : Bool :=
  isGap c || (c == ':' && isGap next) || (flow && isFlowMark c)

/-- Reads the word here, waiting for two characters after each. The text left is given beside the
place, and `word` holds what was read, the last one first. -/
def plainWord (flow : Bool) : List Char → List Char → Cursor → Option (List Char × Cursor)
  | [], word, c => some (word.reverse, c)
  | ch :: cs, word, c =>
    if endsWord flow ch (cs.headD '\x00') then some (word.reverse, c)
    else match c.next.want 2 with
      | some c => plainWord flow cs (ch :: word) c
      | none => none

/-- A plain scalar as it was read. -/
structure Plain where
  /-- Its text. -/
  text : String := ""
  /-- The gap after its last word, which is part of the scalar only if a further word comes. -/
  gap : Gap := {}

/-- Reads a plain scalar whose lines start at column `indent` or further, outside of brackets. -/
def readPlain (flow : Bool) (indent : Nat) : Nat → Plain → Walk Plain
  | 0, p => pure p
  | fuel + 1, p => do
    Walk.want 4
    let c ← Walk.place
    if c.atSeparator || c.head == '#' then return p
    let word ← plainWord flow c.rest []
    let p := if word.isEmpty then p else ⟨p.text ++ String.ofList (p.gap.text ++ word), {}⟩
    let ch ← Walk.look
    if !isBlank ch && !isBreak ch then return p
    Walk.want 1
    let gap ← Gap.read indent (← Walk.bound) p.gap
    let p := { p with gap := gap }
    if !flow && (← Walk.place).column < indent then return p
    readPlain flow indent fuel p

/-! ### Quoted scalars -/

/-- The character that a letter after a backslash stands for. -/
def escape? : Char → Option Nat
  | '0' => some 0
  | 'a' => some 7
  | 'b' => some 8
  | 't' => some 9
  | '\t' => some 9
  | 'n' => some 10
  | 'v' => some 11
  | 'f' => some 12
  | 'r' => some 13
  | 'e' => some 27
  | ' ' => some 32
  | '"' => some 34
  | '\'' => some 39
  | '\\' => some 92
  | 'N' => some 0x85
  | '_' => some 0xA0
  | 'L' => some 0x2028
  | 'P' => some 0x2029
  | _ => none

/-- How many digits a letter after a backslash announces. -/
def escapeDigits? : Char → Option Nat
  | 'x' => some 2
  | 'u' => some 4
  | 'U' => some 8
  | _ => none

/-- The character that digits in base sixteen stand for. -/
def charOfHex? (ds : List Char) : Option Char := do
  let n ← ds.foldlM (fun n d => (Json.hexValue? d).map (16 * n + ·)) 0
  if n.isValidChar then some (Char.ofNat n) else none

/-- Reads what a backslash and the letter after it stand for. -/
def escaped (letter : Char) : Walk Char := do
  match escape? letter, escapeDigits? letter with
  | some n, _ =>
    Walk.skips 2
    return Char.ofNat n
  | none, some k =>
    Walk.skips 2
    Walk.want k
    let digits := (← Walk.place).rest.take k
    Walk.ensure (digits.length == k)
    let ch ← StateT.lift (charOfHex? digits)
    Walk.skips k
    return ch
  | none, none => failure

/-- The character that closes a quoted scalar. -/
def closingQuote (single : Bool) : Char :=
  if single then '\'' else '"'

/-- Reads the characters of a quoted scalar up to a blank, a line break or the closing quote. The
result says whether it stopped after a backslash at the end of a line. -/
def quotedWord (single : Bool) : Nat → String → Walk (String × Bool)
  | 0, acc => pure (acc, false)
  | fuel + 1, acc => do
    let c ← Walk.place
    let ch := c.head
    let after := c.peek 1
    if isGap ch then return (acc, false)
    else if single && ch == '\'' && after == '\'' then
      Walk.skips 2
      Walk.want 2
      quotedWord single fuel (acc.push '\'')
    else if ch == closingQuote single then return (acc, false)
    else if !single && ch == '\\' && isBreak after then
      Walk.want 3
      Walk.skip
      Walk.skipLine
      return (acc, true)
    else if !single && ch == '\\' then
      let ch ← escaped after
      Walk.want 2
      quotedWord single fuel (acc.push ch)
    else
      Walk.skip
      Walk.want 2
      quotedWord single fuel (acc.push ch)

/-- Reads a quoted scalar after its opening quote. -/
def readQuoted (single : Bool) : Nat → String → Walk String
  | 0, _ => failure
  | fuel + 1, acc => do
    Walk.want 4
    let c ← Walk.place
    Walk.ensure !(c.atSeparator || isEnd c.head)
    let (acc, joined) ← quotedWord single (← Walk.bound) acc
    Walk.want 1
    if (← Walk.look) == closingQuote single then
      Walk.skip
      return acc
    let gap ← Gap.read 0 (← Walk.bound) { broken := joined }
    readQuoted single fuel (acc ++ String.ofList gap.text)

/-! ### Block scalars -/

/-- What becomes of the line breaks at the end of a block. -/
inductive Chomping where
  /-- All go. -/
  | strip
  /-- One remains. -/
  | clip
  /-- All remain. -/
  | keep
  deriving DecidableEq

/-- The chomping that a mark asks for. -/
def Chomping.ofMark? : Char → Option Chomping
  | '-' => some .strip
  | '+' => some .keep
  | _ => none

/-- Reads the mark for chomping in the header of a block, if there is one. -/
def chompingMark : Walk (Option Chomping) := do
  match Chomping.ofMark? (← Walk.look) with
  | some chomping =>
    Walk.skip
    return some chomping
  | none => return none

/-- Reads the digit for the indentation in the header of a block; zero for none. -/
def indentMark : Walk Nat := do
  let ch ← Walk.look
  if !isDigit ch then return 0
  Walk.ensure (ch != '0')
  Walk.skip
  return digitValue ch

/-- Reads the header of a block after its first mark: chomping and indentation in either order. -/
def blockHeader : Walk (Chomping × Nat) := do
  Walk.want 1
  match ← chompingMark with
  | some chomping =>
    Walk.want 1
    return (chomping, ← indentMark)
  | none =>
    let increment ← indentMark
    if increment = 0 then return (.clip, 0)
    Walk.want 1
    return ((← chompingMark).getD .clip, increment)

/-- Goes over spaces; with `indent > 0` only as far as that column. -/
def blockSpaces (indent : Nat) : Nat → Walk Unit
  | 0 => pure ()
  | fuel + 1 => do
    let c ← Walk.place
    if (indent = 0 || c.column < indent) && c.head == ' ' then
      Walk.skip
      Walk.want 1
      blockSpaces indent fuel

/-- Reads the empty lines before a line of a block, and its indentation. With `indent = 0` the
indentation is not known yet. The result is the deepest one seen and the line breaks, the last one
first. -/
def blockBreaks (indent : Nat) : Nat → Nat → List Char → Walk (Nat × List Char)
  | 0, deepest, breaks => pure (deepest, breaks)
  | fuel + 1, deepest, breaks => do
    Walk.want 1
    blockSpaces indent (← Walk.bound)
    let c ← Walk.place
    let deepest := max deepest c.column
    Walk.ensure !((indent = 0 || c.column < indent) && c.head == '\t')
    if isBreak c.head then
      Walk.want 2
      let b ← Walk.lineBreak
      blockBreaks indent fuel deepest (b ++ breaks)
    else return (deepest, breaks)

/-- The indentation of a block, given that of the collection around it and the deepest one seen. -/
def blockIndent (parent : Int) (deepest : Nat) : Nat :=
  max (max deepest (parent + 1).toNat) 1

/-- The part of a block that has been read. -/
structure BlockLines where
  /-- The text up to the last line. -/
  text : String := ""
  /-- The last line started with a blank. -/
  deep : Bool := false
  /-- The break after the last line. -/
  pending : List Char := []
  /-- The breaks of the empty lines after it, the last one first. -/
  more : List Char := []

/-- The text with a further line, which starts with a blank or does not. -/
def BlockLines.join (b : BlockLines) (literal blank : Bool) (line : List Char) : String :=
  let joint :=
    if !literal && b.pending.head? == some '\n' && !b.deep && !blank then
      (if b.more.isEmpty then [' '] else [])
    else b.pending
  b.text ++ String.ofList (joint ++ b.more.reverse ++ line)

/-- The text of a block that has come to its end. -/
def BlockLines.close (b : BlockLines) (chomping : Chomping) : String :=
  match chomping with
  | .strip => b.text
  | .clip => b.text ++ String.ofList b.pending
  | .keep => b.text ++ String.ofList (b.pending ++ b.more.reverse)

/-- Reads the lines of a block. -/
def blockLines (literal : Bool) (indent : Nat) : Nat → BlockLines → Walk BlockLines
  | 0, b => pure b
  | fuel + 1, b => do
    let c ← Walk.place
    if c.column == indent && !isEnd c.head then
      let blank := isBlank c.head
      let line ← Walk.takeWhile (!isBreakOrEnd ·)
      Walk.want 2
      let pending ← Walk.lineBreak
      let (_, more) ← blockBreaks indent (← Walk.bound) 0 []
      blockLines literal indent fuel ⟨b.join literal blank line, blank, pending, more⟩
    else return b

/-- Reads a block scalar after its first mark, inside a collection with the given indentation. -/
def readBlock (literal : Bool) (parent : Int) : Walk String := do
  let (chomping, increment) ← blockHeader
  Walk.want 1
  Walk.skipWhile isBlank
  if (← Walk.look) == '#' then Walk.toLineEnd
  let ending ← Walk.look
  Walk.ensure (isBreakOrEnd ending)
  if isBreak ending then
    Walk.want 2
    Walk.skipLine
  let given := if increment = 0 then 0 else (max parent 0).toNat + increment
  let (deepest, more) ← blockBreaks given (← Walk.bound) 0 []
  let indent := if given = 0 then blockIndent parent deepest else given
  Walk.want 1
  let b ← blockLines literal indent (← Walk.bound) { more := more }
  return b.close chomping

end Statuary.Yaml
