import Mathlib.Data.Int.Notation
import Statuary.Proofs.Tag.Table
import Statuary.Proofs.Text.Pieces
import Statuary.Tag.Edit
import Statuary.Tag.Parser

/-!
# Reading by position

Bytes are read by going through them with **a position**. Every look at a byte is a look at an
index, every word is cut out between two positions, and lists and compounds are built by edits. Each
of these can go wrong: an index may be out of range, a cut may be, an edit may be refused, and a tag
may be taken for one of another kind (`Statuary.Crash`). None of it is meant to be noticed in the
bytes, so a crash is not a refusal.

A loop over blanks, a word or quotes is at its end when the bytes are. Elements and values go on at
whatever position the scan of another one has come to, and nothing is known of that. So they take
**a number of steps**, and a scan that has run out of them has no result (`Statuary.Scan`).

Nothing here says that a scan goes well. That it does, and reads what `Statuary.Tag.parse` reads, is
the subject of `Statuary.Proofs.Tag.Scanning`.
-/

namespace Statuary

/-- What a program can do wrong. -/
inductive Crash where
  /-- It looks at an index that is out of range. -/
  | index (e : Tag.IndexError)
  /-- It cuts something out between two indices, one of which is out of range or before the other.
  -/
  | slice (low high : ℤ) (length : ℕ)
  /-- It takes a tag for one of another kind. -/
  | assertion (found : Kind)
  /-- It edits a list or a compound in a way that is refused. -/
  | edit (e : EditError)

/-- How a scan can end without a result. -/
inductive Halt where
  /-- The program goes wrong. -/
  | crash (c : Crash)
  /-- The bytes are refused. -/
  | refused (e : SyntaxError)

/-- **A scan**: it runs out of steps, halts, or has a result. -/
abbrev Scan (α : Type) := ExceptT Halt Option α

namespace Scan

variable {α : Type}

/-! ### Steps that can go wrong -/

/-- The steps have run out. -/
def outOfSteps : Scan α :=
  ExceptT.mk none

/-- The program goes wrong. -/
def crash (c : Crash) : Scan α :=
  throw (.crash c)

/-- The bytes are refused at a position. -/
def fail (pos : ℕ) (fault : SyntaxFault) : Scan α :=
  throw (.refused ⟨pos, fault⟩)

/-- What stands at an index. -/
def get (xs : List α) (i : ℤ) : Scan α :=
  match i with
  | .ofNat n =>
    match xs[n]? with
    | some x => pure x
    | none => crash (.index (.beyond i xs.length))
  | .negSucc _ => crash (.index (.negative i))

/-- What stands from one index up to another one. -/
def slice (xs : List α) (low high : ℤ) : Scan (List α) :=
  if 0 ≤ low ∧ low ≤ high ∧ high ≤ xs.length then
    pure ((xs.take high.toNat).drop low.toNat)
  else crash (.slice low high xs.length)

/-- The value of a tag that is taken for one of a kind. -/
def asserted (t : Tag) : Option α → Scan α
  | some a => pure a
  | none => crash (.assertion t.kind)

/-- Adds a tag to the end of a list. -/
def append (elem : Kind) (items : List Tag) (t : Tag) : Scan (Kind × List Tag) :=
  let elem := Tag.elemFor elem items t
  if t.kind = elem then pure (elem, items ++ [t]) else crash (.edit (.appendKind t.kind elem))

/-- Maps a name to a tag, at the position that the index has for it or at the end. -/
def put (c : Table Tag) (name : String) (t : Tag) : Scan (Table Tag) :=
  match c.makeIndex.position? name with
  | some i =>
    if i < c.entries.length then pure (c.makeIndex.replaceAt i t)
    else crash (.index (.beyond i c.entries.length))
  | none => pure (c.makeIndex.push name t)

/-! ### Words

The bytes of a word are below 128, so they are its characters. -/

/-- All characters from an index on are digits. -/
def digitsFrom (tok : List Char) (i : ℕ) : Scan Bool := do
  if i < tok.length then
    if isDigit (← get tok i) then digitsFrom tok (i + 1) else return false
  else return true
termination_by tok.length - i

/-- There are digits, and nothing else. -/
def isDigits (tok : List Char) : Scan Bool :=
  if tok = [] then pure false else digitsFrom tok 0

/-- What follows a sign, if there is one. -/
def unsigned (tok : List Char) : Scan (List Char) := do
  if tok = [] then return tok
  let c ← get tok 0
  if c = '-' ∨ c = '+' then slice tok 1 tok.length else return tok

/-- The parts before and after the first character with a property. -/
def cut (p : Char → Bool) (tok : List Char) : Scan (Option (List Char × List Char)) :=
  match tok.findIdx? p with
  | some i => do return some (← slice tok 0 i, ← slice tok (i + 1) tok.length)
  | none => pure none

/-- A whole number, perhaps with a sign. -/
def isInteger (tok : List Char) : Scan Bool := do
  isDigits (← unsigned tok)

/-- Digits, or nothing. -/
def isPart (tok : List Char) : Scan Bool :=
  if tok = [] then pure true else isDigits tok

/-- Digits on at least one side of a point. -/
def isMantissa (tok : List Char) : Scan Bool := do
  let (whole, fraction) := (← cut (· == '.') tok).getD (tok, [])
  if whole = [] ∧ fraction = [] then return false
  else if ← isPart whole then isPart fraction
  else return false

/-- A letter that an exponent begins with. -/
def isMark (c : Char) : Bool :=
  c == 'e' || c == 'E'

/-- A decimal number, perhaps with a sign and with an exponent. -/
def isDecimal (tok : List Char) : Scan Bool := do
  let tok ← unsigned tok
  match ← cut isMark tok with
  | some (mantissa, exponent) =>
    if ← isDigits (← unsigned exponent) then isMantissa mantissa else return false
  | none => isMantissa tok

/-- The whole number of some bits that a word stands for. -/
def whole (bits : ℕ) (mk : ℤ → Tag) (tok : List Char) : Scan (Option Tag) := do
  if ← isInteger tok then return (readSigned bits tok).map mk else return none

/-- The binary number that a word stands for. -/
def binary (f : BinaryFormat) (mk : Binary f → Tag) (tok : List Char) : Scan (Option Tag) := do
  if ← isDecimal tok then return (readBinary f tok).map mk else return none

/-- The number that a word with the letter of a width at its end stands for. -/
def suffixed (body : List Char) (letter : Char) : Scan (Option Tag) :=
  match letter.toLower with
  | 'b' => whole 8 (.byte <| Int8.ofInt ·) body
  | 's' => whole 16 (.short <| Int16.ofInt ·) body
  | 'l' => whole 64 (.long <| Int64.ofInt ·) body
  | 'f' => binary .single .float body
  | 'd' => binary .double .double body
  | _ => pure none

/-- The tag of a word. -/
def scalar (tok : List Char) : Scan Tag := do
  let text := Tag.string (String.ofList tok)
  if let some t := Tag.truth? tok then return t
  if tok = [] then return text
  let letter ← get tok (tok.length - 1)
  let body ← slice tok 0 (tok.length - 1)
  if let some t ← suffixed body letter then return t
  if ← isInteger tok then return ((readSigned 32 tok).map (.int <| Int32.ofInt ·)).getD text
  return (← binary .double .double tok).getD text

/-! ### Blanks, quotes and words -/

section

variable (s : List UInt8)

/-- The position after all bytes that have a property. -/
def skipWhile (p : Char → Bool) (pos : ℕ) : Scan ℕ := do
  if pos < s.length then
    if p (Utf8.ofByte (← get s pos)) then skipWhile p (pos + 1) else return pos
  else return pos
termination_by s.length - pos

/-- The position after blanks. -/
def skipSpace (pos : ℕ) : Scan ℕ :=
  skipWhile s Tag.isGap pos

/-- The byte at a position; the zero byte at the end. -/
def peek (pos : ℕ) : Scan Char := do
  if s.length ≤ pos then return '\x00' else return Utf8.ofByte (← get s pos)

/-- The position after a byte that must come next, blanks aside. -/
def expect (c : Char) (pos : ℕ) : Scan ℕ := do
  let pos ← skipSpace s pos
  if (← peek s pos) = c then return pos + 1 else fail pos (.expected c)

/-- A word, which may be empty. -/
def bare (pos : ℕ) : Scan (List Char × ℕ) := do
  let stop ← skipWhile s isBareChar pos
  return ((← slice s pos stop).map Utf8.ofByte, stop)

/-- The bytes up to the closing quote, behind those before. -/
def quotedFrom (quote : Char) (bytes : List UInt8) (pos : ℕ) : Scan (List UInt8 × ℕ) := do
  if pos < s.length then
    let b ← get s pos
    if Utf8.ofByte b = '\\' then
      if s.length ≤ pos + 1 then fail pos .unterminatedEscape
      else
        let next ← get s (pos + 1)
        if Tag.isEscapable (Utf8.ofByte next) then quotedFrom quote (bytes ++ [next]) (pos + 2)
        else fail pos (.invalidEscape (Utf8.ofByte next))
    else if Utf8.ofByte b = quote then return (bytes, pos + 1)
    else quotedFrom quote (bytes ++ [b]) (pos + 1)
  else fail pos .unterminatedString
termination_by s.length - pos

/-- The text between quotes. -/
def quoted (pos : ℕ) : Scan (String × ℕ) := do
  let (bytes, stop) ← quotedFrom s (Utf8.ofByte (← get s pos)) [] (pos + 1)
  return (Utf8.decode bytes, stop)

/-- The name of an entry. -/
def key (pos : ℕ) : Scan (String × ℕ) := do
  if Tag.isQuote (← peek s pos) then quoted s pos
  else
    let (tok, stop) ← bare s pos
    if tok = [] then fail stop .expectedKey else return (String.ofList tok, stop)

end

/-! ### Arrays -/

/-- The elements of an array, of which those of one width are there. -/
structure Gathered where
  /-- Elements of 8 bits. -/
  bytes : List Int8
  /-- Elements of 32 bits. -/
  ints : List Int32
  /-- Elements of 64 bits. -/
  longs : List Int64

namespace Gathered

/-- No elements. -/
def empty : Gathered := ⟨[], [], []⟩

/-- One element more, if it is of the width of the letter. -/
def add (g : Gathered) (letter : Char) (t : Tag) : Scan (Option Gathered) := do
  if letter = 'B' ∧ t.kind = .byte then
    return some { g with bytes := g.bytes ++ [← asserted t (Tag.byte? t)] }
  else if letter = 'I' ∧ t.kind = .int then
    return some { g with ints := g.ints ++ [← asserted t (Tag.int? t)] }
  else if letter = 'L' ∧ t.kind = .long then
    return some { g with longs := g.longs ++ [← asserted t (Tag.long? t)] }
  else return none

/-- The array of a letter. -/
def tag (g : Gathered) (letter : Char) : Tag :=
  if letter = 'B' then .byteArray g.bytes
  else if letter = 'I' then .intArray g.ints
  else .longArray g.longs

end Gathered

section

variable (s : List UInt8)

/-- The elements of an array, behind those before. -/
def elements (letter : Char) (g : Gathered) (pos : ℕ) : ℕ → Scan (Gathered × ℕ)
  | 0 => outOfSteps
  | n + 1 => do
    let pos ← skipSpace s pos
    let (tok, stop) ← bare s pos
    match ← g.add letter (← scalar tok) with
    | none => fail pos (.badElement (String.ofList tok) letter)
    | some g =>
      let pos ← skipSpace s stop
      if (← peek s pos) = ',' then elements letter g (pos + 1) n else return (g, pos)

/-- The elements of an array, if there are any. -/
def gather (letter : Char) (pos n : ℕ) : Scan (Gathered × ℕ) := do
  let pos ← skipSpace s pos
  if (← peek s pos) = ']' then return (.empty, pos) else elements s letter .empty pos n

/-- An array at its letter. -/
def array (letter : Char) (pos n : ℕ) : Scan (Tag × ℕ) := do
  let (g, pos) ← gather s letter (pos + 2) n
  let pos ← expect s ']' pos
  return (g.tag letter, pos)

/-- The letter of an array, where a semicolon follows it. -/
def letter? (pos : ℕ) : Scan (Option Char) := do
  if pos + 1 < s.length then
    if Utf8.ofByte (← get s (pos + 1)) = ';' then
      let letter := Utf8.ofByte (← get s pos)
      return if letter ∈ ['B', 'I', 'L'] then some letter else none
    else return none
  else return none

/-! ### Values -/

mutual

/-- A value, after blanks. -/
def value (pos : ℕ) : ℕ → Scan (Tag × ℕ)
  | 0 => outOfSteps
  | n + 1 => do
    let pos ← skipSpace s pos
    let c ← peek s pos
    if c = '\x00' then fail pos .unexpectedEnd
    else if c = '{' then compound pos n
    else if c = '[' then list pos n
    else if Tag.isQuote c then
      let (text, pos) ← quoted s pos
      return (.string text, pos)
    else
      let (tok, stop) ← bare s pos
      if tok = [] then fail pos (.unexpected c) else return (← scalar tok, stop)
termination_by structural n => n

/-- A compound at its opening brace. -/
def compound (pos : ℕ) : ℕ → Scan (Tag × ℕ)
  | 0 => outOfSteps
  | n + 1 => do
    let pos ← skipSpace s (pos + 1)
    if (← peek s pos) = '}' then return (.compound [], pos + 1)
    else entries (.empty true) pos n
termination_by structural n => n

/-- The rest of a compound, behind the entries before. -/
def entries (c : Table Tag) (pos : ℕ) : ℕ → Scan (Tag × ℕ)
  | 0 => outOfSteps
  | n + 1 => do
    let pos ← skipSpace s pos
    let (name, pos) ← key s pos
    let pos ← expect s ':' pos
    let (t, pos) ← value pos n
    let c ← put c name t
    let pos ← skipSpace s pos
    let b ← peek s pos
    if b = ',' then entries c (pos + 1) n
    else if b = '}' then return (.compound c.entries, pos + 1)
    else fail pos .expectedEntryEnd
termination_by structural n => n

/-- A list or an array at its opening bracket. -/
def list (pos : ℕ) : ℕ → Scan (Tag × ℕ)
  | 0 => outOfSteps
  | n + 1 => do
    match ← letter? s (pos + 1) with
    | some letter => array s letter (pos + 1) n
    | none =>
      let pos ← skipSpace s (pos + 1)
      if (← peek s pos) = ']' then return (.list .untyped [], pos + 1)
      else items .untyped [] pos n
termination_by structural n => n

/-- The rest of a list, behind the items before. -/
def items (elem : Kind) (ts : List Tag) (pos : ℕ) : ℕ → Scan (Tag × ℕ)
  | 0 => outOfSteps
  | n + 1 => do
    let (t, stop) ← value pos n
    if 0 < ts.length ∧ t.kind ≠ elem then fail pos (.mixedList elem t.kind)
    else
      let (elem, ts) ← append elem ts t
      let pos ← skipSpace s stop
      let b ← peek s pos
      if b = ',' then items elem ts (pos + 1) n
      else if b = ']' then return (.list elem ts, pos + 1)
      else fail pos .expectedItemEnd
termination_by structural n => n

end

/-- **All of the bytes as one value.** -/
def parse (n : ℕ) : Scan Tag := do
  let (t, pos) ← value s 0 n
  let pos ← skipSpace s pos
  if pos < s.length then fail pos .trailingData else return t

end

end Scan

end Statuary
