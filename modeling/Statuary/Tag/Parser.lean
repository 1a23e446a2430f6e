import Statuary.Tag.Scalar
import Statuary.Text.Blank
import Statuary.Text.Quoted

/-!
# Reading tag trees

A text is read from left to right by recursive descent. A reader takes what is left of the text and
gives back a value and what is left then, or it stops; where it stops, it says **what was left** at
that moment, and the offset of the error is the length of the part before it
(`Statuary.SyntaxError.offset`, in bytes of UTF-8). So no reader ever counts.

Two things are decided apart from the grammar. Which number or text an unquoted word is, says
`Statuary.Tag.scalar`; and a compound is first read as the plain list of its entries, repeated names
included, and then made a map by `Statuary.Tag.ofEntries`.

The readers of values, items and entries call each other, and each call is given one step less than
it had. `Statuary.Tag.steps` is more than any text can use, since between two calls that read
nothing there is always one that reads a character.
-/

namespace Statuary

/-- Why a text is not a tag. -/
inductive SyntaxFault where
  /-- A value was read, and something other than blanks follows. -/
  | trailingData
  /-- The value is of another kind than compound. -/
  | notCompound (kind : Kind)
  /-- A certain character should stand here. -/
  | expected (c : Char)
  /-- The text ends where a value should start. -/
  | unexpectedEnd
  /-- No value starts with this byte. -/
  | unexpected (byte : Char)
  /-- A name should stand here. -/
  | expectedKey
  /-- An entry must be followed by another one or by the end of the compound. -/
  | expectedEntryEnd
  /-- An item must be followed by another one or by the end of the list. -/
  | expectedItemEnd
  /-- A list has items of two kinds. -/
  | mixedList (elem found : Kind)
  /-- An array has an element of another kind. -/
  | badElement (word : String) (letter : Char)
  /-- The text ends after a backslash. -/
  | unterminatedEscape
  /-- A backslash before a byte that needs none. -/
  | invalidEscape (byte : Char)
  /-- The text ends inside quotes. -/
  | unterminatedString
  deriving DecidableEq, Repr

/-- The text of a fault. -/
def SyntaxFault.message : SyntaxFault → String
  | trailingData => "trailing data"
  | notCompound kind => s!"expected compound, got {kind.name}"
  | expected c => s!"expected {quotedChar c}"
  | unexpectedEnd => "unexpected end of input"
  | unexpected byte => s!"unexpected {quotedChar byte}"
  | expectedKey => "expected key"
  | expectedEntryEnd => "expected ',' or '\x7d'"
  | expectedItemEnd => "expected ',' or ']'"
  | mixedList elem found => s!"list of {elem.name} cannot hold {found.name}"
  | badElement word letter => s!"invalid element {quoted word} in [{letter};] array"
  | unterminatedEscape => "unterminated escape"
  | invalidEscape byte => s!"invalid escape \\{byte}"
  | unterminatedString => "unterminated string"

/-- A fault and the place where it was noticed, counted in bytes. -/
structure SyntaxError where
  /-- Bytes before the place. -/
  offset : Nat
  /-- What is wrong there. -/
  fault : SyntaxFault
  deriving DecidableEq, Repr

/-- The text of an error. -/
def SyntaxError.message (e : SyntaxError) : String :=
  s!"nbt: {e.fault.message} at offset {e.offset}"

/-- A reader that stopped: what was left of the text, and the fault. -/
structure Stop where
  /-- The text from the place of the fault on. -/
  rest : List Char
  /-- What is wrong there. -/
  fault : SyntaxFault

/-- The result of reading at the head of a text: a value and the text after it. -/
abbrev Reading (α : Type) := Except Stop (α × List Char)

namespace Tag

/-! ### Blanks, quotes and words -/

/-- A blank between the parts of a text. -/
def isGap (c : Char) : Bool :=
  c == ' ' || c == '\t' || c == '\n' || c == '\r'

/-- The text after the blanks at its head. -/
def skipGap (cs : List Char) : List Char :=
  cs.dropWhile isGap

/-- The text after a character that must come next, blanks aside. -/
def expect (c : Char) (cs : List Char) : Except Stop (List Char) :=
  match skipGap cs with
  | [] => .error ⟨[], .expected c⟩
  | d :: rest => if d = c then .ok rest else .error ⟨d :: rest, .expected c⟩

/-- A character that may follow a backslash. -/
def isEscapable (c : Char) : Bool :=
  c == '\\' || c == '"' || c == '\''

/-- A quote that starts a text. -/
def isQuote (c : Char) : Bool :=
  c == '"' || c == '\''

/-- The text up to the closing quote `q`. -/
def readQuoted (q : Char) : List Char → Reading (List Char)
  | [] => .error ⟨[], .unterminatedString⟩
  | '\\' :: cs =>
    match cs with
    | [] => .error ⟨['\\'], .unterminatedEscape⟩
    | c :: rest =>
      if isEscapable c then (readQuoted q rest).map fun (s, r) => (c :: s, r)
      else .error ⟨'\\' :: c :: rest, .invalidEscape (firstByte c)⟩
  | c :: cs => if c = q then .ok ([], cs) else (readQuoted q cs).map fun (s, r) => (c :: s, r)

/-- The name of an entry. -/
def readKey (cs : List Char) : Reading String :=
  match cs with
  | [] => .error ⟨[], .expectedKey⟩
  | c :: rest =>
    if isQuote c then (readQuoted c rest).map fun (s, r) => (String.ofList s, r)
    else match (c :: rest).span isBareChar with
      | ([], _) => .error ⟨c :: rest, .expectedKey⟩
      | (word, r) => .ok (String.ofList word, r)

/-! ### Arrays -/

/-- The elements of an array, each a word of the right kind, and the closing bracket. -/
def readElements {α : Type} (pick : Tag → Option α) (letter : Char) :
    Nat → List Char → Reading (List α)
  | 0, cs => .error ⟨cs, .unexpectedEnd⟩
  | n + 1, cs =>
    let cs := skipGap cs
    let (word, rest) := cs.span isBareChar
    match pick (scalar word) with
    | none => .error ⟨cs, .badElement (String.ofList word) letter⟩
    | some a =>
      match skipGap rest with
      | ',' :: rest => (readElements pick letter n rest).map fun (as, r) => (a :: as, r)
      | rest => (expect ']' rest).map fun r => ([a], r)

/-- An array after its letter and semicolon. -/
def readArray {α : Type} (pick : Tag → Option α) (letter : Char) (n : Nat) (cs : List Char) :
    Reading (List α) :=
  match skipGap cs with
  | ']' :: rest => .ok ([], rest)
  | _ => readElements pick letter n cs

/-- The value of a whole number of 8 bits. -/
def byte? : Tag → Option Int8
  | .byte v => some v
  | _ => none

/-- The value of a whole number of 32 bits. -/
def int? : Tag → Option Int32
  | .int v => some v
  | _ => none

/-- The value of a whole number of 64 bits. -/
def long? : Tag → Option Int64
  | .long v => some v
  | _ => none

/-! ### Values -/

mutual

/-- A value, after blanks. The zero character counts as the end of the text here. -/
def readValue : Nat → List Char → Reading Tag
  | 0, cs => .error ⟨cs, .unexpectedEnd⟩
  | n + 1, cs =>
    match skipGap cs with
    | [] => .error ⟨[], .unexpectedEnd⟩
    | c :: rest =>
      if c = '{' then readCompound n rest
      else if c = '[' then readBracket n rest
      else if isQuote c then (readQuoted c rest).map fun (s, r) => (.string (String.ofList s), r)
      else if c = '\x00' then .error ⟨c :: rest, .unexpectedEnd⟩
      else match (c :: rest).span isBareChar with
        | ([], _) => .error ⟨c :: rest, .unexpected (firstByte c)⟩
        | (word, r) => .ok (scalar word, r)

/-- A compound after its opening brace. -/
def readCompound (n : Nat) (cs : List Char) : Reading Tag :=
  match n with
  | 0 => .error ⟨cs, .unexpectedEnd⟩
  | n + 1 =>
    match skipGap cs with
    | '}' :: rest => .ok (.compound [], rest)
    | _ => (readEntries n cs).map fun (es, r) => (ofEntries es, r)

/-- Entries up to the closing brace. -/
def readEntries (n : Nat) (cs : List Char) : Except Stop (Entries × List Char) :=
  match n with
  | 0 => .error ⟨cs, .unexpectedEnd⟩
  | n + 1 => do
    let (name, cs) ← readKey (skipGap cs)
    let cs ← expect ':' cs
    let (value, cs) ← readValue n cs
    match skipGap cs with
    | ',' :: rest => (readEntries n rest).map fun (es, r) => ((name, value) :: es, r)
    | '}' :: rest => .ok ([(name, value)], rest)
    | rest => .error ⟨rest, .expectedEntryEnd⟩

/-- A list or an array after its opening bracket. -/
def readBracket (n : Nat) (cs : List Char) : Reading Tag :=
  match n with
  | 0 => .error ⟨cs, .unexpectedEnd⟩
  | n + 1 =>
    match cs with
    | 'B' :: ';' :: rest => (readArray byte? 'B' n rest).map fun (vs, r) => (.byteArray vs, r)
    | 'I' :: ';' :: rest => (readArray int? 'I' n rest).map fun (vs, r) => (.intArray vs, r)
    | 'L' :: ';' :: rest => (readArray long? 'L' n rest).map fun (vs, r) => (.longArray vs, r)
    | cs =>
      match skipGap cs with
      | ']' :: rest => .ok (.list .untyped [], rest)
      | cs => (readItems n none cs).map fun (items, r) =>
          (.list ((items.head?.map Tag.kind).getD .untyped) items, r)

/-- Items up to the closing bracket, all of the kind of the first. -/
def readItems (n : Nat) (elem : Option Kind) (cs : List Char) :
    Except Stop (List Tag × List Char) :=
  match n with
  | 0 => .error ⟨cs, .unexpectedEnd⟩
  | n + 1 => do
    let (item, rest) ← readValue n cs
    if elem.any (· ≠ item.kind) then
      .error ⟨cs, .mixedList (elem.getD .untyped) item.kind⟩
    else
      match skipGap rest with
      | ',' :: rest =>
        (readItems n (some item.kind) rest).map fun (items, r) => (item :: items, r)
      | ']' :: rest => .ok ([item], rest)
      | rest => .error ⟨rest, .expectedItemEnd⟩

end

/-- More steps than reading the text can take. -/
def steps (cs : List Char) : Nat :=
  3 * cs.length + 3

/-- The whole text as one value. -/
def readAll (cs : List Char) : Except Stop Tag := do
  let (t, rest) ← readValue (steps cs) cs
  match skipGap rest with
  | [] => .ok t
  | rest => .error ⟨rest, .trailingData⟩

/-- The error of a reader that stopped in a text. -/
def Stop.toError (cs : List Char) (s : Stop) : SyntaxError :=
  ⟨byteCount cs - byteCount s.rest, s.fault⟩

/-- **Reading a tree** from a text. -/
def parse (s : String) : Except SyntaxError Tag :=
  (readAll s.toList).mapError (Stop.toError s.toList)

/-- Reading the entries of a compound from a text; a blank text has none. -/
def parseCompound (s : String) : Except SyntaxError Entries :=
  if isBlank s then .ok [] else
  match parse s with
  | .error e => .error e
  | .ok (.compound es) => .ok es
  | .ok t => .error ⟨0, .notCompound t.kind⟩

end Tag

end Statuary
