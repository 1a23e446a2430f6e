import Statuary.Number.Decimal
import Statuary.Text.Utf8

/-!
# Reading JSON texts

A JSON text is read into a tree that forgets nothing a later question could ask for: numbers keep
their digits, objects keep their members in order and repeated names with them, and arrays and
objects keep **the very text they were read from**, because a place that wants a text accepts any
value and takes its source.

Readers of JSON differ on what is no character (`Statuary.Json.Reader`). A half of a surrogate pair
stands for the replacement character, and the question is whether an escape that follows it, and is
not its other half, is used up with it. A byte that is part of no character is replaced as well, or
else it is passed on.
-/

namespace Statuary

/-- A JSON value. -/
inductive Json where
  /-- The value `null`. -/
  | null
  /-- A truth value. -/
  | bool (value : Bool)
  /-- A number, by its digits. -/
  | number (digits : String)
  /-- A text. -/
  | string (value : String)
  /-- An array and its source. -/
  | array (items : List Json) (source : String)
  /-- An object and its source. -/
  | object (members : List (String × Json)) (source : String)

namespace Json

/-- What a reader makes of half of a surrogate pair, before an escape that is not the other half,
and of a byte that is part of no character. -/
inductive Reader where
  /-- The escape stands for itself, and the byte is replaced. -/
  | alone
  /-- The escape is used up with the half, and the byte is passed on. -/
  | paired
  deriving DecidableEq

/-- A blank between the parts of a text. -/
def isGap (c : Char) : Bool :=
  c == ' ' || c == '\t' || c == '\n' || c == '\r'

/-- The text after the blanks at its head. -/
def skipGap (cs : List Char) : List Char :=
  cs.dropWhile isGap

/-! ### Texts -/

/-- The value of a digit in base sixteen. -/
def hexValue? (c : Char) : Option Nat :=
  if '0' ≤ c ∧ c ≤ '9' then some (c.toNat - 48)
  else if 'a' ≤ c ∧ c ≤ 'f' then some (c.toNat - 87)
  else if 'A' ≤ c ∧ c ≤ 'F' then some (c.toNat - 55)
  else none

/-- The number that four digits in base sixteen spell. -/
def hexUnit? (a b c d : Char) : Option Nat := do
  return ((((← hexValue? a) * 16 + (← hexValue? b)) * 16 + (← hexValue? c)) * 16 + (← hexValue? d))

/-- A unit of sixteen bits is half of a pair. -/
def isSurrogate (n : Nat) : Bool :=
  0xD800 ≤ n && n < 0xE000

/-- The character of two halves in the right order. -/
def joinSurrogates? (a b : Nat) : Option Char :=
  if 0xD800 ≤ a ∧ a < 0xDC00 ∧ 0xDC00 ≤ b ∧ b < 0xE000 then
    some (Char.ofNat (0x10000 + (a - 0xD800) * 0x400 + (b - 0xDC00)))
  else none

/-- The character that a letter after a backslash stands for. -/
def escaped? : Char → Option Char
  | '"' => some '"'
  | '\\' => some '\\'
  | '/' => some '/'
  | 'b' => some (Char.ofNat 8)
  | 'f' => some (Char.ofNat 12)
  | 'n' => some '\n'
  | 'r' => some '\r'
  | 't' => some '\t'
  | _ => none

/-- A part of a text: a character, or a unit of sixteen bits given by its digits. -/
inductive Piece where
  /-- A character. -/
  | char (c : Char)
  /-- A unit. -/
  | unit (n : Nat)

/-- The parts of a text up to the closing quote, and what follows it. -/
def readPieces : List Char → Option (List Piece × List Char)
  | [] => none
  | '"' :: rest => some ([], rest)
  | '\\' :: 'u' :: a :: b :: c :: d :: rest => do
    let n ← hexUnit? a b c d
    (readPieces rest).map fun (ps, r) => (.unit n :: ps, r)
  | '\\' :: c :: rest => do
    let e ← escaped? c
    (readPieces rest).map fun (ps, r) => (.char e :: ps, r)
  | c :: rest =>
    if c.toNat < 0x20 || c == '\\' then none
    else (readPieces rest).map fun (ps, r) => (.char c :: ps, r)

/-- The characters of the parts of a text, where `half` is a first half that still waits. -/
def joinPieces (mode : Reader) (half : Option Nat) : List Piece → List Char
  | [] => if half.isSome then [Utf8.replacement] else []
  | .char c :: ps =>
    if half.isSome then Utf8.replacement :: c :: joinPieces mode none ps
    else c :: joinPieces mode none ps
  | .unit n :: ps =>
    match half with
    | none => if isSurrogate n then joinPieces mode (some n) ps
        else Char.ofNat n :: joinPieces mode none ps
    | some h =>
      match joinSurrogates? h n, mode with
      | some c, _ => Utf8.ofChar c ++ joinPieces mode none ps
      | none, .paired => Utf8.replacement :: joinPieces mode none ps
      | none, .alone => Utf8.replacement :: (if isSurrogate n then joinPieces mode (some n) ps
          else Char.ofNat n :: joinPieces mode none ps)

/-- The characters of a text as they are handed on. -/
def handOn (mode : Reader) (cs : List Char) : List Char :=
  match mode with
  | .alone => Utf8.spellFrom Utf8.ofChar (fun _ => [Utf8.replacement]) 0 cs
  | .paired => cs

/-- The text up to the closing quote, and what follows it. -/
def readText (mode : Reader) (cs : List Char) : Option (List Char × List Char) :=
  (readPieces cs).map fun (ps, r) => (handOn mode (joinPieces mode none ps), r)

/-! ### Numbers -/

/-- The digits of a number `[-] whole [. digits] [e [-+] digits]` whose whole part has no leading
zero, and what follows them. -/
def readNumber (cs : List Char) : Option (List Char × List Char) := do
  let (sign, cs) := match cs with
    | '-' :: cs => (['-'], cs)
    | cs => ([], cs)
  let (whole, cs) ← match cs with
    | '0' :: cs => some (['0'], cs)
    | cs =>
      match spanDigits cs with
      | ([], _) => none
      | (ds, cs) => some (ds, cs)
  let (fraction, cs) ← match cs with
    | '.' :: cs =>
      match spanDigits cs with
      | ([], _) => none
      | (ds, cs) => some ('.' :: ds, cs)
    | cs => some ([], cs)
  let (exponent, cs) ← match cs with
    | c :: cs =>
      if c == 'e' || c == 'E' then
        let (mark, cs) := match cs with
          | '+' :: cs => (['+'], cs)
          | '-' :: cs => (['-'], cs)
          | cs => ([], cs)
        match spanDigits cs with
        | ([], _) => none
        | (ds, cs) => some (c :: mark ++ ds, cs)
      else some ([], c :: cs)
    | [] => some ([], [])
  return (sign ++ whole ++ fraction ++ exponent, cs)

/-! ### Values -/

/-- The text before `rest` in a text that ends with it. -/
def sourceBefore (cs rest : List Char) : String :=
  String.ofList (cs.take (cs.length - rest.length))

mutual

/-- A value at the head of a text without blanks before it. -/
def readValue (mode : Reader) : Nat → List Char → Option (Json × List Char)
  | 0, _ => none
  | fuel + 1, cs =>
    match cs with
    | '"' :: rest => (readText mode rest).map fun (s, r) => (.string (String.ofList s), r)
    | '[' :: rest =>
      match skipGap rest with
      | ']' :: after => some (.array [] (sourceBefore cs after), after)
      | rest =>
        (readItems mode fuel rest).map fun (items, r) => (.array items (sourceBefore cs r), r)
    | '{' :: rest =>
      match skipGap rest with
      | '}' :: after => some (.object [] (sourceBefore cs after), after)
      | rest =>
        (readMembers mode fuel rest).map fun (ms, r) => (.object ms (sourceBefore cs r), r)
    | 'n' :: 'u' :: 'l' :: 'l' :: rest => some (.null, rest)
    | 't' :: 'r' :: 'u' :: 'e' :: rest => some (.bool true, rest)
    | 'f' :: 'a' :: 'l' :: 's' :: 'e' :: rest => some (.bool false, rest)
    | cs => (readNumber cs).map fun (ds, r) => (.number (String.ofList ds), r)

/-- Items up to the closing bracket. -/
def readItems (mode : Reader) : Nat → List Char → Option (List Json × List Char)
  | 0, _ => none
  | fuel + 1, cs => do
    let (v, rest) ← readValue mode fuel (skipGap cs)
    match skipGap rest with
    | ',' :: rest => (readItems mode fuel rest).map fun (vs, r) => (v :: vs, r)
    | ']' :: rest => some ([v], rest)
    | _ => none

/-- Members up to the closing brace. -/
def readMembers (mode : Reader) : Nat → List Char → Option (List (String × Json) × List Char)
  | 0, _ => none
  | fuel + 1, cs =>
    match skipGap cs with
    | '"' :: rest => do
      let (name, rest) ← readText mode rest
      match skipGap rest with
      | ':' :: rest =>
        let (v, rest) ← readValue mode fuel (skipGap rest)
        let member := (String.ofList name, v)
        match skipGap rest with
        | ',' :: rest => (readMembers mode fuel rest).map fun (ms, r) => (member :: ms, r)
        | '}' :: rest => some ([member], rest)
        | _ => none
      | _ => none
    | _ => none

end

/-- **Reading a JSON text**: one value, with blanks around it at most. -/
def read? (mode : Reader) (s : String) : Option Json :=
  let cs := s.toList
  match readValue mode (2 * cs.length + 2) (skipGap cs) with
  | none => none
  | some (v, rest) => if (skipGap rest).isEmpty then some v else none

/-! ### Looking into values -/

/-- The first member with a name. -/
def get? (name : String) : Json → Option Json
  | .object ms _ => ms.lookup name
  | _ => none

/-- The members of an object; other values have none. -/
def members : Json → List (String × Json)
  | .object ms _ => ms
  | _ => []

/-- The items of an array; other values have none. -/
def items : Json → List Json
  | .array vs _ => vs
  | _ => []

/-- The value is an object. -/
def isObject : Json → Bool
  | .object .. => true
  | _ => false

/-- The value is an array. -/
def isArray : Json → Bool
  | .array .. => true
  | _ => false

/-- The text of a text value. -/
def text? : Json → Option String
  | .string s => some s
  | _ => none

/-- The number nearest to the digits of a number. -/
def double? : Json → Option Double
  | .number ds => (Decimal.read ds.toList).map (·.toBinary .double)
  | _ => none

end Json

end Statuary
