import Statuary.Json.Basic

/-!
# Pragmas

A **pragma** sets how an index behaves while it is open. It has a name, which may say the part of
the index it is about, and it may have a value: `busy_timeout`, `main.query_only = 1`,
`max_page_count(3)`. `Statuary.Pragma.read` reads the first one of a text and gives what follows the
semicolon that ends it.

A text is cut into tokens before it is read (`Statuary.Pragma.scan`), and the first token that
cannot stand where it stands is what an error tells of. Words that mean something in a statement are
no names, with two exceptions: those that mean something in few places only, and three that may
stand as values.
-/

namespace Statuary

/-- What is wrong with a statement. -/
inductive StatementError where
  /-- It ends too early. -/
  | incomplete
  /-- A token that cannot stand where it stands. -/
  | unexpected (token : String)
  /-- No token starts like this. -/
  | unrecognized (token : String)
  /-- It is about a part of the index that there is not. -/
  | unknownPart (token : String)
  /-- A directory that cannot be written. -/
  | noDirectory
  /-- A way to write texts that there is not. -/
  | unknownEncoding (name : String)
  /-- A table that there is not. -/
  | noTable (name : String)
  /-- A row with another number of values than the table has columns. -/
  | valueCount (table : String) (columns values : Nat)
  /-- A transaction inside another one. -/
  | nested
  /-- The end of a transaction that did not begin. -/
  | noTransaction (action : String)
  /-- A point in a transaction that there is not. -/
  | noPoint (name : String)
  /-- A tidying of the file inside a transaction. -/
  | tidyInside
  /-- A turn to the log, or away from it, inside a transaction. -/
  | logInside (direction : String)
  /-- Another care for the disk inside a transaction. -/
  | careInside
  deriving DecidableEq, Repr

/-- The text of an error. -/
def StatementError.message (e : StatementError) : String :=
  "SQL logic error: " ++ reason ++ " (1)"
where
  /-- What is wrong. -/
  reason : String :=
    match e with
    | incomplete => "incomplete input"
    | unexpected t => "near \"" ++ t ++ "\": syntax error"
    | unrecognized t => "unrecognized token: \"" ++ t ++ "\""
    | unknownPart t => "unknown database " ++ t
    | noDirectory => "not a writable directory"
    | unknownEncoding name => "unsupported encoding: " ++ name
    | noTable name => "no such table: " ++ name
    | valueCount table columns values => "table " ++ table ++ " has " ++ toString columns ++
        " columns but " ++ toString values ++ " values were supplied"
    | nested => "cannot start a transaction within a transaction"
    | noTransaction action => "cannot " ++ action ++ " - no transaction is active"
    | noPoint name => "no such savepoint: " ++ name
    | tidyInside => "cannot VACUUM from within a transaction"
    | logInside direction => "cannot change " ++ direction ++
        " wal mode from within a transaction"
    | careInside => "Safety level may not be changed inside a transaction"

/-- A pragma. -/
structure Pragma where
  /-- The part of the index that it is about, if it says one. -/
  part? : Option String
  /-- Its name, in small letters. -/
  name : String
  /-- Its value, if it has one. -/
  value? : Option String
  deriving DecidableEq, Repr

namespace Pragma

/-! ### Tokens -/

/-- What a token is. -/
inductive Kind where
  /-- A word that may be a name, or a name in quotes. -/
  | name
  /-- A text in quotes, which may be a name as well. -/
  | text
  /-- A number. -/
  | number
  /-- A word that may be a value. -/
  | choice
  /-- A plus sign. -/
  | plus
  /-- A minus sign. -/
  | minus
  /-- A point. -/
  | point
  /-- A sign of equality. -/
  | equal
  /-- An opening bracket. -/
  | opening
  /-- A closing bracket. -/
  | closing
  /-- A semicolon. -/
  | semicolon
  /-- Anything else. -/
  | other
  /-- No token at all. -/
  | illegal
  deriving DecidableEq, Repr

/-- A token and its characters. -/
structure Token where
  /-- What it is. -/
  kind : Kind
  /-- Its characters. -/
  chars : List Char
  deriving DecidableEq, Repr

/-- The words that stand for themselves only. -/
def reservedWords : List String :=
  ["add", "all", "alter", "and", "as", "autoincrement", "between", "case", "check", "collate",
    "commit", "constraint", "create", "deferrable", "distinct", "drop", "else", "escape", "except",
    "exists", "foreign", "from", "group", "having", "in", "index", "insert", "intersect", "into",
    "is", "isnull", "join", "limit", "not", "nothing", "notnull", "null", "or", "order", "primary",
    "references", "returning", "select", "set", "table", "then", "to", "transaction", "union",
    "unique", "update", "using", "values", "when", "where"]

/-- The words that may stand as values besides. -/
def choiceWords : List String := ["default", "delete", "on"]

/-- A blank between tokens. -/
def isGap (c : Char) : Bool :=
  c == ' ' || c == '\t' || c == '\n' || c == '\r' || c.toNat == 12

/-- A character inside a word. -/
def isWordChar (c : Char) : Bool :=
  c.isAlphanum || c == '_' || c == '$' || 0x80 ≤ c.toNat

/-- A digit in base sixteen. -/
def isHexDigit (c : Char) : Bool := (Json.hexValue? c).isSome

/-- What a word is. -/
def wordKind (word : List Char) : Kind :=
  let w := (String.ofList word).toLower
  if reservedWords.contains w then .other else if choiceWords.contains w then .choice else .name

/-- The number of characters up to the closing quote and with it; a quote written twice closes
nothing. -/
def quotedLength (quote : Char) : List Char → Option Nat
  | [] => none
  | [c] => if c = quote then some 1 else none
  | c :: d :: cs =>
    if c ≠ quote then (quotedLength quote (d :: cs)).map (· + 1)
    else if d = quote then (quotedLength quote cs).map (· + 2)
    else some 1

/-- The length of a comment after its beginning. -/
def commentLength : List Char → Nat
  | [] => 0
  | '*' :: '/' :: _ => 2
  | _ :: cs => commentLength cs + 1

/-- The length of the digits at the head of a text, and whether a line stands between them. -/
def digitsLength (isDigit : Char → Bool) (cs : List Char) : Nat × Bool :=
  let ds := cs.takeWhile fun c => isDigit c || c == '_'
  (ds.length, ds.contains '_')

/-- The kind and the length of the number at the head of a text. Digits with lines between them are
a number elsewhere, and a number that runs into a word is none. -/
def number (cs : List Char) : Kind × Nat :=
  let decimal : Nat × Bool :=
    let (whole, lined) := digitsLength Char.isDigit cs
    let (fraction, lined) := match cs.drop whole with
      | '.' :: more =>
        let (n, l) := digitsLength Char.isDigit more
        (n + 1, lined || l)
      | _ => (0, lined)
    let n := whole + fraction
    match cs.drop n with
    | e :: d :: more =>
      if e.toLower ≠ 'e' then (n, lined)
      else if d.isDigit || (d == '+' || d == '-') && more.head?.any Char.isDigit then
        let (k, l) := digitsLength Char.isDigit more
        (n + 2 + k, lined || l)
      else (n, lined)
    | _ => (n, lined)
  let (n, lined) := match cs with
    | '0' :: x :: d :: more =>
      if x.toLower = 'x' && isHexDigit d then
        let (k, l) := digitsLength isHexDigit more
        (3 + k, l)
      else decimal
    | _ => decimal
  let tail := ((cs.drop n).takeWhile isWordChar).length
  (if tail ≠ 0 then .illegal else if lined then .other else .number, n + tail)

/-- The kind and the length of the parameter at the head of a text. -/
def parameter (cs : List Char) : Kind × Nat :=
  go 1 false (cs.drop 1)
where
  /-- Its length after `n` characters, of which some belonged to a word. -/
  go (n : Nat) (named : Bool) : List Char → Kind × Nat
    | [] => (if named then .other else .illegal, n)
    | c :: cs =>
      if isWordChar c then go (n + 1) true cs
      else if c = '(' && named then
        let inside := cs.takeWhile fun c => !isGap c && c != ')'
        if (cs.drop inside.length).head? = some ')' then (.other, n + inside.length + 2)
        else (.illegal, n + inside.length + 1)
      else if c = ':' && cs.head? = some ':' then go (n + 2) named (cs.drop 1)
      else (if named then .other else .illegal, n)
    termination_by cs => cs.length

/-- The kind and the length of the bytes at the head of a text, after their letter and quote. -/
def blob (cs : List Char) : Kind × Nat :=
  let digits := (cs.takeWhile isHexDigit).length
  if (cs.drop digits).head? = some '\'' && digits % 2 = 0 then (.other, digits + 3)
  else
    let inside := (cs.takeWhile (· ≠ '\'')).length
    (.illegal, 2 + inside + (if inside < cs.length then 1 else 0))

/-- The kind and the length of the token at the head of a text; no kind for what is between tokens.
-/
def next : List Char → Option Kind × Nat
  | [] => (none, 1)
  | c :: cs =>
    let one (k : Kind) : Option Kind × Nat := (some k, 1)
    let of (r : Kind × Nat) : Option Kind × Nat := (some r.1, r.2)
    let word : Option Kind × Nat :=
      let w := (c :: cs).takeWhile isWordChar
      (some (wordKind w), w.length)
    if isGap c || c.toNat = 0xFEFF then (none, 1)
    else match c with
      | '-' =>
        match cs with
        | '-' :: more => (none, 2 + (more.takeWhile (· ≠ '\n')).length)
        | '>' :: '>' :: _ => (some .other, 3)
        | '>' :: _ => (some .other, 2)
        | _ => one .minus
      | '/' =>
        match cs with
        | '*' :: d :: more => (none, 2 + commentLength (d :: more))
        | _ => one .other
      | '(' => one .opening
      | ')' => one .closing
      | ';' => one .semicolon
      | '+' => one .plus
      | '=' => (some .equal, if cs.head? = some '=' then 2 else 1)
      | '<' => (some .other, if cs.head?.any ['=', '>', '<'].contains then 2 else 1)
      | '>' => (some .other, if cs.head?.any ['=', '>'].contains then 2 else 1)
      | '!' => if cs.head? = some '=' then (some .other, 2) else one .illegal
      | '|' => (some .other, if cs.head? = some '|' then 2 else 1)
      | '.' => if cs.head?.any Char.isDigit then of (number (c :: cs)) else one .point
      | '[' =>
        let inside := (cs.takeWhile (· ≠ ']')).length
        if inside < cs.length then (some .name, inside + 2) else (some .illegal, inside + 1)
      | '?' => (some .other, 1 + (cs.takeWhile Char.isDigit).length)
      | _ =>
        if c = '\'' || c = '"' || c.toNat = 0x60 then
          match quotedLength c cs with
          | some n => (some (if c = '\'' then .text else .name), n + 1)
          | none => (some .illegal, cs.length + 1)
        else if ['*', '%', ',', '&', '~'].contains c then one .other
        else if ['$', '@', ':', '#'].contains c then of (parameter (c :: cs))
        else if c.isDigit then of (number (c :: cs))
        else if c.toLower = 'x' && cs.head? = some '\'' then of (blob (cs.drop 1))
        else if isWordChar c then word
        else one .illegal

/-- The tokens of a text. Every step goes forward, so as many steps as there are characters are
enough. -/
def scanFrom : Nat → List Char → List Token
  | 0, _ => []
  | _, [] => []
  | fuel + 1, cs =>
    let (kind?, n) := next cs
    let rest := scanFrom fuel (cs.drop n)
    match kind? with
    | some kind => ⟨kind, cs.take n⟩ :: rest
    | none => rest

/-- **The tokens of a text.** A character zero ends it. -/
def scan (s : String) : List Token :=
  let cs := s.toList.takeWhile (· ≠ '\x00')
  scanFrom cs.length cs

/-! ### Names and values -/

/-- The text between quotes, in which a quote written twice stands for one. -/
def unquoted (quote : Char) : List Char → List Char
  | [] => []
  | [c] => if c = quote then [] else [c]
  | c :: d :: cs =>
    if c ≠ quote then c :: unquoted quote (d :: cs)
    else if d = quote then quote :: unquoted quote cs
    else []

/-- The text that a token stands for. -/
def Token.value (t : Token) : String :=
  String.ofList (match t.chars with
    | '[' :: cs => unquoted ']' cs
    | c :: cs => if c = '\'' || c = '"' || c.toNat = 0x60 then unquoted c cs else c :: cs
    | [] => [])

/-- The characters of a token. -/
def Token.text (t : Token) : String := String.ofList t.chars

/-! ### Reading -/

/-- The error at the head of tokens. -/
def failure : List Token → StatementError
  | [] => .incomplete
  | t :: _ => if t.kind = .illegal then .unrecognized t.text else .unexpected t.text

/-- The token at the head, if it is of one of some kinds. -/
def take (kinds : List Kind) : List Token → Except StatementError (Token × List Token)
  | [] => .error .incomplete
  | t :: ts => if kinds.contains t.kind then .ok (t, ts) else .error (failure (t :: ts))

/-- A value. -/
def readValue (ts : List Token) : Except StatementError (String × List Token) := do
  let (t, ts) ← take [.name, .text, .choice, .number, .plus, .minus] ts
  match t.kind with
  | .plus =>
    let (t, ts) ← take [.number] ts
    return (t.value, ts)
  | .minus =>
    let (t, ts) ← take [.number] ts
    return ("-" ++ t.value, ts)
  | _ => return (t.value, ts)

/-- The value after a name, if there is one. -/
def readValue? : List Token → Except StatementError (Option String × List Token)
  | ts@(t :: rest) =>
    match t.kind with
    | .equal => (readValue rest).map fun (v, ts) => (some v, ts)
    | .opening => do
      let (v, ts) ← readValue rest
      let (_, ts) ← take [.closing] ts
      return (some v, ts)
    | _ => .ok (none, ts)
  | [] => .ok (none, [])

/-- The parts of an index. -/
def parts : List String := ["main", "temp"]

/-- The tokens after the end of a statement. -/
def readEnd : List Token → Except StatementError (List Token)
  | [] => .ok []
  | t :: ts => if t.kind = .semicolon then .ok ts else .error (failure (t :: ts))

/-- **Reading a pragma** after the word that begins it, and the tokens after its end. -/
def read (ts : List Token) : Except StatementError (Pragma × List Token) := do
  let (first, ts) ← take [.name, .text] ts
  let (part?, name, ts) ← match ts with
    | ⟨.point, _⟩ :: ts => do
      let (second, ts) ← take [.name, .text] ts
      pure (some first, second, ts)
    | ts => pure (none, first, ts)
  let (value?, ts) ← readValue? ts
  let ts ← readEnd ts
  match part? with
  | none => return (⟨none, name.value.toLower, value?⟩, ts)
  | some part =>
    let p := part.value.toLower
    if parts.contains p then return (⟨some p, name.value.toLower, value?⟩, ts)
    else throw (.unknownPart part.text)

end Pragma

end Statuary
