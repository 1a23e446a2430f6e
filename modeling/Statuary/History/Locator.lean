import Statuary.Json.Basic
import Statuary.Text.Blank
import Statuary.Text.Quoted
import Statuary.Text.Search
import Statuary.Text.Utf8

/-!
# Where an index is kept

The path of an index is more than the name of a file. What stands after a question mark are
parameters, and a path that begins with `file:` is a locator, whose name may hold escapes, whose
parameters say how the file is opened, and whose authority, if it has one, can only be this machine.
Some paths stand for no file at all, but for an index that is kept nowhere and therefore empty
whenever it is asked for. `Statuary.Location.ofPath` reads a path.

The one obstacle is that parameters are read twice, by two rules. The strict reading
(`Statuary.Query.read`) refuses a query with an escape that is none or with a semicolon, and it
knows the parameters whose names begin with an underscore. The lenient one (`Statuary.Options.read`)
takes such things for plain characters; it is the one that a locator is opened by. A path that is no
locator has the strict reading only.
-/

namespace Statuary

/-- What is wrong with the path of an index. -/
inductive LocationError where
  /-- A percent sign without two digits in base sixteen; the sign and at most two bytes after it. -/
  | badEscape (bytes : List UInt8)
  /-- A semicolon between parameters. -/
  | semicolon
  /-- Several ways to reach files. -/
  | manySystems (names : List String)
  /-- A parameter or an authority that means nothing. -/
  | unknown
  /-- More access than an earlier parameter allows. -/
  | denied
  /-- A name that leads nowhere. -/
  | unreachable
  /-- A name that leads to something that cannot be read. -/
  | unreadable
  /-- A way to write times that is not known. -/
  | timeFormat (name : String)
  /-- A way to lock that is not known. -/
  | lock (name : String)
  deriving DecidableEq, Repr

/-- The text of an error. -/
def LocationError.message : LocationError → String
  | badEscape bytes => "invalid URL escape " ++ quoted (Utf8.decode bytes)
  | semicolon => "invalid semicolon separator in query"
  | manySystems names => "conflicting vfs query parameters: [" ++ " ".intercalate names ++ "]"
  | unknown => "SQL logic error: out of memory (1)"
  | denied => "access permission denied: out of memory (3)"
  | unreachable => "unable to open database file: out of memory (14)"
  | unreadable => "disk I/O error: out of memory (10)"
  | timeFormat name => "unknown _time_format " ++ quoted name
  | lock name => "unknown _txlock " ++ quoted name

/-- The text before the first of some characters, and the text from it on. -/
def before (marks : List Char) (cs : List Char) : List Char × List Char :=
  cs.span fun c => !marks.contains c

/-- A name and a value with an equality sign between them; without one the value is empty. -/
def namedValue (piece : List Char) : List Char × List Char :=
  let (name, rest) := before ['='] piece
  (name, rest.drop 1)

/-! ### The strict reading -/

/-- Parameters of a path: names and values. -/
abbrev Query := List (String × String)

namespace Query

/-- The byte that two digits in base sixteen stand for. -/
def hexByte? (a b : UInt8) : Option UInt8 := do
  let high ← Json.hexValue? (Char.ofNat a.toNat)
  let low ← Json.hexValue? (Char.ofNat b.toNat)
  return UInt8.ofNat (16 * high + low)

/-- Bytes in which `%` and two digits stand for a byte, and `+` for a blank. -/
def unescape : List UInt8 → Except LocationError (List UInt8)
  | [] => .ok []
  | 0x25 :: a :: b :: bs =>
    match hexByte? a b with
    | some c => (unescape bs).map (c :: ·)
    | none => .error (.badEscape [0x25, a, b])
  | 0x25 :: bs => .error (.badEscape (0x25 :: bs))
  | 0x2B :: bs => (unescape bs).map (0x20 :: ·)
  | b :: bs => (unescape bs).map (b :: ·)

/-- The text of a name or of a value. -/
def component (cs : List Char) : Except LocationError String :=
  (unescape (cs.flatMap Utf8.encodeChar)).map Utf8.decode

/-- One parameter. -/
def parameter (piece : List Char) : Except LocationError (String × String) := do
  let (name, value) := namedValue piece
  return (← component name, ← component value)

/-- **The parameters of a query.** A semicolon is worse than an escape that is none. -/
def read (cs : List Char) : Except LocationError Query :=
  if cs.contains ';' then .error .semicolon
  else ((splitOnChar '&' cs).filter (! ·.isEmpty)).mapM parameter

/-- All values with a name. -/
def values (q : Query) (name : String) : List String :=
  (q.filter (·.1 = name)).map (·.2)

/-- The one way to reach files that is asked for, if any is. A byte zero ends its name, but does not
make two names the same. -/
def system? (q : Query) : Except LocationError (Option String) :=
  let names := q.values "vfs"
  match names.dropWhile (· = "") with
  | [] => .ok none
  | name :: more =>
    if more.all (· = name) then .ok (some (String.ofList (before ['\x00'] name.toList).1))
    else .error (.manySystems names)

/-- A text in small letters. Two letters beyond ASCII have a small form within it. -/
def lower (s : String) : String :=
  s.map fun c =>
    if c = 'İ' then 'i' else if c = Char.ofNat 0x212A then 'k' else c.toLower

/-- Whether a known way to write times, or else to lock, is asked for, if any is. -/
def check (q : Query) : Except LocationError Unit :=
  let first (name : String) : String := (q.values name).headD ""
  let format := first "_time_format"
  let lock := first "_txlock"
  if format = "sqlite" then .ok ()
  else if format ≠ "" then .error (.timeFormat format)
  else if ["", "deferred", "immediate", "exclusive"].contains (lower lock) then .ok ()
  else .error (.lock lock)

/-- Whether the first of two pragmas is to be carried out before the second: one about the time to
wait is, and otherwise the lesser text. -/
def precedes (a b : String) : Bool :=
  let a := trim (lower a)
  let b := trim (lower b)
  startsWith "busy_timeout" a || !startsWith "busy_timeout" b && textLt a b

/-- **The pragmas** of a query in the order in which they are carried out. -/
def pragmas (q : Query) : List String :=
  ((q.values "_pragma").foldl sink []).reverse
where
  /-- Puts a pragma after those that come before it; the last one is at the head. -/
  sink : List String → String → List String
    | [], p => [p]
    | last :: more, p => if precedes p last then last :: sink more p else p :: last :: more

end Query

/-! ### The lenient reading -/

/-- How the file of an index is opened. -/
inductive Access where
  /-- To write, and the file is made if it is missing. -/
  | create
  /-- To write, if the file is there. -/
  | write
  /-- To read only. -/
  | read
  /-- Not at all: the index is kept nowhere. -/
  | nowhere
  deriving DecidableEq, Repr

namespace Access

/-- How much an access asks for. -/
def demand : Access → Nat
  | nowhere => 0
  | read => 1
  | write => 2
  | create => 6

/-- How much a later parameter may ask for. -/
def limit : Access → Nat
  | nowhere => 128
  | a => a.demand

/-- The access with a name. -/
def ofName? : String → Option Access
  | "ro" => some read
  | "rw" => some write
  | "rwc" => some create
  | "memory" => some nowhere
  | _ => none

end Access

/-- What the parameters of a locator say. -/
structure Options where
  /-- How the file is opened. -/
  access : Access := .create
  /-- The way to reach files, if one is asked for. -/
  system? : Option String := none
  deriving DecidableEq, Repr

namespace Options

/-- A text in which bytes may be written as `%` with two digits in base sixteen. A byte zero ends
it. -/
def unescape (cs : List Char) : String :=
  Utf8.decode ((bytes cs).takeWhile (· ≠ 0))
where
  /-- All its bytes. -/
  bytes : List Char → List UInt8
    | '%' :: a :: b :: cs =>
      match Json.hexValue? a, Json.hexValue? b with
      | some high, some low => UInt8.ofNat (16 * high + low) :: bytes cs
      | _, _ => Utf8.encodeChar '%' ++ bytes (a :: b :: cs)
    | c :: cs => Utf8.encodeChar c ++ bytes cs
    | [] => []

/-- The parameter of one piece of a query. -/
def parameter (piece : List Char) : String × String :=
  let (name, value) := namedValue piece
  (unescape name, unescape value)

/-- The parameters of a query. -/
def parameters (cs : List Char) : Query :=
  (splitOnChar '&' cs).map parameter

/-- What one more parameter adds. -/
def step (o : Options) : String × String → Except LocationError Options
  | ("vfs", name) => .ok { o with system? := some name }
  | ("cache", name) => if ["shared", "private"].contains name then .ok o else .error .unknown
  | ("mode", name) =>
    match Access.ofName? name with
    | none => .error .unknown
    | some a => if a.demand ≤ o.access.limit then .ok { o with access := a } else .error .denied
  | _ => .ok o

/-- **The options in parameters.** -/
def read (q : Query) : Except LocationError Options :=
  q.foldlM step {}

end Options

/-! ### Truth values -/

/-- The number at the head of a text, in base ten or, after `0x`, sixteen; one of more than 31 bits
counts as zero. -/
def leadingNumber (cs : List Char) : Nat :=
  let value (base : Nat) (cs : List Char) : Nat :=
    let n := ((cs.map Json.hexValue?).takeWhile fun d => d.any (· < base)).foldl
      (fun n d => base * n + d.getD 0) 0
    if n < Nat.pow 2 31 then n else 0
  match cs with
  | '0' :: x :: d :: cs =>
    if x.toLower = 'x' && (Json.hexValue? d).isSome then value 16 (d :: cs)
    else value 10 ('0' :: x :: d :: cs)
  | cs => value 10 cs

/-- A text that means yes: one of three words, or a number whose last byte is not zero. -/
def isTrue (s : String) : Bool :=
  match s.toList with
  | c :: cs =>
    if c.isDigit then leadingNumber (c :: cs) % 256 ≠ 0
    else ["on", "yes", "true"].contains s.toLower
  | [] => false

/-! ### Locations -/

/-- Where and how an index is kept. -/
structure Location where
  /-- The name of its file, if it is kept in one. -/
  file? : Option String
  /-- How the file is opened. -/
  access : Access
  /-- The way to reach the file; the empty text stands for the usual one. -/
  system : String
  /-- Its parameters as they are read strictly. -/
  query : Query
  /-- Those of a locator as they are read leniently. -/
  options : Query
  deriving DecidableEq, Repr

namespace Location

/-- The name of an index that is kept nowhere. -/
def nowhere : String := ":memory:"

/-- The ways to reach files on a disk; the empty text stands for the usual one. -/
def diskSystems : List String := ["", "unix", "unix-none", "unix-dotfile", "unix-excl"]

/-- The way to reach files that are kept nowhere. -/
def memorySystem : String := "memdb"

/-- The most bytes of the name of a file that is kept nowhere. -/
def memoryNameBytes : Nat := 1016

/-- An option means yes. -/
def allows (l : Location) (option : String) : Bool :=
  (l.options.lookup option).any isTrue

/-- Nobody changes the file, this program included. -/
def isSealed (l : Location) : Bool := l.allows "immutable"

/-- The location of a file with a name, reached in some way. -/
def named (query options : Query) (system? : Option String) (name : String) (access : Access) :
    Except LocationError Location :=
  let l : Location := ⟨none, access, system?.getD "", query, options⟩
  if l.system ≠ memorySystem ∧ (!diskSystems.contains l.system ∨ system? = some "") then
    .error .unknown
  else if name = "" ∨ name = nowhere ∨ access = .nowhere then .ok l
  else if l.system ≠ memorySystem then .ok { l with file? := some name }
  else if memoryNameBytes < Utf8.size name then .error .unreachable
  else .ok { l with access := if l.isSealed then .read else access }

/-- The location of a locator, after its beginning. -/
def ofLocator (query : Query) (system? : Option String) (cs : List Char) :
    Except LocationError Location := do
  let (authority, cs) := match cs with
    | '/' :: '/' :: cs => before ['/'] cs
    | cs => ([], cs)
  if !authority.isEmpty && authority != "localhost".toList then throw .unknown
  let (name, rest) := before ['?'] (before ['#'] cs).1
  let parameters := Options.parameters (rest.drop 1)
  let options ← Options.read parameters
  named query parameters (options.system? <|> system?) (Options.unescape name) options.access

/-- A path, and what stands after its first question mark, unless that is its first character. -/
def split (cs : List Char) : List Char × List Char :=
  match before ['?'] cs with
  | ([], _) => (cs, [])
  | (name, rest) => (name, rest.drop 1)

/-- **The location that a path stands for.** A path ends where a byte zero stands. -/
def ofPath (path : String) : Except LocationError Location := do
  let (name, rest) := split path.toList
  let query ← Query.read rest
  let system? ← query.system?
  match dropLead? "file:".toList (before ['\x00'] path.toList).1 with
  | some cs => ofLocator query system? cs
  | none => named query [] system? (String.ofList (before ['\x00'] name).1) .create

end Location

end Statuary
