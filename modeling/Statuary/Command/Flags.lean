import Statuary.Assoc
import Statuary.Number.Literal
import Statuary.Text.Quoted
import Statuary.Text.Search
import Statuary.Time.Duration

/-!
# Command-line flags

A flag is written with one dash or two. Its value follows after an equals sign or as the next
argument; a switch has a value only after an equals sign. Flags end at the first argument that is
none, or after two dashes alone. A flag may be given more than once, and **the last one counts**.

The first fault ends the reading, and its text is followed by the list of all flags
(`Statuary.FlagError.report`).
-/

namespace Statuary

/-- What a flag takes, with what it is when it is not given. -/
inductive FlagKind where
  /-- A text. -/
  | text (absent : String)
  /-- Yes or no; no when absent. -/
  | switch
  /-- A whole number. -/
  | number (absent : Int)
  /-- A length of time, in nanoseconds. -/
  | duration (absent : Int)
  deriving DecidableEq, Repr

/-- A flag that a command knows. -/
structure FlagSpec where
  /-- Its name. -/
  name : String
  /-- What it takes. -/
  kind : FlagKind
  /-- What it is for. -/
  purpose : String
  deriving DecidableEq, Repr

/-- The value of a flag. -/
inductive FlagValue where
  /-- A text. -/
  | text (s : String)
  /-- Yes or no. -/
  | switch (b : Bool)
  /-- A whole number. -/
  | number (n : Int)
  /-- A length of time, in nanoseconds. -/
  | duration (n : Int)
  deriving DecidableEq, Repr

/-- What is wrong with the text of a value. -/
inductive FlagFault where
  /-- It cannot be read. -/
  | unreadable
  /-- It has more than 64 bits. -/
  | outOfRange
  deriving DecidableEq, Repr

/-- The text of a fault. -/
def FlagFault.text : FlagFault → String
  | unreadable => "parse error"
  | outOfRange => "value out of range"

/-- Why flags cannot be read. -/
inductive FlagError where
  /-- An argument looks like a flag and is none. -/
  | malformed (arg : String)
  /-- There is no such flag. -/
  | unknown (name : String)
  /-- A flag has no value. -/
  | noValue (name : String)
  /-- The value of a switch is neither yes nor no. -/
  | badSwitch (name value : String)
  /-- A value is none of the right kind. -/
  | badValue (name value : String) (fault : FlagFault)
  /-- The list of flags was asked for. -/
  | help
  deriving DecidableEq, Repr

namespace FlagError

/-- The text of an error. -/
def message : FlagError → String
  | malformed arg => "bad flag syntax: " ++ arg
  | unknown name => "flag provided but not defined: -" ++ name
  | noValue name => "flag needs an argument: -" ++ name
  | badSwitch name value =>
    "invalid boolean value " ++ quoted value ++ " for -" ++ name ++ ": " ++
      FlagFault.unreadable.text
  | badValue name value fault =>
    "invalid value " ++ quoted value ++ " for flag -" ++ name ++ ": " ++ fault.text
  | help => ""

end FlagError

namespace FlagKind

/-- The value of a flag that is not given. -/
def absentValue : FlagKind → FlagValue
  | text s => .text s
  | switch => .switch false
  | number n => .number n
  | duration n => .duration n

/-- What the list of flags calls a value. -/
def name : FlagKind → String
  | text _ => " string"
  | switch => ""
  | number _ => " int"
  | duration _ => " duration"

end FlagKind

namespace Flags

/-! ### Values -/

/-- Yes or no. -/
def readSwitch? (s : String) : Option Bool :=
  if ["1", "t", "T", "TRUE", "true", "True"].contains s then some true
  else if ["0", "f", "F", "FALSE", "false", "False"].contains s then some false
  else none

/-- A whole number in one of four bases, with underscores between its digits. -/
def readWhole? (s : String) : Option Int :=
  let (negative, body) := takeSign s.toList
  let fine := match body with
    | '0' :: c :: rest =>
      if c.toLower == 'x' then underscoresOk true true false rest
      else if c.toLower == 'o' || c.toLower == 'b' then underscoresOk false true false rest
      else underscoresOk false false false body
    | _ => underscoresOk false false false body
  if fine then
    (readUnsigned (body.filter (· ≠ '_'))).map fun n => if negative then -(n : Int) else n
  else none

/-- The base of a whole number without sign, and its digits. -/
def baseOf : List Char → Nat × List Char
  | '0' :: c :: d :: ds =>
    if c.toLower == 'x' then (16, d :: ds)
    else if c.toLower == 'o' then (8, d :: ds)
    else if c.toLower == 'b' then (2, d :: ds)
    else (8, c :: d :: ds)
  | '0' :: ds => (8, ds)
  | ds => (10, ds)

/-- The digits at the head of a text spell a number of more than 64 bits. -/
def overflows (cs : List Char) : Bool :=
  let (base, ds) := baseOf cs
  let digits := ds.takeWhile fun c => c == '_' || (digitIn? base c).isSome
  (readInBase base (digits.filter (· ≠ '_'))).any (2 * signedBound 64 ≤ ·)

/-- A whole number of 64 bits. It is read from the left, so digits that are too many are noticed
before a character after them that is none. -/
def readNumber (s : String) : Except FlagFault Int :=
  if overflows (takeSign s.toList).2 then .error .outOfRange
  else match readWhole? s with
    | none => .error .unreadable
    | some n => if isSigned 64 n then .ok n else .error .outOfRange

/-- The value of a flag from its text. -/
def readValue (spec : FlagSpec) (value : String) : Except FlagError FlagValue :=
  match spec.kind with
  | .text _ => .ok (.text value)
  | .switch =>
    match readSwitch? value with
    | some b => .ok (.switch b)
    | none => .error (.badSwitch spec.name value)
  | .number _ => ((readNumber value).map .number).mapError (.badValue spec.name value)
  | .duration _ =>
    match Duration.ofText? value with
    | some n => .ok (.duration n)
    | none => .error (.badValue spec.name value .unreadable)

/-! ### Arguments -/

/-- What an argument is. -/
inductive Argument where
  /-- No flag, or the end of flags. -/
  | stop
  /-- It looks like a flag and is none. -/
  | malformed
  /-- A flag, with its value if it has one. -/
  | flag (name : String) (value : Option String)
  deriving DecidableEq, Repr

/-- A flag without its dashes. -/
def splitFlag : List Char → Argument
  | [] => .malformed
  | c :: cs =>
    if c = '-' ∨ c = '=' then .malformed
    else match cs.span (· ≠ '=') with
      | (more, []) => .flag (String.ofList (c :: more)) none
      | (more, _ :: value) => .flag (String.ofList (c :: more)) (some (String.ofList value))

/-- What an argument is. -/
def argument (arg : String) : Argument :=
  match arg.toList with
  | '-' :: '-' :: [] => .stop
  | '-' :: '-' :: cs => splitFlag cs
  | '-' :: c :: cs => splitFlag (c :: cs)
  | _ => .stop

/-- The values of all flags. -/
abbrev Values := List (String × FlagValue)

/-- The values of flags of which none is given. -/
def absent (specs : List FlagSpec) : Values :=
  specs.map fun s => (s.name, s.kind.absentValue)

/-- The flag of a name. -/
def find (specs : List FlagSpec) (name : String) : Except FlagError FlagSpec :=
  match specs.find? (·.name = name) with
  | some spec => .ok spec
  | none => .error (if name = "help" ∨ name = "h" then .help else .unknown name)

/-- Reads arguments on top of values. -/
def readOnto (specs : List FlagSpec) : Values → List String → Except FlagError Values
  | values, [] => .ok values
  | values, arg :: rest =>
    match argument arg with
    | .stop => .ok values
    | .malformed => .error (.malformed arg)
    | .flag name value => do
      let spec ← find specs name
      let put (text : String) : Except FlagError Values :=
        (readValue spec text).map fun v => Assoc.put name v values
      match value, spec.kind, rest with
      | some text, _, rest => readOnto specs (← put text) rest
      | none, .switch, rest => readOnto specs (← put "true") rest
      | none, _, text :: rest => readOnto specs (← put text) rest
      | none, _, [] => .error (.noValue name)

/-- **The values of all flags** in arguments. -/
def read (specs : List FlagSpec) (args : List String) : Except FlagError Values :=
  readOnto specs (absent specs) args

namespace Values

/-- The text of a flag. -/
def text (vs : Values) (name : String) : String :=
  match vs.lookup name with
  | some (.text s) => s
  | _ => ""

/-- The state of a switch. -/
def switch (vs : Values) (name : String) : Bool :=
  match vs.lookup name with
  | some (.switch b) => b
  | _ => false

/-- The number of a flag. -/
def number (vs : Values) (name : String) : Int :=
  match vs.lookup name with
  | some (.number n) => n
  | _ => 0

/-- The length of time of a flag. -/
def duration (vs : Values) (name : String) : Int :=
  match vs.lookup name with
  | some (.duration n) => n
  | _ => 0

end Values

/-! ### Help -/

/-- The list of all flags, by their names. -/
def usage (command : String) (specs : List FlagSpec) : String :=
  "Usage of " ++ command ++ ":\n" ++
    String.join ((specs.mergeSort fun a b => !textLt b.name a.name).map fun s =>
      "  -" ++ s.name ++ s.kind.name ++ "\n    \t" ++ s.purpose ++ "\n")

end Flags

/-- The text of an error before the list of flags. -/
def FlagError.report (e : FlagError) (command : String) (specs : List FlagSpec) : String :=
  (if e = .help then "" else e.message ++ "\n") ++ Flags.usage command specs

end Statuary
