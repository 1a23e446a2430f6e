import Statuary.Number.Literal
import Statuary.Text.Base64
import Statuary.Text.Utf8
import Statuary.Yaml.Node
import Statuary.Yaml.Timestamp

/-!
# What scalars mean

What a plain scalar means is told by its letters: nothing, a truth value, a whole number, a
floating-point number, a time or a text (`Statuary.Yaml.plainValue`). Any other scalar is a text,
unless the name of a type in front of it says how to read it; then its letters must spell a value of
that type (`Statuary.Yaml.scalarValue?`).
-/

namespace Statuary.Yaml

/-- What a scalar means. -/
inductive Value where
  /-- Nothing. -/
  | null
  /-- A truth value. -/
  | bool (b : Bool)
  /-- A whole number of 64 bits, with or without sign. -/
  | int (n : Int)
  /-- A floating-point number. -/
  | float (x : Double)
  /-- A time. -/
  | time (t : Timestamp)
  /-- A text. -/
  | text (s : String)
  deriving DecidableEq

namespace Value

/-- The name of the type of a value. -/
def type : Value → String
  | null => "!!null"
  | bool _ => "!!bool"
  | int _ => "!!int"
  | float _ => "!!float"
  | time _ => "!!timestamp"
  | text _ => "!!str"

/-- Two values are the same key. -/
def same : Value → Value → Bool
  | null, null => true
  | bool a, bool b => a == b
  | int a, int b => a == b
  | float a, float b => Binary.same a b
  | time a, time b => a.same b
  | text a, text b => a == b
  | _, _ => false

end Value

/-! ### Plain scalars -/

/-- The values that are spelled by words. -/
def wordValue? (s : String) : Option Value :=
  if ["", "~", "null", "Null", "NULL"].contains s then some .null
  else if ["true", "True", "TRUE"].contains s then some (.bool true)
  else if ["false", "False", "FALSE"].contains s then some (.bool false)
  else if [".nan", ".NaN", ".NAN"].contains s then some (.float .nan)
  else if [".inf", ".Inf", ".INF", "+.inf", "+.Inf", "+.INF"].contains s then
    some (.float (.infinite false))
  else if ["-.inf", "-.Inf", "-.INF"].contains s then some (.float (.infinite true))
  else none

/-- A finite floating-point number in decimal digits. -/
def finiteDecimal? (cs : List Char) : Option Value :=
  (((Decimal.read cs).map (·.toBinary .double)).filter (·.isFinite)).map .float

/-- A whole number in base two or eight whose sign stands after the mark of the base. -/
def signedInBase? : List Char → Option Int
  | '0' :: 'b' :: ds => signed 2 ds
  | '0' :: 'o' :: ds => signed 8 ds
  | _ => none
where
  /-- A number of 64 bits with a sign, in a base. -/
  signed (base : Nat) (ds : List Char) : Option Int :=
    let (negative, ds) := takeSign ds
    ((readInBase base ds).map fun n => if negative then -(n : Int) else n).filter (isSigned 64)

/-- The number that a plain scalar spells. Underscores do not count, except after a leading point.
-/
def numberValue? (cs : List Char) : Option Value :=
  match cs with
  | [] => none
  | '.' :: _ => ((readFloatLiteral (String.ofList cs)).filter (·.isFinite)).map .float
  | c :: _ =>
    if isDigit c || c == '+' || c == '-' then
      let plain := cs.filter (· != '_')
      (readIntLiteral plain).map .int <|> finiteDecimal? plain <|>
        (signedInBase? plain).map .int
    else none

/-- What the letters of a scalar mean; `times` says whether they may spell a time. -/
def spelledValue (times : Bool) (s : String) : Value :=
  let time := if times then (Timestamp.ofText? s).map Value.time else none
  (wordValue? s <|> time <|> numberValue? s.toList).getD (.text (Utf8.ofString s))

/-- What a plain scalar means. -/
def plainValue (s : String) : Value :=
  spelledValue true s

/-! ### Scalars with a type -/

/-- The types whose names say how a scalar is read. -/
def spelledTypes : List String := ["!!null", "!!bool", "!!int", "!!float", "!!timestamp"]

/-- **What a scalar means**, given its type, if it has one, its text and whether it is plain;
nothing if its text is none of that type. A scalar of a type that nobody knows is a text. -/
def scalarValue? (type : Option String) (s : String) (plain : Bool) : Option Value :=
  match type with
  | none => some (if plain then plainValue s else .text (Utf8.ofString s))
  | some t =>
    if t = "!!binary" then (Base64.decode? s).map fun bytes => .text (Utf8.decode bytes)
    else if !spelledTypes.contains t then some (.text (Utf8.ofString s))
    else match t, spelledValue (t = "!!timestamp") s with
      | "!!float", .int n => if isSigned 64 n then some (.float (.ofInt n)) else none
      | t, v => if t = v.type then some v else none

namespace Node

/-- The key merges other mappings in. -/
def isMerge : Node → Bool
  | .scalar type "<<" plain => type == some "!!merge" || (type.isNone && plain)
  | _ => false

/-- The name of the type of a node; a reference has the type of its target, which is to be given. -/
def typeName (target : Nat → Option String) : Node → Option String
  | .alias _ _ n => target n
  | .sequence type _ => some (type.getD "!!seq")
  | .mapping type _ => some (type.getD "!!map")
  | .scalar (some type) _ _ => some type
  | .scalar none s plain =>
    if !plain then some "!!str" else if s = "<<" then some "!!merge" else some (plainValue s).type

/-- Two keys are written alike. -/
def sameKey : Node → Node → Bool
  | .scalar _ a _, .scalar _ b _ => a == b
  | .alias a _ _, .alias b _ _ => a == b
  | .sequence _ _, .sequence _ _ => true
  | .mapping _ _, .mapping _ _ => true
  | _, _ => false

/-- A key is repeated. -/
def repeatsKey : List (Node × Node) → Bool
  | [] => false
  | (k, _) :: es => es.any (fun e => sameKey k e.1) || repeatsKey es

end Node

/-- The name of the type of a node in a document. -/
def Document.typeName (d : Document) (n : Node) : Option String :=
  n.typeName fun target => (d.anchored[target]?).bind (Node.typeName fun _ => none)

end Statuary.Yaml
