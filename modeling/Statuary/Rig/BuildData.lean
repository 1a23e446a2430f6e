import Statuary.Assoc
import Statuary.Json.Basic
import Statuary.Number.Literal
import Statuary.Rig.Basic

/-!
# Build data of an editor

The modelling program leaves its rig as a large JSON text, of which one frame of one animation is
used. Nothing in it is taken for granted: a value of another type than expected is **read as well as
it can be** instead of being refused, and what is missing reads as zero or nothing. This file first
says how values are read (`Statuary.Lenient`), then where the parts of the rig are found.
-/

namespace Statuary

/-! ### Reading values leniently -/

namespace Lenient

/-- The index that a name stands for in an array. It is computed with 64 bits, and what comes out
with the highest one set is no index. -/
def index? (name : String) : Option Nat :=
  let ds := name.toList
  if ds.isEmpty || !ds.all isDigit then none
  else some (digitsValue ds % Nat.pow 2 64) |>.filter (· < signedBound 64)

/-- The values that a name leads to: the members of an object with that name, or the item of an
array at that position. -/
def children (name : String) : Json → List Json
  | .object ms _ => (ms.filter (·.1 == name)).map (·.2)
  | .array vs _ => ((index? name).bind (vs[·]?)).toList
  | _ => []

/-- The first value that a path of names leads to. -/
def get? : List String → Json → Option Json
  | [], j => some j
  | name :: path, j => (children name j).findSome? (get? path)

/-- The names and values that iterating over a value meets: members of an object, items of an array
by their positions, and any other value once without a name. -/
def each : Option Json → List (String × Json)
  | none => []
  | some (.object ms _) => ms
  | some (.array vs _) => vs.zipIdx.map fun (v, i) => (toString i, v)
  | some j => [("", j)]

/-- The floating-point number of digits. -/
def numberOf (digits : String) : Double :=
  ((Decimal.read digits.toList).map (·.toBinary .double)).getD (.zero false)

/-- A value as a floating-point number. -/
def double : Option Json → Double
  | some (.number ds) => numberOf ds
  | some (.string s) => (readFloatLiteral s).getD (.zero false)
  | some (.bool true) => .ofInt 1
  | _ => .zero false

/-- The whole number that digits spell, with a minus sign or without, in 64 bits. -/
def wrappedInt? (cs : List Char) : Option Int64 :=
  match cs with
  | '-' :: ds => if ds.isEmpty || !ds.all isDigit then none
      else some (Int64.ofInt (-(digitsValue ds : Int)))
  | ds => if ds.isEmpty || !ds.all isDigit then none else some (Int64.ofInt (digitsValue ds))

/-- The greatest whole number up to which all whole numbers are floating-point numbers. -/
def safeBound : Double := .ofInt 9007199254740991

/-- The whole part of a floating-point number, the least number of 64 bits if it does not fit. -/
def truncated : Double → Int64
  | .finite s m q _ =>
    let (n, d) := scaleDown m 1 (-q)
    let whole : Int := if s then -((n / d : Nat) : Int) else (n / d : Nat)
    if isSigned 64 whole then Int64.ofInt whole else Int64.minValue
  | _ => Int64.minValue

/-- A value as a whole number: a small number is cut, and a large one counts by its digits. -/
def int : Option Json → Int64
  | some (.number ds) =>
    let x := numberOf ds
    let magnitude : Double := match x with
      | .finite _ m q h => .finite false m q h
      | x => x
    if !safeBound.lt magnitude then truncated x
    else (wrappedInt? ds.toList).getD (truncated x)
  | some (.string s) => (wrappedInt? s.toList).getD 0
  | some (.bool true) => 1
  | _ => 0

/-- A value as a truth value. -/
def bool : Option Json → Bool
  | some (.bool b) => b
  | some (.number ds) => !(numberOf ds).isZero
  | some (.string s) => ["1", "t", "true"].contains (String.ofList (s.toList.map Char.toLower))
  | _ => false

/-- A value as a text: a text itself, a whole number by its digits, another number in positional
digits, and anything else by its source. -/
def text : Option Json → String
  | none => ""
  | some .null => ""
  | some (.bool b) => if b then "true" else "false"
  | some (.number ds) =>
    let digits := match ds.toList with
      | '-' :: cs => cs
      | cs => cs
    if digits.all isDigit then ds else (numberOf ds).plain
  | some (.string s) => s
  | some (.array _ source) => source
  | some (.object _ source) => source

/-- A value as a vector: an array of numbers, or an object with three coordinates. -/
def vec : Option Json → Vec3
  | some (.array vs _) => ⟨double vs[0]?, double vs[1]?, double vs[2]?⟩
  | j =>
    let coordinate (name : String) : Double := double (j.bind (get? [name]))
    ⟨coordinate "x", coordinate "y", coordinate "z"⟩

end Lenient

/-! ### Finding the rig -/

/-- Why a rig cannot be loaded from build data. -/
inductive BuildDataError where
  /-- The text is no JSON. -/
  | invalid
  /-- The animation is not there. -/
  | noAnimation (name : String)
  /-- The animation has no first frame. -/
  | noFrame
  /-- The rig is not accepted. -/
  | rejected (e : RigError)
  deriving DecidableEq

/-- The text of an error. -/
def BuildDataError.message : BuildDataError → String
  | invalid => "build data: invalid json"
  | noAnimation name => s!"build data: static animation {quoted name} not found"
  | noFrame => "build data: static animation has no frame 0"
  | rejected e => s!"build data: {e.message}"

namespace BuildData

/-- The animation of a name, or the first one if the name is empty. -/
def animation? (doc : Json) (name : String) : Option Json :=
  ((Lenient.each (Lenient.get? ["animations"] doc)).find? fun (k, _) => name = "" ∨ k = name).map
    (·.2)

/-- A bone by its entry in the frame and its definition. -/
def bone (definitions : Option Json) (name : String) (pose : Json) : Bone :=
  let definition := definitions.bind (Lenient.get? [name])
  { name
    pos := Lenient.vec (Lenient.get? ["pos"] pose)
    rot := Lenient.vec (Lenient.get? ["rot"] pose)
    exported := Lenient.bool (Lenient.get? ["exported"] pose)
    nbt := Lenient.text (definition.bind (Lenient.get? ["nbt"]))
    model := Lenient.int (definition.bind (Lenient.get? ["customModelData"])) }

/-- The models of a variant by bone; the last one of a name counts. -/
def models (v : Json) : List (String × Int64) :=
  Assoc.ofList ((Lenient.each (some v)).map fun (bone, m) =>
    (bone, Lenient.int (Lenient.get? ["aj", "customModelData"] m)))

/-- The rig in build data, as it is written. -/
def rig (doc animation frame : Json) : Rig :=
  let definitions := Lenient.get? ["bones"] doc
  { bones := (Lenient.each (some frame)).map fun (k, v) => bone definitions k v
    maxDistance := Lenient.double (Lenient.get? ["maxDistance"] animation)
    variants := (Lenient.each (Lenient.get? ["variantModels"] doc)).map fun (k, v) => ⟨k, models v⟩
    touched := (Lenient.each (Lenient.get? ["variantTouchedModels"] doc)).map (·.1) }

end BuildData

/-- **Loading a rig from build data.** The static frame is that of the named animation, or else of
the one the data names, or else of the first one. -/
def Rig.ofBuildData (text animation : String) : Except BuildDataError Rig :=
  match Json.read? .paired text with
  | none => .error .invalid
  | some doc =>
    let name := if animation = "" then Lenient.text (Lenient.get? ["static_animation_uuid"] doc)
      else animation
    match BuildData.animation? doc name with
    | none => .error (.noAnimation name)
    | some anim =>
      match Lenient.get? ["frames", "0", "bones"] anim with
      | some (.object ms source) =>
        (BuildData.rig doc anim (.object ms source)).normalize.mapError .rejected
      | _ => .error .noFrame

end Statuary
