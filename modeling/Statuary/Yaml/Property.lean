import Statuary.Json.Basic
import Statuary.Text.Search
import Statuary.Yaml.Scalar

/-!
# Names in front of nodes

A node may be given a name by an **anchor**, to be referred to elsewhere, and the name of a
**type**. The name of a type is written with a handle, which stands for the beginning of the full
name (`Statuary.Yaml.TypeName.full?`), or in full between angle brackets. Characters of it may be
written as octets in base sixteen.
-/

namespace Statuary.Yaml

/-! ### Anchors -/

/-- A character that may follow the name of an anchor. -/
def endsAnchor (c : Char) : Bool :=
  isGap c || "?:,]\x7d%@".toList.contains c || c.toNat == 0x60

/-- Reads the name of an anchor, or of a reference to one, after its mark. -/
def readAnchor : Walk String := do
  Walk.want 1
  let name ← Walk.takeWhile isNameChar
  Walk.ensure (!name.isEmpty && endsAnchor (← Walk.look))
  return String.ofList name

/-! ### Types -/

/-- The name of a type as it is written. -/
structure TypeName where
  /-- What stands for the beginning of the name; empty if the name is written in full. -/
  handle : String
  /-- The rest of the name. -/
  suffix : String
  deriving DecidableEq, Repr

/-- Handles and what they stand for. -/
abbrev Handles := List (String × String)

/-- The handles that every document has. -/
def Handles.standard : Handles := [("!", "!"), ("!!", "tag:yaml.org,2002:")]

/-- The full name of a type; nothing if its handle stands for nothing. -/
def TypeName.full? (t : TypeName) (handles : Handles) : Option String :=
  if t.handle = "" then some t.suffix
  else ((handles.lookup t.handle).map (· ++ t.suffix)).filter (· != "")

/-- The short form of the full name of a type: the types of the language itself are marked by two
exclamation marks. -/
def shortType (name : String) : String :=
  match dropLead? "tag:yaml.org,2002:".toList name.toList with
  | some rest => String.ofList ('!' :: '!' :: rest)
  | none => name

/-- A character of the name of a type. -/
def isTypeChar (c : Char) : Bool :=
  isNameChar c || ";/?:@&=+$,.!~*'()[]%".toList.contains c

/-- Reads an octet `%` with two digits in base sixteen. -/
def readOctet : Walk Nat := do
  Walk.want 3
  Walk.ensure ((← Walk.look) == '%')
  let high ← StateT.lift (Json.hexValue? (← Walk.lookAt 1))
  let low ← StateT.lift (Json.hexValue? (← Walk.lookAt 2))
  Walk.skips 3
  return 16 * high + low

/-- How many octets a character has whose first one is given. -/
def octetCount? (lead : Nat) : Option Nat :=
  if lead < 0x80 then some 1
  else if lead / 32 = 6 then some 2
  else if lead / 16 = 14 then some 3
  else if lead / 8 = 30 then some 4
  else none

/-- Reads the octets of a character after the first one, `n` being what that one holds. -/
def readTrail : Nat → Nat → Walk Nat
  | 0, n => pure n
  | k + 1, n => do
    let octet ← readOctet
    Walk.ensure (octet / 64 == 2)
    readTrail k (64 * n + octet % 64)

/-- Reads a character that is written as octets. -/
def readOctets : Walk Char := do
  let lead ← readOctet
  match octetCount? lead with
  | none => failure
  | some 1 => return Char.ofNat lead
  | some k =>
    let n ← readTrail (k - 1) (lead % Nat.pow 2 (7 - k))
    return if 0x80 ≤ n && n.isValidChar then Char.ofNat n else Utf8.replacement

/-- Reads a part of the name of a type, after what is in `acc`. -/
def readTypeText : Nat → String → Walk String
  | 0, acc => pure acc
  | fuel + 1, acc => do
    let ch ← Walk.look
    if ch == '%' then
      let ch ← readOctets
      Walk.want 1
      readTypeText fuel (acc.push ch)
    else if isTypeChar ch then
      Walk.skip
      Walk.want 1
      readTypeText fuel (acc.push ch)
    else return acc

/-- Reads what follows the beginning of the name of a type, which may be empty. -/
def readSuffix : Walk String := do
  Walk.want 1
  readTypeText (← Walk.bound) ""

/-- Reads the name of a type, or the rest of one, which is not empty. -/
def readType : Walk String := do
  let name ← readSuffix
  Walk.ensure (name != "")
  return name

/-- Reads a handle: a mark, or a word between two marks. The result is the word and whether there
was a second mark; that one may be missing after a word only if the handle may turn out to be the
beginning of a name. -/
def readHandle (mayBeName : Bool) : Walk (List Char × Bool) := do
  Walk.want 1
  Walk.ensure ((← Walk.look) == '!')
  Walk.skip
  Walk.want 1
  let name ← Walk.takeWhile isNameChar
  if (← Walk.look) == '!' then
    Walk.skip
    return (name, true)
  Walk.ensure (mayBeName || name.isEmpty)
  return (name, false)

/-- Reads the name of a type in front of a node. -/
def readTypeName : Walk TypeName := do
  Walk.want 2
  let name ← if (← Walk.lookAt 1) == '<' then inFull else withHandle
  Walk.want 1
  Walk.ensure (isGap (← Walk.look))
  return name
where
  /-- A name between angle brackets. -/
  inFull : Walk TypeName := do
    Walk.skips 2
    let name ← readType
    Walk.ensure ((← Walk.look) == '>')
    Walk.skip
    return ⟨"", name⟩
  /-- A name after a handle. The mark alone is a name in full. -/
  withHandle : Walk TypeName := do
    let (word, closed) ← readHandle true
    if closed then
      return ⟨String.ofList ('!' :: word ++ ['!']), ← readType⟩
    let suffix := String.ofList word ++ (← readSuffix)
    return if suffix = "" then ⟨"", "!"⟩ else ⟨"!", suffix⟩

end Statuary.Yaml
