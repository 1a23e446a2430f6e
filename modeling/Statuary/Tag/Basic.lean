import Statuary.Assoc
import Statuary.Number.Binary

/-!
# Tag trees

The data of an entity is a **tag tree**: whole and binary numbers of fixed widths, texts, arrays of
whole numbers, lists whose items are all of one kind, and compounds, which map names to tags in the
order in which the names were first written.

Nothing in the type keeps a list to one kind or a compound to distinct names. The operations do
(`Statuary.Tag.append`, `Statuary.Tag.set`, `Statuary.Tag.add`, `Statuary.Tag.merge`), and they
refuse what would break it with an `Statuary.EditError`, leaving the tree to the caller as it was.
-/

namespace Statuary

/-- The kinds of tags, and two kinds that only a list can have for its items. -/
inductive Kind where
  /-- The items of an empty list that has not chosen a kind. -/
  | untyped
  /-- A whole number of 8 bits. -/
  | byte
  /-- A whole number of 16 bits. -/
  | short
  /-- A whole number of 32 bits. -/
  | int
  /-- A whole number of 64 bits. -/
  | long
  /-- A binary number of 32 bits. -/
  | float
  /-- A binary number of 64 bits. -/
  | double
  /-- A text. -/
  | string
  /-- A list of tags of one kind. -/
  | list
  /-- Named tags. -/
  | compound
  /-- An array of whole numbers of 8 bits. -/
  | byteArray
  /-- An array of whole numbers of 32 bits. -/
  | intArray
  /-- An array of whole numbers of 64 bits. -/
  | longArray
  /-- A kind that no tag has. -/
  | foreign
  deriving DecidableEq, Repr

namespace Kind

/-- The name of a kind in texts. -/
def name : Kind → String
  | untyped => "end"
  | byte => "byte"
  | short => "short"
  | int => "int"
  | long => "long"
  | float => "float"
  | double => "double"
  | string => "string"
  | list => "list"
  | compound => "compound"
  | byteArray => "byte_array"
  | intArray => "int_array"
  | longArray => "long_array"
  | foreign => "unknown"

/-- All kinds. -/
def all : List Kind :=
  [untyped, byte, short, int, long, float, double, string, list, compound, byteArray, intArray,
    longArray, foreign]

/-- The kind with a name; a name that is none stands for the kind that no tag has. -/
def ofName (s : String) : Kind :=
  (all.find? (·.name == s)).getD foreign

end Kind

/-- A tag tree. -/
inductive Tag where
  /-- A whole number of 8 bits. -/
  | byte (value : Int8)
  /-- A whole number of 16 bits. -/
  | short (value : Int16)
  /-- A whole number of 32 bits. -/
  | int (value : Int32)
  /-- A whole number of 64 bits. -/
  | long (value : Int64)
  /-- A binary number of 32 bits. -/
  | float (value : Single)
  /-- A binary number of 64 bits. -/
  | double (value : Double)
  /-- A text. -/
  | string (value : String)
  /-- An array of whole numbers of 8 bits. -/
  | byteArray (values : List Int8)
  /-- An array of whole numbers of 32 bits. -/
  | intArray (values : List Int32)
  /-- An array of whole numbers of 64 bits. -/
  | longArray (values : List Int64)
  /-- Tags of the kind `elem`. -/
  | list (elem : Kind) (items : List Tag)
  /-- Named tags in the order of first writing. -/
  | compound (entries : List (String × Tag))

/-- The named tags of a compound. -/
abbrev Entries := List (String × Tag)

namespace Tag

instance : Inhabited Tag := ⟨.compound []⟩

/-- The kind of a tag. -/
def kind : Tag → Kind
  | byte _ => .byte
  | short _ => .short
  | int _ => .int
  | long _ => .long
  | float _ => .float
  | double _ => .double
  | string _ => .string
  | byteArray _ => .byteArray
  | intArray _ => .intArray
  | longArray _ => .longArray
  | list _ _ => .list
  | compound _ => .compound

/-- A compound with the given entries; of entries with one name the last value counts, in the
first place. -/
def ofEntries (es : Entries) : Tag :=
  .compound (Assoc.ofList es)

/-- A list of texts. -/
def strings (ss : List String) : Tag :=
  .list .string (ss.map .string)

/-! ### Equality -/

mutual

/-- **Equality of trees**: the same kinds, values, names and orders. Numbers are compared by value,
and two empty lists are equal whatever kinds they were made for. -/
def same : Tag → Tag → Bool
  | .byte a, .byte b => a == b
  | .short a, .short b => a == b
  | .int a, .int b => a == b
  | .long a, .long b => a == b
  | .float a, .float b => a.same b
  | .double a, .double b => a.same b
  | .string a, .string b => a == b
  | .byteArray a, .byteArray b => a == b
  | .intArray a, .intArray b => a == b
  | .longArray a, .longArray b => a == b
  | .list j a, .list k b => (a.isEmpty || j == k) && sameItems a b
  | .compound a, .compound b => sameEntries a b
  | _, _ => false

/-- Equality of the items of two lists. -/
def sameItems : List Tag → List Tag → Bool
  | [], [] => true
  | a :: as, b :: bs => same a b && sameItems as bs
  | _, _ => false

/-- Equality of the entries of two compounds. -/
def sameEntries : Entries → Entries → Bool
  | [], [] => true
  | (i, a) :: as, (j, b) :: bs => i == j && same a b && sameEntries as bs
  | _, _ => false

end

/-! ### Merging -/

mutual

/-- Writes the entries of the second compound that the first lacks, and merges the compounds that
both have under one name. -/
def mergeEntries (dst : Entries) : Entries → Entries
  | [] => dst
  | (k, v) :: rest => mergeEntries (mergeEntry dst k v) rest

/-- Merges one entry: a name that is missing is added; where both hold compounds they are merged;
any other value that is there wins. -/
def mergeEntry (dst : Entries) (k : String) : Tag → Entries
  | .compound src =>
    match dst.lookup k with
    | none => Assoc.put k (.compound src) dst
    | some (.compound inner) => Assoc.put k (.compound (mergeEntries inner src)) dst
    | some _ => dst
  | v =>
    match dst.lookup k with
    | none => Assoc.put k v dst
    | some _ => dst

end

end Tag

/-! ### Operations that can be refused -/

/-- Why an operation on a tree is refused. -/
inductive EditError where
  /-- There is no tag to append. -/
  | appendNothing
  /-- A tag of one kind was appended to a list of another. -/
  | appendKind (found elem : Kind)
  /-- There is no tag to map a name to. -/
  | setNothing (name : String)
  /-- The name to add is there already. -/
  | duplicateKey (name : String)
  deriving DecidableEq, Repr

/-- The text of a refusal. -/
def EditError.message : EditError → String
  | appendNothing => "nbt: append nil tag to list"
  | appendKind found elem => s!"nbt: append {found.name} to list of {elem.name}"
  | setNothing name => s!"nbt: set nil tag {name}"
  | duplicateKey name => s!"nbt: duplicate compound key {name}"

namespace Tag

/-- The kind of items a list takes when `t` comes next: an empty list without a kind takes that of
its first item. -/
def elemFor (elem : Kind) (items : List Tag) (t : Tag) : Kind :=
  if elem = .untyped ∧ items.isEmpty then t.kind else elem

/-- Adds a tag to the end of a list. -/
def append (elem : Kind) (items : List Tag) : Option Tag → Except EditError Tag
  | none => .error .appendNothing
  | some t =>
    let elem := elemFor elem items t
    if t.kind = elem then .ok (.list elem (items ++ [t])) else .error (.appendKind t.kind elem)

/-- A list of the given kind with the given items. -/
def newList (elem : Kind) (items : List Tag) : Except EditError Tag :=
  items.foldlM (fun l t =>
    match l with
    | .list k is => append k is (some t)
    | other => .ok other) (.list elem [])

/-- Maps a name to a tag. -/
def set (es : Entries) (name : String) : Option Tag → Except EditError Entries
  | none => .error (.setNothing name)
  | some t => .ok (Assoc.put name t es)

/-- Maps a new name to a tag. -/
def add (es : Entries) (name : String) (t : Option Tag) : Except EditError Entries :=
  if Assoc.has name es then .error (.duplicateKey name) else set es name t

/-- Maps a name to a tag unless it is there; the tag now under the name comes with the result. -/
def setDefault (es : Entries) (name : String) (t : Option Tag) :
    Except EditError (Tag × Entries) :=
  match es.lookup name, t with
  | some cur, _ => .ok (cur, es)
  | none, none => .error (.setNothing name)
  | none, some t => .ok (t, Assoc.put name t es)

/-- Merges the entries of another compound, if there is one. -/
def merge (es : Entries) : Option Tag → Entries
  | some (.compound src) => mergeEntries es src
  | _ => es

end Tag

end Statuary
