import Statuary.Number.Shortest
import Statuary.Tag.Scalar

/-!
# Tag trees as text

A tree has two written forms. The **compact** one has no blanks outside quotes and goes into
commands; the **indented** one spreads compounds, and lists of lists or compounds, over lines.
Both are written by one recursion that puts the text of a tree in front of a given rest
(`Statuary.Tag.write`), so that no text is copied twice and a statement about reading "the text of
a tree, then something else" needs no rearranging. What differs between the forms is gathered in
`Statuary.Spacing`.
-/

namespace Statuary

/-- The two written forms of a tree. -/
inductive Layout where
  /-- No blanks. -/
  | compact
  /-- One entry a line, four blanks for each level. -/
  | indented
  deriving DecidableEq, Repr

/-- The blanks around the members of a list or compound. -/
structure Spacing where
  /-- Before the first member. -/
  lead : List Char
  /-- Between two members. -/
  between : List Char
  /-- After the last member. -/
  trail : List Char

/-- A line break and the indentation of a level. -/
def newline (depth : Nat) : List Char :=
  '\n' :: List.replicate (4 * depth) ' '

namespace Layout

/-- Members one a line, at the level below `depth`. -/
def lines (depth : Nat) : Spacing :=
  ⟨newline (depth + 1), ',' :: newline (depth + 1), newline depth⟩

/-- The spacing of the items of a list. -/
def ofList (l : Layout) (depth : Nat) (elem : Kind) : Spacing :=
  match l with
  | compact => ⟨[], [','], []⟩
  | indented =>
    if elem = .compound ∨ elem = .list then lines depth else ⟨[], [',', ' '], []⟩

/-- The spacing of the entries of a compound. -/
def ofCompound (l : Layout) (depth : Nat) : Spacing :=
  match l with
  | compact => ⟨[], [','], []⟩
  | indented => lines depth

/-- The text between the elements of an array. -/
def comma : Layout → List Char
  | compact => [',']
  | indented => [',', ' ']

/-- The text between a name and its value. -/
def colon : Layout → List Char
  | compact => [':']
  | indented => [':', ' ']

end Layout

namespace Tag

/-- A text between double quotes; a quote and a backslash inside get a backslash. -/
def quote (s : String) : List Char :=
  '"' :: (s.toList.flatMap fun c => if c = '"' ∨ c = '\\' then ['\\', c] else [c]) ++ ['"']

/-- The text of a name: as it is if it is a word, else between quotes. -/
def keyText (name : String) : List Char :=
  if !name.toList.isEmpty && name.toList.all isBareChar then name.toList else quote name

/-- The text of a binary number: positional digits, and `.0` where they would read as a whole
number. -/
def numberText {f : BinaryFormat} (x : Binary f) : List Char :=
  let cs := x.text .plain
  if cs.any fun c => c = '.' ∨ c = 'I' ∨ c = 'N' then cs else cs ++ ['.', '0']

/-- The elements of an array. -/
def writeArray (comma : List Char) (letter : List Char) (values : List Int) : List Char :=
  comma.intercalate (values.map fun v => intDigits v ++ letter)

mutual

/-- **The text of a tree**, at a level of indentation, before the given rest. -/
def write (l : Layout) (depth : Nat) : Tag → List Char → List Char
  | .byte v, rest => intDigits v.toInt ++ 'b' :: rest
  | .short v, rest => intDigits v.toInt ++ 's' :: rest
  | .int v, rest => intDigits v.toInt ++ rest
  | .long v, rest => intDigits v.toInt ++ 'L' :: rest
  | .float x, rest => numberText x ++ 'f' :: rest
  | .double x, rest => numberText x ++ 'd' :: rest
  | .string s, rest => quote s ++ rest
  | .byteArray vs, rest =>
    '[' :: 'B' :: ';' :: (writeArray l.comma ['b'] (vs.map (·.toInt)) ++ ']' :: rest)
  | .intArray vs, rest =>
    '[' :: 'I' :: ';' :: (writeArray l.comma [] (vs.map (·.toInt)) ++ ']' :: rest)
  | .longArray vs, rest =>
    '[' :: 'L' :: ';' :: (writeArray l.comma ['L'] (vs.map (·.toInt)) ++ ']' :: rest)
  | .list elem items, rest =>
    let sp := l.ofList depth elem
    '[' :: writeItems l (depth + 1) sp.between sp.lead items
      ((if items.isEmpty then [] else sp.trail) ++ ']' :: rest)
  | .compound entries, rest =>
    let sp := l.ofCompound depth
    '{' :: writeEntries l (depth + 1) sp.between sp.lead entries
      ((if entries.isEmpty then [] else sp.trail) ++ '}' :: rest)

/-- The texts of the items of a list, `before` standing before the first of them. -/
def writeItems (l : Layout) (depth : Nat) (between : List Char) (before : List Char) :
    List Tag → List Char → List Char
  | [], rest => rest
  | t :: ts, rest => before ++ write l depth t (writeItems l depth between between ts rest)

/-- The texts of the entries of a compound, `before` standing before the first of them. -/
def writeEntries (l : Layout) (depth : Nat) (between : List Char) (before : List Char) :
    Entries → List Char → List Char
  | [], rest => rest
  | (k, t) :: es, rest =>
    before ++ keyText k ++ l.colon ++
      write l depth t (writeEntries l depth between between es rest)

end

/-- The text of a tree in a layout. -/
def render (l : Layout) (t : Tag) : String :=
  String.ofList (write l 0 t [])

end Tag

end Statuary
