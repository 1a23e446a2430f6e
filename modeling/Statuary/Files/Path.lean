import Statuary.Text.Search

/-!
# Paths

A path is a text of names between slashes. `Statuary.Path.clean` gives the shortest path to the same
place: empty names and `.` are dropped, and `..` takes the name before it away where there is one.
The work is done on the list of names (`Statuary.Path.resolve`), so that "below a directory" is a
statement about lists.
-/

namespace Statuary.Path

/-- The names of a path. -/
def segments (p : String) : List String :=
  (splitOnChar '/' p.toList).map String.ofList

/-- The most bytes of a name. -/
def nameBytes : Nat := 255

/-- The least number of bytes that is too many for a path. -/
def pathBytes : Nat := 4096

/-- The path starts at the root of all directories. -/
def isRooted (p : String) : Bool :=
  p.toList.head? == some '/'

/-- One more name at the end of a resolved path, whose names stand in reverse order. -/
def step (rooted : Bool) (names : List String) (s : String) : List String :=
  if s = "" ∨ s = "." then names
  else if s = ".." then
    match names with
    | [] => if rooted then [] else [".."]
    | n :: rest => if n = ".." then ".." :: n :: rest else rest
  else s :: names

/-- The names of a path without detours. -/
def resolve (rooted : Bool) (names : List String) : List String :=
  (names.foldl (step rooted) []).reverse

/-- The text of a resolved path. -/
def build (rooted : Bool) (names : List String) : String :=
  match rooted, names with
  | true, names => "/" ++ "/".intercalate names
  | false, [] => "."
  | false, names => "/".intercalate names

/-- **The shortest path** to the same place. -/
def clean (p : String) : String :=
  build (isRooted p) (resolve (isRooted p) (segments p))

/-- Paths one after another, empty ones left out; no path at all gives the empty one. -/
def join (ps : List String) : String :=
  match ps.filter (· ≠ "") with
  | [] => ""
  | ps => clean ("/".intercalate ps)

/-- The directory of a path. -/
def parent (p : String) : String :=
  let before := (p.toList.reverse.dropWhile (· ≠ '/')).reverse
  clean (String.ofList before)

/-- The ending of the last name from its last point on, or nothing. -/
def extension (p : String) : String :=
  let back := p.toList.reverse.takeWhile fun c => c ≠ '/'
  if back.contains '.' then String.ofList ('.' :: (back.takeWhile (· ≠ '.')).reverse) else ""

end Statuary.Path
