import Statuary.Assoc
import Statuary.Files.System

/-!
# File trees in memory

A file tree is a directory: names, each of which leads to a file or to a directory again. A
**place** in a tree is the list of names that leads to it from the top
(`Statuary.FileTree.entry?`).

A path is followed **name by name**: every name before the last must lead to a directory, and `..`
goes up from where the path has led so far (`Statuary.FileEntry.follow`). So a detour through a
directory that is not there fails, although the shortest path to the same place would not. A name
that is too long is noticed where it would be looked up, so after a directory that is missing.

A clock that ticks with every file written stands for time.
-/

namespace Statuary

/-- What a name leads to. -/
inductive FileEntry (α : Type) where
  /-- A directory, and what the names in it lead to. -/
  | dir (inside : List (String × FileEntry α))
  /-- A file, and when it was written. -/
  | file (data : α) (time : Nat)

namespace FileEntry

variable {α : Type}

/-- What names lead to from an entry. -/
def below? : FileEntry α → List String → Option (FileEntry α)
  | e, [] => some e
  | dir inside, name :: names => (inside.lookup name).bind (below? · names)
  | file .., _ :: _ => none

/-- The entry with another one put where names lead, through directories that are made if they are
missing. -/
def put (new : FileEntry α) : List String → FileEntry α → FileEntry α
  | [], _ => new
  | name :: names, dir inside =>
    dir (Assoc.put name (put new names ((inside.lookup name).getD (dir []))) inside)
  | _ :: _, file data time => file data time

/-- The entry without what names lead to; nothing is taken from where no name leads. -/
def erase : List String → FileEntry α → FileEntry α
  | [name], dir inside => dir (inside.filter (·.1 ≠ name))
  | name :: names, dir inside =>
    match inside.lookup name with
    | some e => dir (Assoc.put name (erase names e) inside)
    | none => dir inside
  | _, e => e

/-- **Following a path.** The steps from the top that names lead to after the given ones, of which
the last comes first; each step has a name and what is there. -/
def follow (top : FileEntry α) : List (String × Option (FileEntry α)) → List String →
    Except FileFault (List (String × Option (FileEntry α)))
  | steps, [] => .ok steps
  | steps, name :: names =>
    match (steps.head?.map (·.2)).getD (some top) with
    | none => .error .missing
    | some (file ..) => .error .notDirectory
    | some (dir inside) =>
      if Path.nameBytes < Utf8.size name then .error .nameTooLong
      else follow top (if name = "" ∨ name = "." then steps
        else if name = ".." then steps.tail
        else (name, inside.lookup name) :: steps) names

end FileEntry

/-- A file tree. -/
structure FileTree (α : Type) where
  /-- What the names at the top lead to. -/
  inside : List (String × FileEntry α) := []
  /-- The number of files written so far. -/
  clock : Nat := 0

namespace FileTree

variable {α : Type}

/-- The directory at the top. -/
def top (t : FileTree α) : FileEntry α := .dir t.inside

/-- The tree with the directory at the top changed; a file never gets there. -/
def mapTop (f : FileEntry α → FileEntry α) (t : FileTree α) : FileTree α :=
  match f t.top with
  | .dir inside => { t with inside }
  | .file .. => t

/-- What is at a place. -/
def entry? (t : FileTree α) (place : List String) : Option (FileEntry α) :=
  t.top.below? place

/-- The place that names of a path lead to. The zero character is part of no path. -/
def placeOf (t : FileTree α) (path : String) (names : List String) :
    Except FileFault (List String) :=
  if path.toList.contains '\x00' then .error .invalid
  else if path = "" then .error .missing
  else if Path.pathBytes ≤ Utf8.size path then .error .nameTooLong
  else (t.top.follow [] names).map fun steps => (steps.map (·.1)).reverse

/-- The place that a path leads to. -/
def place (t : FileTree α) (path : String) : Except FileFault (List String) :=
  t.placeOf path (Path.segments path)

/-- The place where a path wants a file. One that ends in a slash wants a directory, which is
noticed when the directory before its last name is found. -/
def filePlace (t : FileTree α) (path : String) : Except FileFault (List String) :=
  match (Path.segments path).reverse with
  | "" :: names =>
    let before := (names.dropWhile (· = "")).tail.reverse
    (t.placeOf path (before ++ [""])).bind fun _ => .error .isDirectory
  | _ => t.place path

/-- What a path leads to. -/
def at? (t : FileTree α) (path : String) : Option (FileEntry α) :=
  match t.place path with
  | .ok p => t.entry? p
  | .error _ => none

/-- The tree with something put at a place. -/
def put (t : FileTree α) (place : List String) (e : FileEntry α) : FileTree α :=
  t.mapTop (e.put place)

/-- The tree without what is at a place. -/
def erase (t : FileTree α) (place : List String) : FileTree α :=
  t.mapTop (.erase place)

/-! ### Operations -/

/-- Makes a directory. -/
def makeDir (t : FileTree α) (path : String) : Except FileError Unit × FileTree α :=
  let failed (f : FileFault) : Except FileError Unit × FileTree α :=
    (.error ⟨.makeDir, [path], f⟩, t)
  match t.place path with
  | .error f => failed f
  | .ok p =>
    match t.entry? p with
    | some _ => failed .occupied
    | none => (.ok (), t.put p (.dir []))

/-- Writes a file. -/
def write (t : FileTree α) (path : String) (data : α) : Except FileError Unit × FileTree α :=
  let failed (f : FileFault) : Except FileError Unit × FileTree α :=
    (.error ⟨.openFile, [path], f⟩, t)
  match t.filePlace path with
  | .error f => failed f
  | .ok p =>
    match t.entry? p with
    | some (.dir _) => failed .isDirectory
    | _ => (.ok (), { t.put p (.file data t.clock) with clock := t.clock + 1 })

/-- Renames a file. A directory is never renamed and never renamed over. -/
def rename (t : FileTree α) (before after : String) : Except FileError Unit × FileTree α :=
  let failed (f : FileFault) : Except FileError Unit × FileTree α :=
    (.error ⟨.rename, [before, after], f⟩, t)
  match t.place before with
  | .error f => failed f
  | .ok p =>
    match t.entry? p with
    | none => failed .missing
    | some (.dir _) => failed .isDirectory
    | some (.file data time) =>
      match t.place after with
      | .error f => failed f
      | .ok q =>
        match t.entry? q with
        | some (.dir _) => failed .occupied
        | _ => (.ok (), (t.erase p).put q (.file data time))

/-- Removes a file or an empty directory. -/
def remove (t : FileTree α) (path : String) : FileTree α :=
  match t.place path with
  | .error _ => t
  | .ok p =>
    match t.entry? p with
    | some (.dir (_ :: _)) => t
    | _ => t.erase p

/-- Reads a file. -/
def read (t : FileTree α) (path : String) : Except FileError α :=
  match t.place path with
  | .error f => .error ⟨.openFile, [path], f⟩
  | .ok p =>
    match t.entry? p with
    | none => .error ⟨.openFile, [path], .missing⟩
    | some (.dir _) => .error ⟨.readFile, [path], .isDirectory⟩
    | some (.file data _) => .ok data

/-- What can be seen of the file at a path, given the size of contents. -/
def stamp (size : α → Nat) (t : FileTree α) (path : String) : Option FileStamp :=
  match t.at? path with
  | some (.file data time) => some ⟨time, size data⟩
  | some (.dir _) => some ⟨0, 0⟩
  | none => none

/-- **The operations on a tree in memory.** -/
def system (size : α → Nat) : FileSystem (StateM (FileTree α)) α where
  isDir? path := fun t =>
    ((t.at? path).map fun
      | .dir _ => true
      | .file .. => false, t)
  makeDir path := fun t => t.makeDir path
  write path data := fun t => t.write path data
  rename before after := fun t => t.rename before after
  remove path := fun t => ((), t.remove path)
  read path := fun t => (t.read path, t)
  stamp path := fun t => (t.stamp size path, t)

/-! ### Listing -/

mutual

/-- The path of an entry and those below it, each with the content of the file there; that of a
directory ends in a slash. -/
def listEntry (path : String) : FileEntry α → List (String × Option α)
  | .file data _ => [(path, some data)]
  | .dir inside => (path ++ "/", none) :: listInside (path ++ "/") inside

/-- The paths of the entries in a directory and those below them. -/
def listInside (lead : String) : List (String × FileEntry α) → List (String × Option α)
  | [] => []
  | (name, e) :: rest => listEntry (lead ++ name) e ++ listInside lead rest

end

/-- The paths of a tree, in the order of their texts, with the contents of files. -/
def listing (t : FileTree α) : List (String × Option α) :=
  (listInside "" t.inside).mergeSort fun a b => !textLt b.1 a.1

/-- The paths of a tree. -/
def paths (t : FileTree α) : List String :=
  t.listing.map (·.1)

/-- The files of a tree and their contents. -/
def files (t : FileTree α) : List (String × α) :=
  t.listing.filterMap fun (path, data) => data.map fun data => (path, data)

end FileTree

end Statuary
