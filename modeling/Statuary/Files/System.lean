import Statuary.Files.Path

/-!
# Writing files so that no reader sees half of one

What the library does to files is said in terms of a handful of operations (`Statuary.FileSystem`),
so that the same program runs on the files of a machine and on a tree in memory about which theorems
are proved (`Statuary.FileTree.system`).

The operation that matters is built from them: a file is replaced by **writing another one beside it
and renaming that** (`Statuary.FileSystem.replace`). Whatever fails on the way, the file itself is
as it was, and what was written beside it is taken away again.
-/

namespace Statuary

/-- Why an operation on files fails. -/
inductive FileFault where
  /-- There is nothing at a path. -/
  | missing
  /-- A path leads through a file. -/
  | notDirectory
  /-- There is a directory where a file is wanted. -/
  | isDirectory
  /-- There is something where nothing should be. -/
  | occupied
  /-- A name, or the whole path, has too many bytes. -/
  | nameTooLong
  /-- No path can be written so. -/
  | invalid
  /-- Anything else the machine may say. -/
  | other (text : String)
  deriving DecidableEq, Repr

/-- The text of a fault. -/
def FileFault.text : FileFault → String
  | missing => "no such file or directory"
  | notDirectory => "not a directory"
  | isDirectory => "is a directory"
  | occupied => "file exists"
  | nameTooLong => "file name too long"
  | invalid => "invalid argument"
  | other text => text

/-- The operations that can fail. -/
inductive FileAction where
  /-- Makes a directory. -/
  | makeDir
  /-- Opens a file. -/
  | openFile
  /-- Reads from an open file. -/
  | readFile
  /-- Renames a file. -/
  | rename
  deriving DecidableEq, Repr

/-- The name of an operation. -/
def FileAction.text : FileAction → String
  | makeDir => "mkdir"
  | openFile => "open"
  | readFile => "read"
  | rename => "rename"

/-- The failure of an operation. -/
structure FileError where
  /-- The operation. -/
  action : FileAction
  /-- The paths it was about. -/
  paths : List String
  /-- Why it failed. -/
  fault : FileFault
  deriving DecidableEq, Repr

/-- The text of a failure. -/
def FileError.message (e : FileError) : String :=
  " ".intercalate (e.action.text :: e.paths) ++ ": " ++ e.fault.text

/-- What can be seen of a file from outside. Its time is any whole number here. A count of 64 bits
holds the years from 1678 to 2262, and of other times it says nothing that could be relied on. -/
structure FileStamp where
  /-- When it was written last, in nanoseconds. -/
  time : Int
  /-- Its size. -/
  size : Nat
  deriving DecidableEq, Repr

/-- The operations on files whose contents are of type `α`, as actions of `m`. -/
structure FileSystem (m : Type → Type) (α : Type) where
  /-- Whether there is a directory at a path; nothing if there is nothing. -/
  isDir? : String → m (Option Bool)
  /-- Makes a directory in one that is there. -/
  makeDir : String → m (Except FileError Unit)
  /-- Writes a file, over the one that is there. -/
  write : String → α → m (Except FileError Unit)
  /-- Renames a file, over the one that is there. -/
  rename : String → String → m (Except FileError Unit)
  /-- Removes a file or an empty directory, if there is one. -/
  remove : String → m Unit
  /-- Reads a file. -/
  read : String → m (Except FileError α)
  /-- What can be seen of the file at a path. -/
  stamp : String → m (Option FileStamp)

/-- The path and the directories above it, the highest one first. -/
def Path.ancestors (p : String) : List String :=
  let rooted := Path.isRooted p
  let names := Path.resolve rooted (Path.segments p)
  match names with
  | [] => [Path.build rooted []]
  | names => (List.range names.length).map fun i => Path.build rooted (names.take (i + 1))

namespace FileSystem

variable {m : Type → Type} {α : Type} [Monad m]

/-- Makes those of the given directories that are missing, in order. -/
def makeEach (fs : FileSystem m α) : List String → m (Except FileError Unit)
  | [] => return .ok ()
  | p :: ps => do
    match ← fs.isDir? p with
    | some true => fs.makeEach ps
    | some false => return .error ⟨.makeDir, [p], .notDirectory⟩
    | none =>
      match ← fs.makeDir p with
      | .error e => return .error e
      | .ok _ => fs.makeEach ps

/-- Makes a directory and those above it. -/
def makeDirs (fs : FileSystem m α) (path : String) : m (Except FileError Unit) :=
  fs.makeEach (Path.ancestors path)

/-- Writes a file into a directory that is made if it is missing. -/
def writeInto (fs : FileSystem m α) (path : String) (data : α) : m (Except FileError Unit) := do
  match ← fs.makeDirs (Path.parent path) with
  | .error e => return .error e
  | .ok _ => fs.write path data

/-- The name beside a path under which a file is written first. -/
def besideName (path : String) : String := path ++ ".tmp"

/-- **Replacing a file.** -/
def replace (fs : FileSystem m α) (path : String) (data : α) : m (Except FileError Unit) := do
  match ← fs.makeDirs (Path.parent path) with
  | .error e => return .error e
  | .ok _ =>
    match ← fs.write (besideName path) data with
    | .error e =>
      fs.remove (besideName path)
      return .error e
    | .ok _ =>
      match ← fs.rename (besideName path) path with
      | .error e =>
        fs.remove (besideName path)
        return .error e
      | .ok _ => return .ok ()

end FileSystem

end Statuary
