import Statuary.Command.World
import Statuary.Files.Tree

/-!
# A machine in memory

The surroundings of a command as a state: a file tree, a clock that advances whenever it is read,
the last id that was given, and what was written to the two outputs. A command over it
(`Statuary.MemoryMachine.world`) is a function from states to states, so what it does to files, to
the index and to the outputs can be stated and proved.

Since the clock advances between two ids, **no two ids of a machine are the same**.
-/

namespace Statuary

/-- A machine in memory. -/
structure MemoryMachine where
  /-- Its files. -/
  files : FileTree Content := {}
  /-- The milliseconds of its clock since the beginning of 1970. -/
  clock : Nat := 0
  /-- The last id that it gave. -/
  lastId : Option Ulid := none
  /-- What was written to the standard output, the log included. -/
  out : String := ""
  /-- What was written to the standard error output. -/
  err : String := ""

namespace MemoryMachine

/-- An action on the files of a machine. -/
def onFiles {α : Type} (act : StateM (FileTree Content) α) : StateM MemoryMachine α := fun st =>
  let (a, files) := act.run st.files
  (a, { st with files })

/-- The operations on the files of a machine. -/
def system : FileSystem (StateM MemoryMachine) Content :=
  let tree : FileSystem (StateM (FileTree Content)) Content := FileTree.system Content.size
  { isDir? := fun p => onFiles (tree.isDir? p)
    makeDir := fun p => onFiles (tree.makeDir p)
    write := fun p c => onFiles (tree.write p c)
    rename := fun p q => onFiles (tree.rename p q)
    remove := fun p => onFiles (tree.remove p)
    read := fun p => onFiles (tree.read p)
    stamp := fun p => onFiles (tree.stamp p) }

/-- The time, after which the clock advances. -/
def now : StateM MemoryMachine Instant :=
  modifyGet fun st => (.ofMillis st.clock, { st with clock := st.clock + 1 })

/-- A new id; the empty one if there is none for a time. -/
def newId (t : Instant) : StateM MemoryMachine String :=
  modifyGet fun st =>
    match Ulid.next st.lastId t 0 with
    | .ok u => (u.text, { st with lastId := some u })
    | .error _ => ("", st)

/-- Writes to the standard output. -/
def print (s : String) : StateM MemoryMachine Unit :=
  modify fun st => { st with out := st.out ++ s }

/-- What every line of the log begins with. -/
def logLead : String := "[statue] "

/-- **The surroundings of a command** on a machine in memory, in a directory of a given name. Nobody
listens there. -/
def world (directory : String) : World (StateM MemoryMachine) where
  files := system
  now := now
  newId := newId
  canceled := return false
  print := print
  complain s := modify fun st => { st with err := st.err ++ s }
  log s := print (logLead ++ logLine s)
  directory := return directory
  listen _ := return fun _ => return ()

end MemoryMachine

end Statuary
