import Statuary.Export.Run
import Statuary.Files.System

/-!
# The surroundings of a command

A command sees the world through one record of actions (`Statuary.World`): files, a clock, ids, the
three places it writes to, and editors that listen. The same command runs on a machine, where the
actions do what they say, and on a file tree in memory.
-/

namespace Statuary

/-- How a command ends. -/
inductive Exit where
  /-- It worked. -/
  | success
  /-- It failed. -/
  | failure
  /-- There is something that the user has to mend. -/
  | misuse
  deriving DecidableEq, Repr

/-- The status that tells how a command ended. -/
def Exit.status : Exit → Nat
  | success => 0
  | failure => 1
  | misuse => 2

/-- The surroundings of a command, as actions of `m`. -/
structure World (m : Type → Type) where
  /-- The files. -/
  files : FileSystem m Content
  /-- The current time. -/
  now : m Instant
  /-- A new id. -/
  newId : Instant → m String
  /-- The command is called off. -/
  canceled : m Bool
  /-- Writes to the standard output. -/
  print : String → m Unit
  /-- Writes to the standard error output. -/
  complain : String → m Unit
  /-- Writes a line into the log. -/
  log : String → m Unit
  /-- The current directory. -/
  directory : m String
  /-- Lets editors listen at an address, and gives what tells them. -/
  listen : String → m (Notice → m Unit)

end Statuary
