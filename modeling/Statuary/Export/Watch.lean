import Statuary.Files.System
import Statuary.Number.Decimal

/-!
# Watching files

An export can be repeated whenever one of its files changes. A watch remembers **one sample** of its
files, a text that has for every path whether there is a file and, if so, its time and its size
(`Statuary.FileSystem.sample`). At every tick a new sample is compared with it: the same sample
means that nothing has to be done, and another one takes its place before the files are read
(`Statuary.Watch.see`). A change that comes while they are read is therefore seen at the next tick.

Paths may have any characters in them, also those between the parts of a sample. A watch always
samples the same paths in the same order, and that is why two samples can still be told apart.
-/

namespace Statuary

/-- The part of a sample about one file. -/
def sampleText (path : String) : Option FileStamp → String
  | none => path ++ ":missing;"
  | some s => path ++ ":" ++ String.ofList (intDigits s.time) ++ ":" ++
      String.ofList (natDigits s.size) ++ ";"

namespace FileSystem

variable {m : Type → Type} [Monad m] {α : Type}

/-- **The sample of files.** -/
def sample (fs : FileSystem m α) (paths : List String) : m String := do
  return String.join (← paths.mapM fun p => return sampleText p (← fs.stamp p))

end FileSystem

/-- What a watch remembers. -/
structure Watch where
  /-- The paths of its files. -/
  paths : List String
  /-- The sample that was taken before the files were read last. -/
  last : String
  deriving DecidableEq, Repr

namespace Watch

variable {m : Type → Type} [Monad m] {α : Type}

/-- The watch after a sample that differs from the last one; nothing if it does not. -/
def see (w : Watch) (sample : String) : Option Watch :=
  if sample = w.last then none else some { w with last := sample }

/-- The beginning of a watch: a sample and then the first reading. -/
def start (fs : FileSystem m α) (paths : List String) (reading : m Unit) : m Watch := do
  let last ← fs.sample paths
  reading
  return ⟨paths, last⟩

/-- **A tick of the watch**: a sample and, if it differs, a reading. -/
def tick (fs : FileSystem m α) (reading : m Unit) (w : Watch) : m Watch := do
  match w.see (← fs.sample w.paths) with
  | none => return w
  | some w =>
    reading
    return w

end Watch

end Statuary
