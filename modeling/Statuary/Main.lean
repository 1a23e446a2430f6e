import Statuary.Command.Query
import Statuary.Command.Session
import Statuary.History.Ulid
import Std.Time.DateTime.Timestamp

/-!
# The command line

The actions of the surroundings on a machine, and the two commands over them: `history` and its
questions, or an export. Everything that is decided is decided in the modules before this one.
-/

namespace Statuary.Machine

/-- The fault behind an error of the machine. -/
def faultOf : IO.Error → FileFault
  | .noFileOrDirectory .. => .missing
  | .alreadyExists .. => .occupied
  | .inappropriateType _ code text =>
    if code = 20 then .notDirectory else if code = 21 then .isDirectory else .other text
  | .invalidArgument _ code text =>
    if code = 22 then .invalid else if code = 36 then .nameTooLong else .other text
  | e => .other e.toString

/-- An action of the machine whose error is a failure to do something with files. -/
def guarded {α : Type} (action : FileAction) (paths : List String) (act : IO α) :
    IO (Except FileError α) := do
  try return .ok (← act)
  catch e => return .error ⟨action, paths, faultOf e⟩

/-- What can be seen of a file from outside, and whether it is a directory. -/
def look (path : String) : IO (Option (FileStamp × Bool)) := do
  try
    let seen ← (← IO.FS.realPath path).metadata
    let time := seen.modified.sec * Duration.second + seen.modified.nsec.toNat
    return some (⟨time, seen.byteSize.toNat⟩,
      match seen.type with
      | .dir => true
      | _ => false)
  catch _ => return none

/-- Reads a file. -/
def read (path : String) : IO (Except FileError Content) := do
  match ← look path with
  | some (_, true) => return .error ⟨.readFile, [path], .isDirectory⟩
  | _ => guarded .openFile [path] do
      return Content.ofBytes (← IO.FS.readBinFile path).toList

/-- Removes a file or an empty directory. -/
def remove (path : String) : IO Unit := do
  try IO.FS.removeFile path
  catch _ => try IO.FS.removeDir path catch _ => return ()

/-- The files of the machine. -/
def files : FileSystem IO Content where
  isDir? path := do return (← look path).map (·.2)
  makeDir path := guarded .makeDir [path] (IO.FS.createDir path)
  write path c := guarded .openFile [path] (IO.FS.writeBinFile path ⟨c.bytes.toArray⟩)
  rename before after := guarded .rename [before, after] (IO.FS.rename before after)
  remove := remove
  read := read
  stamp path := do return (← look path).map (·.1)

/-- The time of the machine. -/
def now : IO Instant := do
  return ⟨(← Std.Time.Timestamp.now).toNanosecondsSinceUnixEpoch.val⟩

/-- A new id after the last one. -/
def newId (last : IO.Ref (Option Ulid)) (t : Instant) : IO String := do
  let random := (← IO.getRandomBytes 10).toList.foldl (fun n b => 256 * n + b.toNat) 0
  match Ulid.next (← last.get) t random with
  | .error e => throw (IO.userError e.message)
  | .ok u =>
    last.set (some u)
    return u.text

/-- The time of a line of the log, with six digits after the point. -/
def stampText (t : Instant) : String :=
  let s := (t.text.toList.takeWhile (· ≠ 'Z')).map fun c =>
    if c = '-' then '/' else if c = 'T' then ' ' else c
  let point := if s.contains '.' then [] else ['.']
  String.ofList ((s ++ point ++ List.replicate 6 '0').take 26)

/-- Writes to the standard output. -/
def print (s : String) : IO Unit := do
  let out ← IO.getStdout
  out.write ⟨(Utf8.encode s).toArray⟩
  out.flush

/-- The surroundings of a command on a machine, where no editor can listen. -/
def world : IO (World IO) := do
  let last ← IO.mkRef none
  let log (s : String) : IO Unit := do
    print ("[statue] " ++ stampText (← now) ++ " " ++ logLine s)
  return {
    files
    now
    newId := newId last
    canceled := return false
    print
    complain s := do (← IO.getStderr).write ⟨(Utf8.encode s).toArray⟩
    log
    directory := return toString (← IO.currentDir)
    listen _ := do
      log "notify listener: not supported on this machine"
      return fun _ => return () }

/-- Watches files until the process is stopped. -/
partial def keepWatch (w : World IO) (s : Session IO) : IO Unit := do
  IO.sleep (max 1 (s.options.interval / Duration.millisecond)).toNat.toUInt32
  keepWatch w (← s.tick w)

/-- The commands. -/
def run (args : List String) : IO Exit := do
  let w ← world
  match args.map Utf8.ofString with
  | "history" :: args => HistoryQuery.run w args
  | args =>
    match ← Session.launch w args with
    | .over e => return e
    | .watching s =>
      keepWatch w s
      return .success

end Statuary.Machine

/-- Runs the command that the arguments ask for. -/
def main (args : List String) : IO UInt32 := do
  return (← Statuary.Machine.run args).status.toUInt32
