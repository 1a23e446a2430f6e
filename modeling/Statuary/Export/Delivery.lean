import Statuary.Files.Content

/-!
# Delivering a pack

The files of a pack go below a directory, one by one, or into a single archive if the destination is
named like one. Below a directory a bad path is noticed **when its turn comes**, after the files
before it are written; into an archive nothing is written unless everything can be.
-/

namespace Statuary

/-- Why a pack is not delivered. -/
inductive DeliveryError where
  /-- Its files cannot be put into a pack. -/
  | badFiles (e : PackPathError)
  /-- A file of it cannot be written. -/
  | file (path : String) (cause : String)
  /-- The one file that it is cannot be written. -/
  | whole (cause : String)
  deriving DecidableEq, Repr

/-- The text of an error. -/
def DeliveryError.message : DeliveryError → String
  | badFiles e => e.message
  | file path cause => "datapack: " ++ path ++ ": " ++ cause
  | whole cause => cause

/-- A way to write files, as an action of `m`; if it fails it says why. -/
abbrev Writer (m : Type → Type) := String → Content → m (Except String Unit)

namespace Delivery

variable {m : Type → Type} [Monad m]

/-- A path is that of an archive: its last name ends in `.zip`, in either case. -/
def isZip (path : String) : Bool :=
  (Path.extension path).toList.map Char.toLower == ".zip".toList

/-- Writes files below a directory. -/
def writeBelow (write : Writer m) (root : String) : List PackFile → m (Except DeliveryError Unit)
  | [] => return .ok ()
  | f :: fs => do
    if !isPackPath f.path then return .error (.badFiles (.badPath f.path))
    match ← write (Path.join [root, f.path]) (.text f.data) with
    | .error cause => return .error (.file f.path cause)
    | .ok _ => writeBelow write root fs

/-- Writes one file. -/
def writeWhole (write : Writer m) (path : String) (c : Content) :
    m (Except DeliveryError Unit) := do
  return (← write path c).mapError .whole

/-- **Writing the files of a pack** to their destination. -/
def writePack (write : Writer m) (dest : String) (files : List PackFile) :
    m (Except DeliveryError Unit) :=
  if isZip dest then
    match Zip.ofFiles files with
    | .error e => return .error (.badFiles e)
    | .ok es => writeWhole write dest (.zip es)
  else writeBelow write dest files

end Delivery

end Statuary
