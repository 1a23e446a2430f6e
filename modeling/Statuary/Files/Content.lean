import Statuary.Files.Frame
import Statuary.Files.Zip
import Statuary.History.Ledger

/-!
# The contents of files

The library writes four kinds of files. Everywhere but at the disk itself a content is what it
means, so that nothing has to be taken apart again to be looked at; `Statuary.Content.bytes` and
`Statuary.Content.ofBytes` stand between the two.
-/

namespace Statuary

/-- The content of a file. -/
inductive Content where
  /-- A text. -/
  | text (s : String)
  /-- A zip archive. -/
  | zip (entries : List ZipEntry)
  /-- A compressed text. -/
  | packed (s : String)
  /-- The index of exports. -/
  | index (image : IndexImage)
  deriving DecidableEq

namespace Content

/-- The bytes of a content. -/
def bytes : Content → List UInt8
  | text s => Utf8.encode s
  | zip es => Zip.bytes es
  | packed s => Frame.encode (Utf8.encode s)
  | index im => Utf8.encode im.toText

/-- The size of a content. -/
def size (c : Content) : Nat := c.bytes.length

/-- The content of bytes. -/
def ofBytes (bytes : List UInt8) : Content :=
  match Frame.decode bytes with
  | some inner => packed (Utf8.decode inner)
  | none =>
    let s := Utf8.decode bytes
    if startsWith IndexImage.mark s then ((IndexImage.ofText? s).map index).getD (text s)
    else text s

/-- A content as a text. -/
def asText : Content → String
  | text s => s
  | other => Utf8.decode other.bytes

end Content

end Statuary
