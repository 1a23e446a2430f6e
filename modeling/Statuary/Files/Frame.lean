import Statuary.Files.Bytes

/-!
# Compressed frames

Archived texts are kept in frames of the Zstandard format. A frame says how long its content is and
gives it in blocks. The blocks that are written hold their bytes as they are
(`Statuary.Frame.encode`); of the blocks that the format has, those and blocks of one repeated byte
can be read (`Statuary.Frame.decode`).
-/

namespace Statuary.Frame

/-- The bytes that begin every frame. -/
def magic : List UInt8 := [0x28, 0xB5, 0x2F, 0xFD]

/-- The length of the longest block. -/
def blockSize : Nat := 131072

/-- Blocks that hold their bytes as they are. -/
def rawBlocks : List (List UInt8) → List UInt8
  | [] => []
  | piece :: rest =>
    let last := if rest.isEmpty then 1 else 0
    bytesOf 3 (last + 8 * piece.length) ++ piece ++ rawBlocks rest

/-- **A frame with a content.** -/
def encode (content : List UInt8) : List UInt8 :=
  magic ++ 0xA0 :: bytesOf 4 content.length ++ rawBlocks (pieces blockSize (by decide) content)

/-- The content of blocks, given how many blocks there can be, and what follows the last one. -/
def readBlocks : Nat → List UInt8 → Option (List UInt8 × List UInt8)
  | 0, _ => none
  | fuel + 1, bytes =>
    if bytes.length < 3 then none
    else
      let header := numberOfBytes (bytes.take 3)
      let size := header / 8
      let rest := bytes.drop 3
      let block : Option (List UInt8 × List UInt8) :=
        match header / 2 % 4, rest with
        | 0, rest => if rest.length < size then none else some (rest.take size, rest.drop size)
        | 1, b :: rest => some (List.replicate size b, rest)
        | _, _ => none
      match block with
      | none => none
      | some (content, rest) =>
        if header % 2 = 1 then some (content, rest)
        else (readBlocks fuel rest).map fun (more, after) => (content ++ more, after)

/-- The number of bytes that say how long the content is, given the byte that describes the frame.
-/
def sizeWidth (descriptor : Nat) : Nat :=
  match descriptor / 64 with
  | 0 => descriptor / 32 % 2
  | 1 => 2
  | 2 => 4
  | _ => 8

/-- The number of bytes of the header after the byte that describes the frame. -/
def headerWidth (descriptor : Nat) : Nat :=
  let window := 1 - descriptor / 32 % 2
  let dictionary := [0, 1, 2, 4].getD (descriptor % 4) 0
  window + dictionary + sizeWidth descriptor

/-- **The content of a frame.** -/
def decode (bytes : List UInt8) : Option (List UInt8) :=
  if bytes.take 4 ≠ magic then none
  else match bytes.drop 4 with
    | [] => none
    | d :: rest =>
      let descriptor := d.toNat
      let checked := if descriptor / 4 % 2 = 1 then 4 else 0
      (readBlocks bytes.length (rest.drop (headerWidth descriptor))).bind fun (content, after) =>
        if after.length = checked then some content else none

end Statuary.Frame
