/-!
# Numbers as bytes

The file formats of the library write whole numbers with the lowest byte first.
-/

namespace Statuary

/-- The last `width` bytes of a number, the lowest one first. -/
def bytesOf : Nat → Nat → List UInt8
  | 0, _ => []
  | width + 1, n => UInt8.ofNat n :: bytesOf width (n / 256)

/-- The number of bytes, the lowest one first. -/
def numberOfBytes : List UInt8 → Nat
  | [] => 0
  | b :: bs => b.toNat + 256 * numberOfBytes bs

/-- Bytes in pieces of at most `size`; no bytes are one empty piece. -/
def pieces (size : Nat) (h : 0 < size) (bytes : List UInt8) : List (List UInt8) :=
  if bytes.length ≤ size then [bytes]
  else bytes.take size :: pieces size h (bytes.drop size)
termination_by bytes.length
decreasing_by simp only [List.length_drop]; omega

end Statuary
