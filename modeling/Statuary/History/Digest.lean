import Statuary.Text.Quoted

/-!
# Digests

The digest of a text is the 256-bit hash of its bytes in UTF-8 that the Secure Hash Standard
defines, written in base sixteen. The bytes are padded to whole blocks of sixty-four; each block is
spread over sixty-four words, and as many rounds mix them into a state of eight words.
-/

namespace Statuary.Digest

/-- The words of the first state: the fractions of the square roots of the first eight primes. -/
def start : List UInt32 :=
  [0x6a09e667, 0xbb67ae85, 0x3c6ef372, 0xa54ff53a, 0x510e527f, 0x9b05688c, 0x1f83d9ab, 0x5be0cd19]

/-- The word of each round: the fractions of the cube roots of the first sixty-four primes. -/
def roundWords : List UInt32 :=
  [0x428a2f98, 0x71374491, 0xb5c0fbcf, 0xe9b5dba5, 0x3956c25b, 0x59f111f1, 0x923f82a4, 0xab1c5ed5,
    0xd807aa98, 0x12835b01, 0x243185be, 0x550c7dc3, 0x72be5d74, 0x80deb1fe, 0x9bdc06a7, 0xc19bf174,
    0xe49b69c1, 0xefbe4786, 0x0fc19dc6, 0x240ca1cc, 0x2de92c6f, 0x4a7484aa, 0x5cb0a9dc, 0x76f988da,
    0x983e5152, 0xa831c66d, 0xb00327c8, 0xbf597fc7, 0xc6e00bf3, 0xd5a79147, 0x06ca6351, 0x14292967,
    0x27b70a85, 0x2e1b2138, 0x4d2c6dfc, 0x53380d13, 0x650a7354, 0x766a0abb, 0x81c2c92e, 0x92722c85,
    0xa2bfe8a1, 0xa81a664b, 0xc24b8b70, 0xc76c51a3, 0xd192e819, 0xd6990624, 0xf40e3585, 0x106aa070,
    0x19a4c116, 0x1e376c08, 0x2748774c, 0x34b0bcb5, 0x391c0cb3, 0x4ed8aa4a, 0x5b9cca4f, 0x682e6ff3,
    0x748f82ee, 0x78a5636f, 0x84c87814, 0x8cc70208, 0x90befffa, 0xa4506ceb, 0xbef9a3f7, 0xc67178f2]

/-- A word turned to the right. -/
def rotate (x : UInt32) (n : UInt32) : UInt32 :=
  (x >>> n) ||| (x <<< (32 - n))

/-- The words of sixteen times four bytes, the first byte being the highest. -/
def toWords : List UInt8 → List UInt32
  | a :: b :: c :: d :: rest =>
    ((a.toUInt32 <<< 24) ||| (b.toUInt32 <<< 16) ||| (c.toUInt32 <<< 8) ||| d.toUInt32) ::
      toWords rest
  | _ => []

/-- The word that follows the last sixteen, which stand in reverse order. -/
def nextWord (back : List UInt32) : UInt32 :=
  let word (n : Nat) : UInt32 := back.getD (n - 1) 0
  let w15 := word 15
  let w2 := word 2
  word 16 + (rotate w15 7 ^^^ rotate w15 18 ^^^ (w15 >>> 3)) + word 7 +
    (rotate w2 17 ^^^ rotate w2 19 ^^^ (w2 >>> 10))

/-- Words, in reverse order, with so many more after them. -/
def extend : Nat → List UInt32 → List UInt32
  | 0, back => back
  | n + 1, back => extend n (nextWord back :: back)

/-- The sixty-four words of a block. -/
def schedule (block : List UInt8) : List UInt32 :=
  (extend 48 (toWords block).reverse).reverse

/-- One round. -/
def round (state : List UInt32) (k w : UInt32) : List UInt32 :=
  match state with
  | [a, b, c, d, e, f, g, h] =>
    let t1 := h + (rotate e 6 ^^^ rotate e 11 ^^^ rotate e 25) +
      ((e &&& f) ^^^ (~~~e &&& g)) + k + w
    let t2 := (rotate a 2 ^^^ rotate a 13 ^^^ rotate a 22) +
      ((a &&& b) ^^^ (a &&& c) ^^^ (b &&& c))
    [t1 + t2, a, b, c, d + t1, e, f, g]
  | other => other

/-- The state after a block. -/
def compress (state : List UInt32) (block : List UInt8) : List UInt32 :=
  let mixed := (roundWords.zip (schedule block)).foldl (fun s (k, w) => round s k w) state
  (state.zip mixed).map fun (x, y) => x + y

/-- The eight bytes of a number. -/
def lengthBytes (n : Nat) : List UInt8 :=
  (List.range 8).map fun i => UInt8.ofNat (n >>> (8 * (7 - i)))

/-- The bytes that fill the last block: a mark, zeros, and the number of bits. -/
def padding (size : Nat) : List UInt8 :=
  0x80 :: (List.replicate ((119 - size % 64) % 64) 0 ++ lengthBytes (8 * size))

/-- Bytes in blocks of sixty-four. -/
def blocks (bytes : List UInt8) : List (List UInt8) :=
  match bytes with
  | [] => []
  | b :: rest => (b :: rest).take 64 :: blocks ((b :: rest).drop 64)
termination_by bytes.length
decreasing_by simp only [List.length_drop, List.length_cons]; omega

/-- The digest of bytes. -/
def ofBytes (bytes : List UInt8) : List UInt32 :=
  (blocks (bytes ++ padding bytes.length)).foldl compress start

/-- **The digest of a text.** -/
def ofText (s : String) : String :=
  String.ofList ((ofBytes (Utf8.encode s)).flatMap fun w => hexDigits 8 w.toNat)

end Statuary.Digest
