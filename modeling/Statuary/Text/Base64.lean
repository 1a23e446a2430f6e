/-!
# Bytes in base 64

Bytes can be written with sixty-four letters, four letters for three bytes. If the last group has
fewer bytes it is filled up with `=`. Line breaks may stand anywhere and do not count; everything
else is malformed (`Statuary.Base64.decode?`). Bits that are left over in the last group are not
looked at.
-/

namespace Statuary.Base64

/-- The value of a letter. -/
def value? (c : Char) : Option Nat :=
  if 'A' ≤ c ∧ c ≤ 'Z' then some (c.toNat - 65)
  else if 'a' ≤ c ∧ c ≤ 'z' then some (c.toNat - 71)
  else if '0' ≤ c ∧ c ≤ '9' then some (c.toNat + 4)
  else if c = '+' then some 62
  else if c = '/' then some 63
  else none

/-- The first `count` bytes of a group with the given value. -/
def groupBytes (count value : Nat) : List UInt8 :=
  [UInt8.ofNat (value / 65536), UInt8.ofNat (value / 256), UInt8.ofNat value].take count

/-- The value of a group of letters, each of which counts for six bits. -/
def groupValue? (letters : List Char) : Option Nat :=
  letters.foldlM (fun n c => (value? c).map (64 * n + ·)) 0

/-- The bytes of letters without line breaks. -/
def decodeLetters? : List Char → Option (List UInt8)
  | [] => some []
  | [a, b, '=', '='] => (groupValue? [a, b, 'A', 'A']).map (groupBytes 1)
  | [a, b, c, '='] => (groupValue? [a, b, c, 'A']).map (groupBytes 2)
  | a :: b :: c :: d :: rest => do
    let value ← groupValue? [a, b, c, d]
    return groupBytes 3 value ++ (← decodeLetters? rest)
  | _ => none

/-- **The bytes that a text in base 64 stands for.** -/
def decode? (s : String) : Option (List UInt8) :=
  decodeLetters? (s.toList.filter fun c => c != '\n' && c != '\r')

end Statuary.Base64
