/-!
# Texts and their bytes

A text of the library is a `String`, and stands for bytes: those of its characters in UTF-8. Not all
bytes are characters, though, and a document may hold such bytes. So 128 characters of a private
range are set aside (`Statuary.Utf8.carrier`): each of them **carries a byte** that is part of no
character.

The one obstacle is that the range may occur in a text from outside. There it is taken for what it
is in bytes: a character of the range enters as four carriers, one for each of its bytes
(`Statuary.Utf8.ofString`). So inside the library the range has one meaning only, the bytes of every
text are known (`Statuary.Utf8.encode`), and texts of different bytes are different. On the way out
carriers that make up a character together are that character again, and
`Statuary.Utf8.spell` finds them.

* `Statuary.Utf8.decode` gives the text of bytes, `Statuary.Utf8.encode` the bytes of a text;
* `Statuary.Utf8.ofString` and `Statuary.Utf8.shown` stand between texts and the outside.
-/

namespace Statuary.Utf8

/-! ### Carriers -/

/-- The code point after which those of the carriers follow. -/
def carrierBase : Nat := 0x10EE00

/-- The character that carries a byte that is part of none. -/
def carrier (b : UInt8) : Char := Char.ofNat (carrierBase + b.toNat)

/-- The byte that a character carries, if it carries one. Bytes below 128 are characters, and never
carried. -/
def carried? (c : Char) : Option UInt8 :=
  if carrierBase + 0x80 ≤ c.toNat ∧ c.toNat < carrierBase + 0x100 then
    some (UInt8.ofNat (c.toNat - carrierBase))
  else none

/-- A character of the range that is set aside. -/
def isCarrier (c : Char) : Bool := (carried? c).isSome

theorem any_isCarrier (s : String) : s.any isCarrier = s.toList.any isCarrier :=
  String.contains_bool_eq

/-- What a carrier carries is the byte it was made for. -/
theorem carried?_carrier (b : UInt8) (h : 0x80 ≤ b.toNat) : carried? (carrier b) = some b := by
  have hb : b.toNat < 256 := b.toNat_lt
  have hv : (carrierBase + b.toNat).isValidChar := by
    simp only [Nat.isValidChar, carrierBase]; omega
  have hn : (carrier b).toNat = carrierBase + b.toNat := congrArg Char.toNat (dif_pos hv)
  simp [carried?, hn, h, hb]

/-! ### Characters in bytes -/

/-- A byte that continues a character. -/
def isTrail (b : UInt8) : Bool :=
  b.toNat / 64 == 2

/-- The character with a number, if it needs as many bytes as it was written with. -/
def charOf? (least n : Nat) : Option Char :=
  if least ≤ n ∧ n.isValidChar then some (Char.ofNat n) else none

/-- The character at the head of some bytes, and its number of bytes. -/
def head? : List UInt8 → Option (Char × Nat)
  | [] => none
  | b :: bs =>
    let n := b.toNat
    if n < 0x80 then some (Char.ofNat n, 1)
    else if n / 32 = 6 then more 1 0x80 (n % 32) bs
    else if n / 16 = 14 then more 2 0x800 (n % 16) bs
    else if n / 8 = 30 then more 3 0x10000 (n % 8) bs
    else none
where
  /-- The character with `k` further bytes, `n` being what the first one holds. -/
  more (k least n : Nat) (bs : List UInt8) : Option (Char × Nat) :=
    let trail := bs.take k
    if trail.length = k ∧ trail.all isTrail then
      (charOf? least (trail.foldl (fun n b => 64 * n + b.toNat % 64) n)).map (·, k + 1)
    else none

/-! ### Texts from bytes -/

/-- Reads characters; `skip` bytes belong to the character before. -/
def decodeFrom : Nat → List UInt8 → List Char
  | _, [] => []
  | skip + 1, _ :: bs => decodeFrom skip bs
  | 0, b :: bs =>
    match head? (b :: bs) with
    | some (c, width) => if isCarrier c then carrier b :: decodeFrom 0 bs
        else c :: decodeFrom (width - 1) bs
    | none => carrier b :: decodeFrom 0 bs

/-- **The text of bytes.** -/
def decode (bytes : List UInt8) : String :=
  String.ofList (decodeFrom 0 bytes)

/-- The text of a character. -/
def ofChar (c : Char) : List Char :=
  if isCarrier c then (String.utf8EncodeChar c).map carrier else [c]

/-- **The text of a string** from outside. -/
def ofString (s : String) : String :=
  if s.any isCarrier then String.ofList (s.toList.flatMap ofChar) else s

/-! ### Bytes from texts -/

/-- The bytes of a character, or the one that it carries. -/
def encodeChar (c : Char) : List UInt8 :=
  match carried? c with
  | some b => [b]
  | none => String.utf8EncodeChar c

/-- **The bytes of a text.** -/
def encode (s : String) : List UInt8 :=
  s.toList.flatMap encodeChar

/-- The number of bytes of a character. -/
def width (c : Char) : Nat :=
  if isCarrier c then 1 else c.utf8Size

/-- The number of bytes of a text. -/
def size (s : String) : Nat :=
  s.toList.foldl (fun n c => n + width c) 0

/-- The number of bytes of a character counts them. -/
theorem length_encodeChar (c : Char) : (encodeChar c).length = width c := by
  unfold encodeChar width isCarrier
  cases carried? c <;> simp

/-- The bytes that the first `n` characters of a text carry, up to one that carries none. -/
def carriedRun : Nat → List Char → List UInt8
  | 0, _ => []
  | _, [] => []
  | n + 1, c :: cs =>
    match carried? c with
    | some b => b :: carriedRun n cs
    | none => []

/-- Goes through a text by its characters and by the bytes that are part of none; `skip` carriers
belong to the character before. -/
def spellFrom {α : Type} (char : Char → List α) (stray : UInt8 → List α) :
    Nat → List Char → List α
  | _, [] => []
  | skip + 1, _ :: cs => spellFrom char stray skip cs
  | 0, c :: cs =>
    match carried? c with
    | none => char c ++ spellFrom char stray 0 cs
    | some b =>
      match head? (b :: carriedRun 3 cs) with
      | some (d, width) => char d ++ spellFrom char stray (width - 1) cs
      | none => stray b ++ spellFrom char stray 0 cs

/-- **The characters of a text**, each written by `char`, and the bytes that are part of none, each
written by `stray`. -/
def spell {α : Type} (char : Char → List α) (stray : UInt8 → List α) (s : String) : List α :=
  spellFrom char stray 0 s.toList

/-- The character that stands for a byte that is part of none where only characters can stand. -/
def replacement : Char := Char.ofNat 0xFFFD

/-- **The string that shows a text** outside. -/
def shown (s : String) : String :=
  if s.any isCarrier then String.ofList (spell (fun c => [c]) (fun _ => [replacement]) s) else s

/-- The string of a text all of whose bytes are part of a character. -/
def string? (s : String) : Option String :=
  if s.any isCarrier then
    ((spell (fun c => [some c]) (fun _ => [none]) s).mapM id).map String.ofList
  else some s

end Statuary.Utf8
