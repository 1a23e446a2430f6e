import Statuary.Time.Instant

/-!
# The ids of exports

An id is a number of 128 bits, the time of its making in milliseconds before eighty random bits,
written with twenty-six digits of a base of thirty-two. Since the time comes first and all ids have
one length, **ids sort by time** as texts do. Two ids of one millisecond would not, so the second
continues from the random bits of the first (`Statuary.Ulid.next`).

The digits leave out four letters that are easily misread. An id is read in either case
(`Statuary.Ulid.ofText?`).
-/

namespace Statuary

/-- An id. -/
structure Ulid where
  /-- Milliseconds since the beginning of 1970. -/
  time : Nat
  /-- The random part. -/
  entropy : Nat
  deriving DecidableEq, Repr

/-- Why there is no id. -/
inductive UlidError where
  /-- The time is before 1970 or needs more than 48 bits. -/
  | timeTooBig
  /-- The random part cannot be continued. -/
  | exhausted
  deriving DecidableEq, Repr

/-- The text of an error. -/
def UlidError.message : UlidError → String
  | timeTooBig => "ulid: time too big"
  | exhausted => "ulid: monotonic entropy overflow"

namespace Ulid

/-- The digits. -/
def alphabet : List Char := "0123456789ABCDEFGHJKMNPQRSTVWXYZ".toList

/-- Times have 48 bits. -/
def timeBound : Nat := Nat.pow 2 48

/-- Random parts have eighty bits. -/
def entropyBound : Nat := Nat.pow 2 80

/-- How far the random parts of two ids of one millisecond are apart at most. -/
def stepBound : Nat := Nat.pow 2 32

/-- The number of digits of an id. -/
def width : Nat := 26

/-- The digit of a number below thirty-two. -/
def digit (n : Nat) : Char := alphabet.getD n '0'

/-- The last `width` digits of a number. -/
def digits : Nat → Nat → List Char
  | 0, _ => []
  | width + 1, n => digits width (n / 32) ++ [digit (n % 32)]

/-- The value of a digit, in either case. -/
def value? (c : Char) : Option Nat :=
  alphabet.findIdx? (· == c.toUpper)

/-- The number of an id. -/
def number (u : Ulid) : Nat := u.time * entropyBound + u.entropy

/-- The text of an id. -/
def text (u : Ulid) : String := String.ofList (digits width u.number)

/-- **Reading an id.** -/
def ofText? (s : String) : Option Ulid := do
  let vs ← s.toList.mapM value?
  let n := vs.foldl (fun n v => 32 * n + v) 0
  if vs.length = width ∧ n < timeBound * entropyBound then
    some ⟨n / entropyBound, n % entropyBound⟩
  else none

/-- The instant of an id. -/
def instant (u : Ulid) : Instant := .ofMillis u.time

/-- **The id for an instant**, given the last id and random bits: in the millisecond of the last id
it goes on from there, by more than nothing. -/
def next (last : Option Ulid) (now : Instant) (random : Nat) : Except UlidError Ulid :=
  let time := now.millis
  if time < 0 ∨ timeBound ≤ time then .error .timeTooBig
  else
    let time := time.toNat
    match last.filter (·.time = time) with
    | none => .ok ⟨time, random % entropyBound⟩
    | some u =>
      let entropy := u.entropy + 1 + random % stepBound
      if entropy < entropyBound then .ok ⟨time, entropy⟩ else .error .exhausted

end Ulid

end Statuary
