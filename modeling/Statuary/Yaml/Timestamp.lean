import Statuary.Number.Decimal

/-!
# Dates and times in documents

A plain scalar that starts with four digits and a dash may be a date, or a date with a time of day.
The time follows after the letter `T`, and then has a zone, or after blanks, and then has none. The
parts after the year have one or two digits. The day must exist in its month.

Such scalars matter only as keys, where a date is another key than the text it is written with.
-/

namespace Statuary.Yaml

/-- The zone of a time. -/
inductive Zone where
  /-- Universal time. -/
  | universal
  /-- A number of minutes east of it. -/
  | offset (minutes : Int)
  deriving DecidableEq, Repr

/-- A date with a time of day. -/
structure Timestamp where
  /-- The year. -/
  year : Nat
  /-- The month, from one. -/
  month : Nat
  /-- The day of the month, from one. -/
  day : Nat
  /-- The hour. -/
  hour : Nat := 0
  /-- The minute. -/
  minute : Nat := 0
  /-- The second. -/
  second : Nat := 0
  /-- The nanosecond. -/
  nanosecond : Nat := 0
  /-- The zone. -/
  zone : Zone := .universal
  deriving DecidableEq, Repr

namespace Timestamp

/-- Zones of whole hours from twelve west to fourteen east are known. -/
def isKnown : Zone → Bool
  | .universal => true
  | .offset minutes => minutes % 60 == 0 && -12 * 60 ≤ minutes && minutes ≤ 14 * 60

/-- Two times are the same key: equal times in a zone that is known. A time in another zone is a key
of its own wherever it stands. -/
def same (s t : Timestamp) : Bool :=
  s == t && isKnown s.zone

/-- A year with a day more. -/
def isLeap (year : Nat) : Bool :=
  year % 4 == 0 && (year % 100 != 0 || year % 400 == 0)

/-- How many days a month has. -/
def monthDays (year month : Nat) : Nat :=
  if month = 2 then (if isLeap year then 29 else 28)
  else if month ∈ [4, 6, 9, 11] then 30
  else 31

/-- The parts that a time is made of exist. -/
def isValid (t : Timestamp) : Bool :=
  1 ≤ t.month && t.month ≤ 12 && 1 ≤ t.day && t.day ≤ monthDays t.year t.month &&
    t.hour < 24 && t.minute < 60 && t.second < 60

/-- One or two digits at the head of a text. -/
def part? : List Char → Option (Nat × List Char)
  | [] => none
  | c :: cs =>
    if !isDigit c then none
    else match cs with
      | d :: rest => some (if isDigit d then (digitsValue [c, d], rest) else (digitValue c, cs))
      | [] => some (digitValue c, [])

/-- A part after a mark. -/
def markedPart? (mark : Char) : List Char → Option (Nat × List Char)
  | [] => none
  | c :: cs => if c == mark then part? cs else none

/-- The nanoseconds after a point or comma, if there is a fraction; digits after the ninth do not
count. -/
def fraction (cs : List Char) : Nat × List Char :=
  match cs with
  | mark :: d :: rest =>
    if (mark == '.' || mark == ',') && isDigit d then
      let (digits, rest) := spanDigits (d :: rest)
      let digits := digits.take 9
      (digitsValue digits * Nat.pow 10 (9 - digits.length), rest)
    else (0, cs)
  | _ => (0, cs)

/-- A zone: `Z`, or a sign with hours and minutes of two digits each. -/
def zone? : List Char → Option Zone
  | ['Z'] => some .universal
  | [sign, a, b, ':', c, d] =>
    let hours := digitsValue [a, b]
    let minutes := digitsValue [c, d]
    if [a, b, c, d].all isDigit && hours ≤ 24 && minutes ≤ 60 then
      let east : Int := 60 * hours + minutes
      if sign == '+' then some (.offset east)
      else if sign == '-' then some (.offset (-east))
      else none
    else none
  | _ => none

/-- A date at the head of a text, after the four digits of its year. -/
def date? (year : Nat) (cs : List Char) : Option (Timestamp × List Char) := do
  let (month, cs) ← markedPart? '-' cs
  let (day, cs) ← markedPart? '-' cs
  return ({ year, month, day }, cs)

/-- A time of day at the head of a text, over a date. -/
def time? (t : Timestamp) (cs : List Char) : Option (Timestamp × List Char) := do
  let (hour, cs) ← part? cs
  let (minute, cs) ← markedPart? ':' cs
  let (second, cs) ← markedPart? ':' cs
  let (nanosecond, cs) := fraction cs
  return ({ t with hour, minute, second, nanosecond }, cs)

/-- What may follow a date. -/
def afterDate? (t : Timestamp) : List Char → Option Timestamp
  | [] => some t
  | c :: cs =>
    if c == 'T' || c == 't' then do
      let (t, cs) ← time? t cs
      return { t with zone := ← zone? cs }
    else if c == ' ' then do
      match ← time? t (cs.dropWhile (· == ' ')) with
      | (t, []) => some t
      | _ => none
    else none

/-- **The time that a text spells.** -/
def ofText? (s : String) : Option Timestamp := do
  let cs := s.toList
  let year := cs.takeWhile isDigit
  if year.length ≠ 4 then none else
  let (t, rest) ← date? (digitsValue year) (cs.drop 4)
  let t ← afterDate? t rest
  if t.isValid then some t else none

end Timestamp

end Statuary.Yaml
