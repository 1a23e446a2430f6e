import Statuary.Number.Decimal
import Statuary.Text.Quoted

/-!
# Instants and their texts

An instant is a whole number of nanoseconds since the beginning of 1970. Its text has the date of
the Gregorian calendar, the time of day in universal time, and as much of the fraction of a second
as is not zero.

**The text is not read back from every instant.** A year is written with at least four digits and
read with exactly four (`Statuary.Instant.ofText`), so a text from the year ten thousand on cannot
be read, and the error says where reading stopped.

Dates are counted in eras of four hundred years that begin in March, so that the day that is
sometimes missing is the last one of its year (`Statuary.Date.ofDays`, `Statuary.Date.toDays`).
-/

namespace Statuary

/-- A moment, in nanoseconds since the beginning of 1970. -/
structure Instant where
  /-- The nanoseconds. -/
  nanos : Int
  deriving DecidableEq, Repr

/-! ### Dates -/

/-- A day of the Gregorian calendar. -/
structure Date where
  /-- The year. -/
  year : Int
  /-- The month, from one. -/
  month : Nat
  /-- The day of the month, from one. -/
  day : Nat
  deriving DecidableEq, Repr

namespace Date

/-- Days of an era of four hundred years. -/
def eraDays : Nat := 146097

/-- Days from the first of March of the year zero to the first of January of 1970. -/
def epochDays : Int := 719468

/-- The date of a number of days since the beginning of 1970. -/
def ofDays (days : Int) : Date :=
  let shifted := days + epochDays
  let era := shifted / eraDays
  let inEra := (shifted % eraDays).toNat
  let yearInEra := (inEra - inEra / 1460 + inEra / 36524 - inEra / 146096) / 365
  let inYear := inEra - (365 * yearInEra + yearInEra / 4 - yearInEra / 100)
  let march := (5 * inYear + 2) / 153
  let month := if march < 10 then march + 3 else march - 9
  { year := yearInEra + era * 400 + (if month ≤ 2 then 1 else 0)
    month
    day := inYear - (153 * march + 2) / 5 + 1 }

/-- The number of days from the beginning of 1970 to a date. -/
def toDays (d : Date) : Int :=
  let year := if d.month ≤ 2 then d.year - 1 else d.year
  let era := year / 400
  let yearInEra := (year % 400).toNat
  let march := if d.month ≤ 2 then d.month + 9 else d.month - 3
  let inYear := (153 * march + 2) / 5 + d.day - 1
  era * eraDays + (yearInEra * 365 + yearInEra / 4 - yearInEra / 100 + inYear : Nat) - epochDays

end Date

/-! ### Writing -/

/-- A number with at least the given number of digits. -/
def padDigits (width n : Nat) : List Char :=
  let ds := natDigits n
  List.replicate (width - ds.length) '0' ++ ds

namespace Instant

/-- The instant a number of milliseconds after the beginning of 1970. -/
def ofMillis (ms : Int) : Instant := ⟨ms * 1000000⟩

/-- The whole milliseconds since the beginning of 1970. -/
def millis (t : Instant) : Int := t.nanos / 1000000

/-- The nanoseconds of a second. -/
def second : Nat := 1000000000

/-- The whole seconds since the beginning of 1970. -/
def seconds (t : Instant) : Int := t.nanos / second

/-- The nanoseconds after the last whole second. -/
def fraction (t : Instant) : Nat := (t.nanos % second).toNat

/-- The date. -/
def date (t : Instant) : Date := .ofDays (t.seconds / 86400)

/-- The seconds after midnight. -/
def timeOfDay (t : Instant) : Nat := (t.seconds % 86400).toNat

/-- A year, with at least four digits. -/
def yearText (y : Int) : List Char :=
  if y < 0 then '-' :: padDigits 4 y.natAbs else padDigits 4 y.natAbs

/-- Date and time of day, up to the second. -/
def clockText (t : Instant) : List Char :=
  let d := t.date
  let s := t.timeOfDay
  yearText d.year ++ '-' :: padDigits 2 d.month ++ '-' :: padDigits 2 d.day ++ 'T' ::
    padDigits 2 (s / 3600) ++ ':' :: padDigits 2 (s / 60 % 60) ++ ':' :: padDigits 2 (s % 60)

/-- A fraction of a second without zeros at its end; nothing if it is zero. -/
def fractionText (n : Nat) : List Char :=
  if n = 0 then [] else '.' :: ((padDigits 9 n).reverse.dropWhile (· == '0')).reverse

/-- **The text of an instant**, with the fraction of its second. -/
def text (t : Instant) : String :=
  String.ofList (t.clockText ++ fractionText t.fraction ++ ['Z'])

/-- The text of an instant up to the second. -/
def shortText (t : Instant) : String :=
  String.ofList (t.clockText ++ ['Z'])

end Instant

/-! ### Reading -/

/-- Why a text is no instant. -/
inductive TimeFault where
  /-- What is left of the text does not begin with a certain part. -/
  | mismatch (rest part : String)
  /-- A number is beyond its range. -/
  | outOfRange (what : String)
  /-- Something follows the instant. -/
  | extra (rest : String)
  deriving DecidableEq, Repr

/-- The layout of the text of an instant. -/
def timeLayout : String := "2006-01-02T15:04:05.999999999Z07:00"

/-- The text of a fault in a text. -/
def TimeFault.message (text : String) : TimeFault → String
  | mismatch rest part =>
    s!"parsing time {quoted text} as {quoted timeLayout}: " ++
      s!"cannot parse {quoted rest} as {quoted part}"
  | outOfRange what => s!"parsing time {quoted text}: {what} out of range"
  | extra rest => s!"parsing time {quoted text}: extra text: {quoted rest}"

namespace Instant

/-- A character that must come next. -/
def readMark (c : Char) (cs : List Char) : Except TimeFault (List Char) :=
  match cs with
  | d :: rest =>
    if d = c then .ok rest else .error (.mismatch (String.ofList cs) (String.singleton c))
  | [] => .error (.mismatch "" (String.singleton c))

/-- A number of exactly so many digits, which the layout calls `part`. -/
def readField (width : Nat) (part : String) (cs : List Char) :
    Except TimeFault (Nat × List Char) :=
  let ds := cs.take width
  if ds.length = width ∧ ds.all isDigit then .ok (digitsValue ds, cs.drop width)
  else .error (.mismatch (String.ofList cs) part)

/-- A fraction of a second in nanoseconds; it may be missing. -/
def readFraction (cs : List Char) : Nat × List Char :=
  match cs with
  | '.' :: rest =>
    let (ds, after) := spanDigits rest
    if ds.isEmpty then (0, cs)
    else (digitsValue ((ds ++ List.replicate 9 '0').take 9), after)
  | _ => (0, cs)

/-- A check that a number is in its range. -/
def inRange (what : String) (low high n : Nat) : Except TimeFault Unit :=
  if low ≤ n ∧ n ≤ high then .ok () else .error (.outOfRange what)

/-- **Reading an instant** from a text in universal time. -/
def ofText (s : String) : Except TimeFault Instant := do
  let (year, cs) ← readField 4 "2006" s.toList
  let cs ← readMark '-' cs
  let (month, cs) ← readField 2 "01" cs
  inRange "month" 1 12 month
  let cs ← readMark '-' cs
  let (day, cs) ← readField 2 "02" cs
  let cs ← readMark 'T' cs
  let (hour, cs) ← readField 2 "15" cs
  inRange "hour" 0 23 hour
  let cs ← readMark ':' cs
  let (minute, cs) ← readField 2 "04" cs
  inRange "minute" 0 59 minute
  let cs ← readMark ':' cs
  let (second, cs) ← readField 2 "05" cs
  inRange "second" 0 59 second
  let (fraction, cs) := readFraction cs
  match cs with
  | 'Z' :: rest =>
    inRange "day" 1 31 day
    if rest ≠ [] then throw (.extra (String.ofList rest))
    let days := Date.toDays ⟨year, month, day⟩
    return ⟨(days * 86400 + (hour * 3600 + minute * 60 + second : Nat)) * Instant.second + fraction⟩
  | _ => throw (.mismatch (String.ofList cs) "Z07:00")

end Instant

end Statuary
