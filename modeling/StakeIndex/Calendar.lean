import StakeIndex.Text.Blank
import StakeIndex.Text.Numeral

/-!
Moments in UTC, their calendar dates in the proleptic Gregorian calendar, and their text: RFC 3339 for
a moment and year with month for an epoch of the chain's accounting.
-/
namespace StakeIndex

structure Date where
  year : Int
  month : Nat
  day : Nat
deriving DecidableEq, Repr

namespace Date

/-- The date of a day counted from 1970-01-01. Years are counted from March, so that the leap day ends
one, and grouped into eras of 400. -/
def ofDays (days : Int) : Date :=
  let shifted := days + 719468
  let era := shifted / 146097
  let dayOfEra := (shifted % 146097).toNat
  let yearOfEra := (dayOfEra - dayOfEra / 1460 + dayOfEra / 36524 - dayOfEra / 146096) / 365
  let dayOfYear := dayOfEra - (365 * yearOfEra + yearOfEra / 4 - yearOfEra / 100)
  let marchMonth := (5 * dayOfYear + 2) / 153
  let day := dayOfYear - (153 * marchMonth + 2) / 5 + 1
  let month := if marchMonth < 10 then marchMonth + 3 else marchMonth - 9
  let year := (yearOfEra : Int) + era * 400
  ⟨if month ≤ 2 then year + 1 else year, month, day⟩

/-- The number of a date's day, counted from 1970-01-01. -/
def toDays (date : Date) : Int :=
  let year := if date.month ≤ 2 then date.year - 1 else date.year
  let era := year / 400
  let yearOfEra := (year % 400).toNat
  let marchMonth := if date.month > 2 then date.month - 3 else date.month + 9
  let dayOfYear := (153 * marchMonth + 2) / 5 + (date.day - 1)
  let dayOfEra := yearOfEra * 365 + yearOfEra / 4 - yearOfEra / 100 + dayOfYear
  era * 146097 + (dayOfEra : Int) - 719468

def isLeap (year : Int) : Bool :=
  year % 4 = 0 && (year % 100 ≠ 0 || year % 400 = 0)

def monthLength (year : Int) (month : Nat) : Nat :=
  if month = 2 then (if isLeap year then 29 else 28)
  else if month = 4 ∨ month = 6 ∨ month = 9 ∨ month = 11 then 30
  else 31

/-- A date that the calendar has. -/
def make? (year : Int) (month day : Nat) : Option Date :=
  if 1 ≤ month ∧ month ≤ 12 ∧ 1 ≤ day ∧ day ≤ monthLength year month then some ⟨year, month, day⟩
  else none

end Date

/-- Decimal digits of a number, filled up with zeros to a width. -/
def padNat (width n : Nat) : String :=
  let text := toString n
  String.ofList (List.replicate (width - text.length) '0') ++ text

/-- Four digits for years up to 9999, a sign and more digits for others. -/
def yearText (year : Int) : String :=
  if 0 ≤ year ∧ year ≤ 9999 then padNat 4 year.toNat
  else (if year < 0 then "-" else "+") ++ padNat 4 year.natAbs

/-- A moment of UTC: whole seconds since 1970 and nanoseconds. A leap second is the second before it
with more than 10^9 nanoseconds. -/
structure Instant where
  seconds : Int
  nanos : Nat
deriving DecidableEq, Repr

namespace Instant

/-- The first second that a moment can have, in year -262143. -/
def firstSecond : Int := -8334601228800

/-- The last second that a moment can have, in year 262142. -/
def lastSecond : Int := 8210266876799

/-- The moment of a block's time; one beyond the calendar becomes the start of 1970. -/
def ofSeconds (seconds : Nat) : Instant :=
  if (seconds : Int) ≤ lastSecond then ⟨seconds, 0⟩ else ⟨0, 0⟩

/-- The moment of a count of seconds, if the calendar reaches it. -/
def ofSeconds? (seconds : Int) : Option Instant :=
  if firstSecond ≤ seconds ∧ seconds ≤ lastSecond then some ⟨seconds, 0⟩ else none

instance : Inhabited Instant := ⟨⟨0, 0⟩⟩

def date (t : Instant) : Date := Date.ofDays (t.seconds / 86400)

/-- Year and month of a moment, as `2020-09`. -/
def monthText (t : Instant) : String :=
  yearText t.date.year ++ "-" ++ padNat 2 t.date.month

def cutToMicros (t : Instant) : Instant := ⟨t.seconds, t.nanos / 1000 * 1000⟩

/-- A fraction of a second with three, six or nine digits, or none when it is zero. -/
def fractionText (nanos : Nat) : String :=
  if nanos = 0 then ""
  else if nanos % 1000000 = 0 then "." ++ padNat 3 (nanos / 1000000)
  else if nanos % 1000 = 0 then "." ++ padNat 6 (nanos / 1000)
  else "." ++ padNat 9 nanos

/-- RFC 3339 text in UTC. -/
def text (t : Instant) : String :=
  let date := t.date
  let ofDay := (t.seconds % 86400).toNat
  let leap := 1000000000 ≤ t.nanos
  let second := ofDay % 60 + (if leap then 1 else 0)
  let nanos := if leap then t.nanos - 1000000000 else t.nanos
  yearText date.year ++ "-" ++ padNat 2 date.month ++ "-" ++ padNat 2 date.day ++ "T" ++
    padNat 2 (ofDay / 3600) ++ ":" ++ padNat 2 (ofDay / 60 % 60) ++ ":" ++ padNat 2 second ++
    fractionText nanos ++ "Z"

/-- At most `limit` digits at the start of a text, at least one, and the rest. -/
def digitsUpTo (limit : Nat) (cs : List Char) : Option (Nat × List Char) := do
  let ds := (cs.take limit).takeWhile Char.isDigit
  return (← Numeral.digits? ds, cs.drop ds.length)

/-- A field of a date or time: blanks, then one or two digits. -/
def field (cs : List Char) : Option (Nat × List Char) := digitsUpTo 2 (dropBlanks cs)

/-- A year: four digits, or a sign and any number of them. -/
def readYear (cs : List Char) : Option (Int × List Char) :=
  match dropBlanks cs with
  | '-' :: rest => (digitsUpTo rest.length rest).map fun (n, rest) => (-(n : Int), rest)
  | '+' :: rest => (digitsUpTo rest.length rest).map fun (n, rest) => ((n : Int), rest)
  | rest => (digitsUpTo 4 rest).map fun (n, rest) => ((n : Int), rest)

/-- The rest after blanks and a given character. -/
def mark (c : Char) (cs : List Char) : Option (List Char) :=
  match dropBlanks cs with
  | d :: rest => if d = c then some rest else none
  | [] => none

/-- A fraction of a second in nanoseconds; digits after the ninth are passed over. -/
def readFraction (cs : List Char) : Option (Nat × List Char) :=
  match cs with
  | '.' :: rest => do
    let (n, after) ← digitsUpTo 9 rest
    return (n * Nat.pow 10 (9 - (rest.length - after.length)), after.dropWhile Char.isDigit)
  | _ => some (0, cs)

/-- The offset from UTC in seconds at the end of a text. -/
def readOffset (cs : List Char) : Option Int :=
  if cs.map Char.toUpper = ['U', 'T', 'C'] then some 0
  else match cs with
    | ['Z'] => some 0
    | ['z'] => some 0
    | sign :: a :: b :: rest => do
      let negative ← if sign = '+' then some false
        else if sign = '-' ∨ sign = '\u2212' then some true else none
      let hours ← Numeral.digits? [a, b]
      let minutes ← match rest.dropWhile (fun c => c == ':' || isBlank c) with
        | [c, d] => Numeral.digits? [c, d]
        | _ => none
      if minutes < 60 ∧ hours < 24 then
        some (if negative then -((hours * 3600 + minutes * 60 : Nat) : Int)
          else ((hours * 3600 + minutes * 60 : Nat) : Int))
      else none
    | _ => none

/-- A moment from RFC 3339 text with any offset. Blanks around the numbers, single digits and a blank
for the letter between date and time are allowed. -/
def read? (text : String) : Option Instant := do
  let (year, cs) ← readYear text.toList
  let (month, cs) ← field (← mark '-' cs)
  let (day, cs) ← field (← mark '-' cs)
  let date ← Date.make? year month day
  let cs ← match cs with
    | 'T' :: rest => some rest
    | 't' :: rest => some rest
    | ' ' :: rest => some rest
    | _ => none
  let (hour, cs) ← field cs
  let (minute, cs) ← field (← mark ':' cs)
  let (second, cs) ← field (← mark ':' cs)
  let (fraction, cs) ← readFraction cs
  let offset ← readOffset (dropBlanks cs)
  if hour < 24 ∧ minute < 60 ∧ second ≤ 60 then
    let leap := second = 60
    let ofDay := hour * 3600 + minute * 60 + (if leap then 59 else second)
    let moment ← ofSeconds? (date.toDays * 86400 + (ofDay : Int) - offset)
    return { moment with nanos := fraction + (if leap then 1000000000 else 0) }
  else none

end Instant
end StakeIndex
