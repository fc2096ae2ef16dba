/-!
# `PipelineManifest.Calendar`: dates and times

Dates of the proleptic Gregorian calendar from the year 1 to the year 9999, and times of day
with microseconds and an optional offset from universal time.

* `Date`, `Date.ofParts?`: a date, and a date from its parts where they name one.
* `DateTime`, `DateTime.ofParts?`: a date with a time of day and an offset.
* `Date.text`, `DateTime.text`: the ISO form.
* `DateTime.compare?`: times are comparable when both have an offset or neither has one.
-/

set_option autoImplicit false

namespace PipelineManifest

/-- A date. -/
structure Date where
  year : Nat
  month : Nat
  day : Nat
  deriving DecidableEq, Repr, Inhabited

/-- A date with a time of day; `offset` is the distance from universal time in seconds. -/
structure DateTime where
  date : Date
  hour : Nat
  minute : Nat
  second : Nat
  microsecond : Nat
  offset : Option Int
  deriving DecidableEq, Repr, Inhabited

/-- A number in at least `width` decimal digits. -/
def padded (width n : Nat) : String :=
  let ds := Nat.toDigits 10 n
  String.ofList (List.replicate (width - ds.length) '0' ++ ds)

namespace Date

/-- Every fourth year, but of the full centuries every fourth. -/
def isLeap (year : Nat) : Bool :=
  year % 4 = 0 && (year % 100 ≠ 0 || year % 400 = 0)

/-- How many days a month has. -/
def daysIn (year month : Nat) : Nat :=
  if month = 2 then if isLeap year then 29 else 28
  else if month = 4 || month = 6 || month = 9 || month = 11 then 30
  else 31

/-- A date that exists. -/
def Valid (d : Date) : Prop :=
  1 ≤ d.year ∧ d.year ≤ 9999 ∧ 1 ≤ d.month ∧ d.month ≤ 12 ∧
    1 ≤ d.day ∧ d.day ≤ daysIn d.year d.month

instance (d : Date) : Decidable d.Valid := by unfold Valid; infer_instance

/-- The date with these parts, if there is one. -/
def ofParts? (year month day : Nat) : Option Date :=
  if (⟨year, month, day⟩ : Date).Valid then some ⟨year, month, day⟩ else none

theorem valid_of_ofParts? {year month day : Nat} {d : Date}
    (h : ofParts? year month day = some d) : d.Valid := by
  unfold ofParts? at h
  split at h
  · cases h; assumption
  · cases h

/-- Days since the last day before the year 1. -/
def ordinal (d : Date) : Nat :=
  let past := d.year - 1
  let months := (List.range (d.month - 1)).foldl (fun n m => n + daysIn d.year (m + 1)) 0
  past * 365 + past / 4 - past / 100 + past / 400 + months + d.day

/-- The ISO form. -/
def text (d : Date) : String :=
  padded 4 d.year ++ "-" ++ padded 2 d.month ++ "-" ++ padded 2 d.day

end Date

/-- The largest offset from universal time in seconds, which stays below one day. -/
def maxOffset : Int := 86399

/-- An offset in the form `+05:30`, with seconds where it has any. -/
def offsetText (offset : Int) : String :=
  let n := offset.natAbs
  let seconds := if n % 60 = 0 then "" else ":" ++ padded 2 (n % 60)
  (if offset < 0 then "-" else "+") ++ padded 2 (n / 3600) ++ ":" ++ padded 2 (n / 60 % 60)
    ++ seconds

namespace DateTime

/-- The time with these parts, if there is one. -/
def ofParts? (date : Date) (hour minute second microsecond : Nat) (offset : Option Int) :
    Option DateTime :=
  if hour < 24 && minute < 60 && second < 60 && microsecond < 1000000
      && offset.all (fun o => decide (o.natAbs ≤ maxOffset.natAbs)) then
    some ⟨date, hour, minute, second, microsecond, offset⟩
  else none

/-- The ISO form, with `separator` between date and time. -/
def text (separator : String) (t : DateTime) : String :=
  let fraction := if t.microsecond = 0 then "" else "." ++ padded 6 t.microsecond
  t.date.text ++ separator ++ padded 2 t.hour ++ ":" ++ padded 2 t.minute ++ ":"
    ++ padded 2 t.second ++ fraction ++ (t.offset.map offsetText).getD ""

/-- Microseconds since the start of the calendar, in the time's own clock or, with an offset,
in universal time. -/
def instant (t : DateTime) : Int :=
  let seconds : Int := t.date.ordinal * 86400 + t.hour * 3600 + t.minute * 60 + t.second
  (seconds - t.offset.getD 0) * 1000000 + t.microsecond

/-- The order of two times; a time with an offset and one without are not comparable. -/
def compare? (s t : DateTime) : Option Ordering :=
  if s.offset.isSome = t.offset.isSome then some (compare s.instant t.instant) else none

/-- Whether two times are the same instant. -/
def sameInstant (s t : DateTime) : Bool := s.compare? t = some .eq

end DateTime

end PipelineManifest
