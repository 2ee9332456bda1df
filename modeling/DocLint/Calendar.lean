/-!
# Dates and times of day

Calendar dates of the years 1 to 9999, and dates with a time of day that may carry a distance from
universal time in minutes. A value is built by `Date.of?` and `DateTime.of?`, which refuse fields out
of range.
-/
namespace DocLint

/-- A calendar date. -/
structure Date where
  year : Nat
  month : Nat
  day : Nat
  deriving DecidableEq, Inhabited

/-- A date with a time of day; `offset` is the distance from universal time in minutes, when it is
known. -/
structure DateTime where
  date : Date
  hour : Nat
  minute : Nat
  second : Nat
  microsecond : Nat
  offset : Option Int
  deriving DecidableEq, Inhabited

/-- The field of a date or time that is out of range. -/
inductive CalendarError where
  | year (value : Nat)
  | month
  | day
  | hour
  | minute
  | second
  | offset (minutes : Int)
  deriving DecidableEq

namespace Calendar

/-- The decimal digits of a number, with zeros in front up to a width. -/
def padded (width n : Nat) : String :=
  let digits := Nat.toDigits 10 n
  String.ofList (List.replicate (width - digits.length) '0' ++ digits)

/-- A span of minutes as whole days, down to negative ones, and the seconds left over. -/
def daysAndSeconds (minutes : Int) : Int × Int :=
  (minutes.fdiv 1440, minutes.fmod 1440 * 60)

/-- The text of a span of minutes as a duration. -/
def durationText (minutes : Int) : String :=
  let (days, seconds) := daysAndSeconds minutes
  let parts := (if days = 0 then [] else [s!"days={days}"]) ++
    (if seconds = 0 then [] else [s!"seconds={seconds}"])
  let body := if parts.isEmpty then "0" else ", ".intercalate parts
  s!"datetime.timedelta({body})"

end Calendar

/-- What is wrong with a date or time. -/
def CalendarError.message : CalendarError → String
  | .year value => s!"year {value} is out of range"
  | .month => "month must be in 1..12"
  | .day => "day is out of range for month"
  | .hour => "hour must be in 0..23"
  | .minute => "minute must be in 0..59"
  | .second => "second must be in 0..59"
  | .offset minutes =>
    "offset must be a timedelta strictly between -timedelta(hours=24) and timedelta(hours=24), not " ++
      Calendar.durationText minutes ++ "."

namespace Date

/-- A year with a day more. -/
def isLeap (year : Nat) : Bool :=
  year % 4 == 0 && (year % 100 != 0 || year % 400 == 0)

/-- The number of days of a month. -/
def daysIn (year month : Nat) : Nat :=
  if month = 2 then (if isLeap year then 29 else 28)
  else if month = 4 || month = 6 || month = 9 || month = 11 then 30
  else 31

/-- The date with the given fields, the first one out of range being reported. -/
def of? (year month day : Nat) : Except CalendarError Date :=
  if year = 0 || 9999 < year then .error (.year year)
  else if month = 0 || 12 < month then .error .month
  else if day = 0 || daysIn year month < day then .error .day
  else .ok ⟨year, month, day⟩

/-- The number of days up to a date, the first day of year 1 counting as 1. -/
def ordinal (d : Date) : Nat :=
  let y := d.year - 1
  let months := ((List.range (d.month - 1)).map fun m => daysIn d.year (m + 1)).foldr (· + ·) 0
  y * 365 + y / 4 - y / 100 + y / 400 + months + d.day

/-- The date as year, month and day with dashes. -/
def text (d : Date) : String :=
  Calendar.padded 4 d.year ++ "-" ++ Calendar.padded 2 d.month ++ "-" ++ Calendar.padded 2 d.day

/-- The date as a constructor call, which is how a container shows it. -/
def literal (d : Date) : String :=
  s!"datetime.date({d.year}, {d.month}, {d.day})"

/-- The order of dates. -/
def before (a b : Date) : Bool :=
  a.ordinal < b.ordinal

end Date

namespace DateTime

/-- The time with the given fields on a date. -/
def of? (date : Date) (hour minute second microsecond : Nat) (offset : Option Int) :
    Except CalendarError DateTime :=
  if 23 < hour then .error .hour
  else if 59 < minute then .error .minute
  else if 59 < second then .error .second
  else .ok ⟨date, hour, minute, second, microsecond, offset⟩

/-- A distance from universal time is less than a day. -/
def checkOffset (minutes : Int) : Except CalendarError Int :=
  if minutes.natAbs < 1440 then .ok minutes else .error (.offset minutes)

/-- Microseconds from a fixed instant, in local time less the offset. -/
def instant (t : DateTime) : Int :=
  let minutes : Int := (t.date.ordinal * 24 + t.hour) * 60 + t.minute
  ((minutes - t.offset.getD 0) * 60 + t.second) * 1000000 + t.microsecond

/-- Two times are the same when both have an offset or neither has, and they name one instant. -/
def same (a b : DateTime) : Bool :=
  a.offset.isSome == b.offset.isSome && a.instant == b.instant

/-- The order of two times that both have an offset or both have none. -/
def before? (a b : DateTime) : Option Bool :=
  if a.offset.isSome == b.offset.isSome then some (a.instant < b.instant) else none

/-- The offset as a sign, hours and minutes. -/
def offsetText (minutes : Int) : String :=
  (if minutes < 0 then "-" else "+") ++ Calendar.padded 2 (minutes.natAbs / 60) ++ ":" ++
    Calendar.padded 2 (minutes.natAbs % 60)

/-- The date and the time with a separator between them. -/
def textWith (separator : String) (t : DateTime) : String :=
  t.date.text ++ separator ++ Calendar.padded 2 t.hour ++ ":" ++ Calendar.padded 2 t.minute ++ ":" ++
    Calendar.padded 2 t.second ++
    (if t.microsecond = 0 then "" else "." ++ Calendar.padded 6 t.microsecond) ++
    (t.offset.map offsetText).getD ""

/-- The text of a time. -/
def text (t : DateTime) : String :=
  t.textWith " "

/-- The text of a time as an interchange format. -/
def isoText (t : DateTime) : String :=
  t.textWith "T"

/-- The time as a constructor call, which is how a container shows it. -/
def literal (t : DateTime) : String :=
  let fields := [t.date.year, t.date.month, t.date.day, t.hour, t.minute] ++
    (if t.second = 0 && t.microsecond = 0 then [] else [t.second]) ++
    (if t.microsecond = 0 then [] else [t.microsecond])
  let zone := match t.offset with
    | none => []
    | some 0 => ["tzinfo=datetime.timezone.utc"]
    | some minutes => [s!"tzinfo=datetime.timezone({Calendar.durationText minutes})"]
  let arguments := ", ".intercalate (fields.map toString ++ zone)
  s!"datetime.datetime({arguments})"

end DateTime
end DocLint
