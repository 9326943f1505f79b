import VersionRange.Numeral

/-!
# Dates and moments

Documents may hold calendar dates and moments of time.  They are checked when they
are read, shown in messages, and put in order where they are keys.
-/

namespace VersionRange

structure Date where
  year : Nat
  month : Nat
  day : Nat
  deriving DecidableEq, Repr

/-- A date with a time of day; `zone` is the distance from universal time in
minutes, where one is known. -/
structure Moment where
  date : Date
  hour : Nat
  minute : Nat
  second : Nat
  microsecond : Nat
  zone : Option Int
  deriving DecidableEq, Repr

/-- What is wrong with a date or a time of day. -/
inductive CalendarFault
  | year (value : Nat)
  | month
  | day
  | hour
  | minute
  | second
  | zone (minutes : Int)
  deriving DecidableEq, Repr

namespace Calendar

/-- The text of a decimal number. -/
def number (n : Nat) : String :=
  String.ofList (numeralChars n)

/-- The text of a decimal number with zeros in front up to `width` digits. -/
def padded (width n : Nat) : String :=
  let digits := numeralChars n
  String.ofList (List.replicate (width - digits.length) '0' ++ digits)

def isLeap (year : Nat) : Bool :=
  year % 4 == 0 && (year % 100 != 0 || year % 400 == 0)

def daysIn (year month : Nat) : Nat :=
  if month = 2 then (if isLeap year then 29 else 28)
  else if month = 4 || month = 6 || month = 9 || month = 11 then 30
  else 31

/-- A span of minutes, as whole days (rounded down) and the seconds left over. -/
def spanText (minutes : Int) : String :=
  let days := Int.fdiv minutes 1440
  let seconds := (minutes - days * 1440).natAbs * 60
  let daysText :=
    if days = 0 then []
    else ["days=" ++ (if days < 0 then "-" else "") ++ number days.natAbs]
  let secondsText := if seconds = 0 then [] else ["seconds=" ++ number seconds]
  let parts := daysText ++ secondsText
  "datetime.timedelta(" ++ (if parts.isEmpty then "0" else ", ".intercalate parts) ++ ")"

end Calendar

open Calendar

def CalendarFault.message : CalendarFault → String
  | .year value => "year " ++ number value ++ " is out of range"
  | .month => "month must be in 1..12"
  | .day => "day is out of range for month"
  | .hour => "hour must be in 0..23"
  | .minute => "minute must be in 0..59"
  | .second => "second must be in 0..59"
  | .zone minutes =>
    "offset must be a timedelta strictly between -timedelta(hours=24) and " ++
      "timedelta(hours=24), not " ++ spanText minutes ++ "."

/-- The first thing wrong with a date, looked at from the year down. -/
def Date.fault? (d : Date) : Option CalendarFault :=
  if d.year = 0 || 9999 < d.year then some (.year d.year)
  else if d.month = 0 || 12 < d.month then some .month
  else if d.day = 0 || daysIn d.year d.month < d.day then some .day
  else none

/-- The first thing wrong with a moment: its zone, its date, its time of day. -/
def Moment.fault? (m : Moment) : Option CalendarFault :=
  match m.zone with
  | some minutes => if 1440 ≤ minutes.natAbs then some (.zone minutes) else timed
  | none => timed
where
  timed : Option CalendarFault :=
    m.date.fault?.or
      (if 23 < m.hour then some .hour
       else if 59 < m.minute then some .minute
       else if 59 < m.second then some .second
       else none)

/-- The number of days before the first of a month in its year. -/
def Calendar.daysBefore (year month : Nat) : Nat :=
  (List.range (month - 1)).foldl (fun days earlier => days + daysIn year (earlier + 1)) 0

/-- The number of a date when days are counted from the first of the year 1. -/
def Date.dayNumber (d : Date) : Nat :=
  let years := d.year - 1
  365 * years + years / 4 - years / 100 + years / 400 + daysBefore d.year d.month + d.day

example : (Date.mk 1970 1 1).dayNumber = 719163 := by decide +kernel

example : (Date.mk 2000 3 1).dayNumber = (Date.mk 2000 2 28).dayNumber + 2 := by
  decide +kernel

/-- Microseconds of universal time, or by the clock on the wall where the zone is not
known. -/
def Moment.clock (m : Moment) : Int :=
  let minutes : Int := ((m.date.dayNumber * 24 + m.hour) * 60 + m.minute : Nat)
  ((minutes - m.zone.getD 0) * 60 + m.second) * 1000000 + m.microsecond

/-- Whether two moments can be put in order: both zones are known, or neither. -/
def Moment.comparable (m n : Moment) : Bool :=
  m.zone.isSome == n.zone.isSome

/-- Whether two moments are the same, in whatever zones they are told. -/
def Moment.sameInstant (m n : Moment) : Bool :=
  m.comparable n && m.clock == n.clock

/-- How a date is shown inside a message. -/
def Date.literal (d : Date) : String :=
  "datetime.date(" ++ ", ".intercalate [number d.year, number d.month, number d.day] ++ ")"

/-- How a date is shown on its own. -/
def Date.text (d : Date) : String :=
  "-".intercalate [padded 4 d.year, padded 2 d.month, padded 2 d.day]

/-- How a moment is shown inside a message: seconds and microseconds are left out
when they and all that follows them are zero. -/
def Moment.literal (m : Moment) : String :=
  let fields :=
    [m.date.year, m.date.month, m.date.day, m.hour, m.minute] ++
      (if m.second = 0 && m.microsecond = 0 then [] else [m.second]) ++
      (if m.microsecond = 0 then [] else [m.microsecond])
  let zone :=
    match m.zone with
    | none => []
    | some minutes =>
      if minutes = 0 then ["tzinfo=datetime.timezone.utc"]
      else ["tzinfo=datetime.timezone(" ++ spanText minutes ++ ")"]
  "datetime.datetime(" ++ ", ".intercalate (fields.map number ++ zone) ++ ")"

/-- How a moment is shown on its own. -/
def Moment.text (m : Moment) : String :=
  let fraction := if m.microsecond = 0 then "" else "." ++ padded 6 m.microsecond
  let zone :=
    match m.zone with
    | none => ""
    | some minutes =>
      (if minutes < 0 then "-" else "+") ++ padded 2 (minutes.natAbs / 60) ++ ":" ++
        padded 2 (minutes.natAbs % 60)
  m.date.text ++ " " ++ ":".intercalate [padded 2 m.hour, padded 2 m.minute, padded 2 m.second] ++
    fraction ++ zone

end VersionRange
