-- Dates and times of day, with the two texts that show them: the plain one, and the one that stands
-- inside a list or a table.

namespace GraphqlArtifacts

structure CalendarDate where
  year : Nat
  month : Nat
  day : Nat
  deriving DecidableEq, Repr

structure ClockTime where
  hour : Nat
  minute : Nat
  second : Nat
  microsecond : Nat
  deriving DecidableEq, Repr

-- The offset of a moment from universal time is counted in minutes.
inductive Moment
  | date (d : CalendarDate)
  | time (t : ClockTime)
  | dateTime (d : CalendarDate) (t : ClockTime) (offset : Option Int)
  deriving DecidableEq, Repr

def padded (width n : Nat) : String :=
  let s := toString n
  "".pushn '0' (width - s.length) ++ s

namespace CalendarDate

def isLeapYear (year : Nat) : Bool :=
  year % 4 == 0 && (year % 100 != 0 || year % 400 == 0)

def daysInMonth (year month : Nat) : Nat :=
  if month = 2 then (if isLeapYear year then 29 else 28)
  else if month ∈ [4, 6, 9, 11] then 30
  else 31

def isValid (d : CalendarDate) : Bool :=
  1 ≤ d.year && d.year ≤ 9999 && 1 ≤ d.month && d.month ≤ 12 &&
    1 ≤ d.day && d.day ≤ daysInMonth d.year d.month

-- The days from the start of the calendar up to a date.
def dayNumber (d : CalendarDate) : Nat :=
  let years := d.year - 1
  let months := (List.range (d.month - 1)).map fun m => daysInMonth d.year (m + 1)
  365 * years + years / 4 - years / 100 + years / 400 + months.foldl (· + ·) d.day

def text (d : CalendarDate) : String :=
  padded 4 d.year ++ "-" ++ padded 2 d.month ++ "-" ++ padded 2 d.day

def arguments (d : CalendarDate) : List String :=
  [toString d.year, toString d.month, toString d.day]

end CalendarDate

namespace ClockTime

def isValid (t : ClockTime) : Bool :=
  t.hour < 24 && t.minute < 60 && t.second < 60

def sinceMidnight (t : ClockTime) : Nat :=
  ((t.hour * 60 + t.minute) * 60 + t.second) * 1000000 + t.microsecond

def text (t : ClockTime) : String :=
  padded 2 t.hour ++ ":" ++ padded 2 t.minute ++ ":" ++ padded 2 t.second ++
    (if t.microsecond = 0 then "" else "." ++ padded 6 t.microsecond)

-- Trailing seconds and microseconds are left out when they are zero.
def arguments (t : ClockTime) : List String :=
  [toString t.hour, toString t.minute] ++
    (if t.second = 0 ∧ t.microsecond = 0 then [] else [toString t.second]) ++
    (if t.microsecond = 0 then [] else [toString t.microsecond])

end ClockTime

namespace Moment

def offsetText (minutes : Int) : String :=
  (if minutes < 0 then "-" else "+") ++ padded 2 (minutes.natAbs / 60) ++ ":" ++
    padded 2 (minutes.natAbs % 60)

def zoneCall (minutes : Int) : String :=
  if minutes = 0 then
    "datetime.timezone.utc"
  else if minutes < 0 then
    s!"datetime.timezone(datetime.timedelta(days=-1, seconds={86400 + minutes * 60}))"
  else
    s!"datetime.timezone(datetime.timedelta(seconds={minutes * 60}))"

def text : Moment → String
  | .date d => d.text
  | .time t => t.text
  | .dateTime d t offset => d.text ++ " " ++ t.text ++ (offset.map offsetText).getD ""

def kindName : Moment → String
  | .date _ => "datetime.date"
  | .time _ => "datetime.time"
  | .dateTime .. => "datetime.datetime"

-- The text inside a list or a table: the parts of the moment as arguments of its kind.
def callText (m : Moment) : String :=
  let arguments := match m with
    | .date d => d.arguments
    | .time t => t.arguments
    | .dateTime d t offset =>
      d.arguments ++ t.arguments ++ (offset.map fun o => "tzinfo=" ++ zoneCall o).toList
  m.kindName ++ "(" ++ ", ".intercalate arguments ++ ")"

-- The microseconds from the start of the calendar, in universal time.
def instant (d : CalendarDate) (t : ClockTime) (offset : Int) : Int :=
  ((d.dayNumber : Int) * 1440 - offset) * 60000000 + t.sinceMidnight

-- Equality of moments. Two with offsets are equal when they are the same instant.
def same : Moment → Moment → Bool
  | .dateTime d t (some o), .dateTime d' t' (some o') => instant d t o == instant d' t' o'
  | m, m' => m == m'

end Moment

end GraphqlArtifacts
