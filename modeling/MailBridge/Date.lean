import MailBridge.Text.Decimal

/-! # Dates of messages

A date is kept as it is written: day, time of day and distance from universal time. Two dates
mean the same if they name the same instant, whatever their distances. A sixtieth second, which
a minute may have, is an instant of its own.
-/

namespace MailBridge

/-- A day of the calendar with a time of day and its distance from universal time. -/
structure Date where
  year : Nat
  month : Nat
  day : Nat
  hour : Nat
  minute : Nat
  second : Nat
  nanosecond : Nat
  /-- Minutes ahead of universal time. -/
  offset : Int
deriving DecidableEq

namespace Date

def epoch : Date := ⟨1970, 1, 1, 0, 0, 0, 0, 0⟩

instance : Inhabited Date := ⟨epoch⟩

def isLeapYear (year : Nat) : Bool :=
  year % 4 = 0 && (year % 100 ≠ 0 || year % 400 = 0)

/-- The number of days of a month; no days for a month that does not exist. -/
def daysInMonth (year month : Nat) : Nat :=
  match month with
  | 2 => if isLeapYear year then 29 else 28
  | 4 | 6 | 9 | 11 => 30
  | 1 | 3 | 5 | 7 | 8 | 10 | 12 => 31
  | _ => 0

/-- The number of days before the first of January, counted from the year zero. -/
def daysBeforeYear (year : Nat) : Nat :=
  365 * year + (year + 3) / 4 - (year + 99) / 100 + (year + 399) / 400

/-- The number of days of the months before the given one. -/
def daysBeforeMonth (year month : Nat) : Nat :=
  ((List.range month).map (daysInMonth year)).foldl (· + ·) 0

/-- Whether day, time of day and distance exist. -/
def isValid (d : Date) : Bool :=
  1 ≤ d.day && d.day ≤ daysInMonth d.year d.month && d.hour ≤ 23 && d.minute ≤ 59 &&
    d.second ≤ 60 && d.nanosecond < 1000000000 && d.offset.natAbs ≤ 1439

/-- The seconds in universal time since the year zero, not counting sixtieth seconds. -/
def seconds (d : Date) : Int :=
  let days := daysBeforeYear d.year + daysBeforeMonth d.year d.month + (d.day - 1)
  (((days * 24 + d.hour) * 60 + d.minute : Nat) - d.offset) * 60 + (min d.second 59 : Nat)

/-- The nanoseconds since the beginning of the second, where a sixtieth second goes on counting
in the fifty-ninth. -/
def subseconds (d : Date) : Nat :=
  if d.second = 60 then 1000000000 + d.nanosecond else d.nanosecond

/-- Whether two dates name the same instant. -/
def sameInstant (a b : Date) : Bool :=
  a.seconds == b.seconds && a.subseconds == b.subseconds

/-- The fraction of a second: none, or the first of three, six or nine places that is exact. -/
def fractionText (nanosecond : Nat) : String :=
  if nanosecond = 0 then ""
  else if nanosecond % 1000000 = 0 then s!".{Text.padded 3 (nanosecond / 1000000)}"
  else if nanosecond % 1000 = 0 then s!".{Text.padded 6 (nanosecond / 1000)}"
  else s!".{Text.padded 9 nanosecond}"

/-- The distance from universal time: a sign, hours and minutes. -/
def offsetText (offset : Int) : String :=
  let sign := if offset < 0 then "-" else "+"
  s!"{sign}{Text.padded 2 (offset.natAbs / 60)}:{Text.padded 2 (offset.natAbs % 60)}"

/-- The written form of RFC 3339. -/
def text (d : Date) : String :=
  s!"{Text.padded 4 d.year}-{Text.padded 2 d.month}-{Text.padded 2 d.day}" ++
    s!"T{Text.padded 2 d.hour}:{Text.padded 2 d.minute}:{Text.padded 2 d.second}" ++
    fractionText d.nanosecond ++ offsetText d.offset

end Date

end MailBridge
