/-!
# Date and time

A timestamp is a calendar date and a time of day with an offset from universal time:
`2006-01-02T15:04:05Z`, where the seconds may have a fraction and the offset may be given as
a sign, hours and minutes. The shape is read first; whether the date exists and the clock
shows that time is a question about the numbers read. Midnight may be written as hour
twenty-four of the day that ends, unless no day follows it.
-/

namespace SampleSchema.Format

/-- The numbers of a timestamp. The fraction is kept as digits, and the sign of the offset is
of no account. -/
structure Timestamp where
  year : Nat
  month : Nat
  day : Nat
  hour : Nat
  minute : Nat
  second : Nat
  fraction : List Nat
  offsetHour : Nat
  offsetMinute : Nat
deriving DecidableEq

namespace Timestamp

/-! ## Shape -/

/-- The value of a digit of ASCII. -/
def digit? (c : Char) : Option Nat :=
  if c.isDigit then some (c.toNat - '0'.toNat) else none

/-- The number of two digits. -/
def pair? (a b : Char) : Option Nat := do
  return 10 * (← digit? a) + (← digit? b)

/-- The digits of a fraction behind its point, and what follows them: at least one digit
must be there. Without a point there is no fraction. -/
def fraction? : List Char → Option (List Nat × List Char)
  | '.' :: rest =>
    match rest.takeWhile Char.isDigit with
    | [] => none
    | digits => some (digits.filterMap digit?, rest.dropWhile Char.isDigit)
  | cs => some ([], cs)

/-- The offset that makes up the rest of the text. -/
def offset? : List Char → Option (Nat × Nat)
  | ['Z'] => some (0, 0)
  | [sign, a, b, ':', c, d] =>
    if sign = '+' ∨ sign = '-' then do
      return (← pair? a b, ← pair? c d)
    else none
  | _ => none

/-- The numbers of a text that has the shape of a timestamp. -/
def ofChars? : List Char → Option Timestamp
  | y₁ :: y₂ :: y₃ :: y₄ :: '-' :: m₁ :: m₂ :: '-' :: d₁ :: d₂ :: 'T' ::
      h₁ :: h₂ :: ':' :: n₁ :: n₂ :: ':' :: s₁ :: s₂ :: rest => do
    let century ← pair? y₁ y₂
    let yearOfCentury ← pair? y₃ y₄
    let month ← pair? m₁ m₂
    let day ← pair? d₁ d₂
    let hour ← pair? h₁ h₂
    let minute ← pair? n₁ n₂
    let second ← pair? s₁ s₂
    let (fraction, rest) ← fraction? rest
    let (offsetHour, offsetMinute) ← offset? rest
    return ⟨100 * century + yearOfCentury, month, day, hour, minute, second, fraction,
      offsetHour, offsetMinute⟩
  | _ => none

/-! ## Calendar and clock -/

/-- Whether a year of the Gregorian calendar has a leap day. -/
def isLeapYear (year : Nat) : Bool :=
  year % 4 == 0 && (year % 100 != 0 || year % 400 == 0)

/-- The number of days of a month. -/
def daysInMonth (year month : Nat) : Nat :=
  if month = 2 then (if isLeapYear year then 29 else 28)
  else if month = 4 ∨ month = 6 ∨ month = 9 ∨ month = 11 then 30
  else 31

/-- Whether the calendar, which ends with the year 9999, has the date. -/
def isCalendarDate (t : Timestamp) : Bool :=
  1 ≤ t.year && t.year ≤ 9999 && 1 ≤ t.month && t.month ≤ 12 && 1 ≤ t.day &&
    t.day ≤ daysInMonth t.year t.month

/-- Whether the time is the end of the day: hour twenty-four sharp, as far as microseconds
tell. -/
def isEndOfDay (t : Timestamp) : Bool :=
  t.hour == 24 && t.minute == 0 && t.second == 0 && (t.fraction.take 6).all (· == 0)

/-- Whether the date is the last one of the calendar. -/
def isLastDate (t : Timestamp) : Bool :=
  t.year == 9999 && t.month == 12 && t.day == 31

/-- Whether a clock shows the time on that day. -/
def isClockTime (t : Timestamp) : Bool :=
  t.minute ≤ 59 && t.second ≤ 59 && (t.hour ≤ 23 || (t.isEndOfDay && !t.isLastDate))

/-- Whether the offset is less than a day. -/
def isOffset (t : Timestamp) : Bool :=
  t.offsetHour ≤ 23 && t.offsetMinute ≤ 59

end Timestamp

/-- Whether the text is a timestamp of an existing date and time. -/
def isDateTime (s : String) : Bool :=
  match Timestamp.ofChars? s.toList with
  | some t => t.isCalendarDate && t.isClockTime && t.isOffset
  | none => false

end SampleSchema.Format
