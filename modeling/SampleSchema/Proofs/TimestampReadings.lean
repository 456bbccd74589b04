import Mathlib
import SampleSchema.Proofs.Timestamps
import SampleSchema.Text.Digit
import SampleSchema.Text.Split
/-!
# Timestamps as what two readers agree on

`isDateTime` does at once what two looser readers do together. The one asks for the shape: digits
and marks in their places. To it digits of all scripts are digits, no date is missing from the
calendar, and a line feed may follow (`hasTimestampShape`). The other reads dates and times in the
forms of ISO 8601, by months, by weeks or by days of the year, with and without marks, and asks the
calendar and the clock (`Iso.accepts`). It takes ASCII only, and nothing behind the offset.

`isDateTime_eq_and` says that a text is a timestamp exactly if both take it.
-/

namespace SampleSchema.Format

/-! ## The shape -/

/-- Whether the character is a decimal digit of some script. -/
def isDecimal (c : Char) : Bool := (Text.decimalValue? c).isSome

def isOffsetShape : List Char → Bool
  | ['Z'] => true
  | [sign, a, b, ':', c, d] => (sign == '+' || sign == '-') && [a, b, c, d].all isDecimal
  | _ => false

/-- What follows a fraction of at least one digit. Without a point there is no fraction. -/
def afterFraction? : List Char → Option (List Char)
  | '.' :: rest =>
    if (rest.takeWhile isDecimal).isEmpty then none else some (rest.dropWhile isDecimal)
  | cs => some cs

def isTimestampShape : List Char → Bool
  | y₁ :: y₂ :: y₃ :: y₄ :: '-' :: m₁ :: m₂ :: '-' :: d₁ :: d₂ :: 'T' ::
      h₁ :: h₂ :: ':' :: n₁ :: n₂ :: ':' :: s₁ :: s₂ :: rest =>
    [y₁, y₂, y₃, y₄, m₁, m₂, d₁, d₂, h₁, h₂, n₁, n₂, s₁, s₂].all isDecimal &&
      (afterFraction? rest).any isOffsetShape
  | _ => false

/-- Whether a text has the shape of a timestamp, at its end or before a line feed that ends it. -/
def hasTimestampShape (s : String) : Bool :=
  20 ≤ s.length && isTimestampShape (Text.dropFinalLineFeed s.toList)

theorem decimalValue?_of_isDigit {c : Char} (h : c.isDigit = true) :
    Text.decimalValue? c = some (c.toNat - 48) := by
  obtain ⟨hlow, hhigh⟩ := Text.isDigit_iff_bounds.mp h
  have hfirst : (Text.decimalZeros.find? fun first => first ≤ c.toNat && c.toNat < first + 10) =
      some 48 := by
    refine List.find?_cons_of_pos ?_
    simp only [Bool.and_eq_true, decide_eq_true_eq]
    omega
  rw [Text.decimalValue?, hfirst]
  rfl

theorem isDecimal_of_isDigit {c : Char} (h : c.isDigit = true) : isDecimal c = true := by
  rw [isDecimal, decimalValue?_of_isDigit h]
  rfl

/-- In ASCII there are no decimal digits but the ten. -/
theorem isDecimal_eq_isDigit {c : Char} (hascii : c.toNat < 128) : isDecimal c = c.isDigit := by
  have hzeros : ∀ first ∈ Text.decimalZeros, first = 0x30 ∨ 128 ≤ first := by decide
  rw [Bool.eq_iff_iff]
  refine ⟨fun h => ?_, isDecimal_of_isDigit⟩
  rw [isDecimal, Text.decimalValue?, Option.isSome_map, List.find?_isSome] at h
  obtain ⟨first, hfirst, hrange⟩ := h
  simp only [Bool.and_eq_true, decide_eq_true_eq] at hrange
  refine Text.isDigit_iff_bounds.mpr ?_
  rcases hzeros first hfirst with rfl | hbeyond
  · omega
  · omega

/-! ## Dates and times of ISO 8601 -/

namespace Iso

/-- The integer that some octets spell. As elsewhere there may be white space around it, a sign,
and underscores between digits; the separators of records are no white space among octets. -/
def number? (cs : List Char) : Option Int :=
  if cs.any fun c => 0x1c ≤ c.toNat && c.toNat ≤ 0x1f then none else Text.integer? cs

/-- A date by its month, or by its number in the calendar, which begins with number one. -/
inductive Date where
  | ofMonth (year month day : Int)
  | ofCount (number : Int)

/-- The last day of the year 9999. -/
def lastNumber : Int := 3652059

def Date.isValid : Date → Bool
  | ofMonth year month day =>
    1 ≤ year && year ≤ 9999 && 1 ≤ month && month ≤ 12 && 1 ≤ day &&
      day ≤ Timestamp.daysInMonth year.toNat month.toNat
  | ofCount number => 1 ≤ number && number ≤ lastNumber

def Date.isLast : Date → Bool
  | ofMonth year month day => year == 9999 && month == 12 && day == 31
  | ofCount number => number == lastNumber

/-- The number of days before a year. -/
def daysBefore (year : Int) : Int :=
  let passed := year - 1
  365 * passed + passed / 4 - passed / 100 + passed / 400

def isYear (year : Int) : Bool := 1 ≤ year && year ≤ 9999

/-- A date by its week. Weeks begin on Mondays, and the first one has the fourth of January. -/
def Date.ofWeek? (year week day : Int) : Option Date :=
  if isYear year && 1 ≤ week && week ≤ 53 && 1 ≤ day && day ≤ 7 then
    let fourth := daysBefore year + 4
    let monday := fourth - (fourth + 6) % 7
    some (.ofCount (monday + 7 * (week - 1) + (day - 1)))
  else none

/-- A date by its day of the year. -/
def Date.ofDay? (year day : Int) : Option Date :=
  let length := if Timestamp.isLeapYear year.toNat then 366 else 365
  if isYear year && 1 ≤ day && day ≤ length then some (.ofCount (daysBefore year + day)) else none

/-- A date by months, and what follows it. The day may be missing, and the month with it; with the
month alone there has to be a hyphen. -/
def monthDate? : List Char → Option (Date × List Char)
  | y₁ :: y₂ :: y₃ :: y₄ :: rest => do
    let year ← number? [y₁, y₂, y₃, y₄]
    match rest with
    | [] => return (.ofMonth year 1 1, [])
    | '-' :: m₁ :: m₂ :: rest =>
      let month ← number? [m₁, m₂]
      match rest with
      | [] => return (.ofMonth year month 1, [])
      | '-' :: d₁ :: d₂ :: rest => return (.ofMonth year month (← number? [d₁, d₂]), rest)
      | _ => none
    | m₁ :: m₂ :: d₁ :: d₂ :: rest =>
      return (.ofMonth year (← number? [m₁, m₂]) (← number? [d₁, d₂]), rest)
    | _ => none
  | _ => none

/-- A date by weeks behind its year and the letter. Hyphens are written everywhere or nowhere. -/
def weekDate? (year : Int) (byHyphen : Bool) (cs : List Char) : Option (Date × List Char) := do
  let week ← number? (cs.take 2)
  match cs.drop 2 with
  | [] => return (← Date.ofWeek? year week 1, [])
  | c :: rest =>
    if (c == '-') != byHyphen then none
    else
      let rest := if byHyphen then rest else c :: rest
      return (← Date.ofWeek? year week (← number? (rest.take 1)), rest.drop 1)

/-- A date by weeks or by days of the year, and what follows it. -/
def countedDate? : List Char → Option (Date × List Char)
  | y₁ :: y₂ :: y₃ :: y₄ :: rest => do
    let year ← number? [y₁, y₂, y₃, y₄]
    let byHyphen := rest.head? == some '-'
    match if byHyphen then rest.drop 1 else rest with
    | 'W' :: rest => weekDate? year byHyphen rest
    | d₁ :: d₂ :: d₃ :: rest => return (← Date.ofDay? year (← number? [d₁, d₂, d₃]), rest)
    | _ => none
  | _ => none

/-- The numbers of a time. What is not written is zero. -/
structure Clock where
  hour : Int := 0
  minute : Int := 0
  second : Int := 0

/-- Whether no further number of a time follows: its text ends or its offset begins. -/
def endsClock (cs : List Char) : Bool :=
  match cs with
  | [] => true
  | c :: _ => c == '-' || c == '+' || c == 'Z' || c == 'z'

/-- A time to the second, and what follows it. Colons are written everywhere or nowhere. -/
def clock? (cs : List Char) : Option (Clock × List Char) :=
  if endsClock cs then some ({}, cs)
  else do
    let hour ← number? (cs.take 2)
    let cs := cs.drop 2
    if endsClock cs then return ({ hour }, cs)
    let byColon := cs.head? == some ':'
    let cs := if byColon then cs.drop 1 else cs
    let minute ← number? (cs.take 2)
    let cs := cs.drop 2
    if endsClock cs then return ({ hour, minute }, cs)
    if byColon && cs.head? != some ':' then none
    else
      let cs := if byColon then cs.drop 1 else cs
      return ({ hour, minute, second := ← number? (cs.take 2) }, cs.drop 2)

/-- The digits of a fraction behind a point or a comma, and what follows them. -/
def fraction (cs : List Char) : List Char × List Char :=
  match cs with
  | [] => ([], [])
  | c :: rest =>
    if (c == '.' || c == ',') && !(rest.takeWhile Char.isDigit).isEmpty then
      (rest.takeWhile Char.isDigit, rest.dropWhile Char.isDigit)
    else ([], cs)

/-- Whether the text is an offset of less than a day. There may be none. -/
def isZone : List Char → Bool
  | [] => true
  | ['Z'] => true
  | ['z'] => true
  | sign :: digits =>
    (sign == '+' || sign == '-') && [2, 4, 5].contains digits.length &&
      let minutes := digits.drop (if digits[2]? == some ':' then 3 else 2)
      match number? (digits.take 2), if digits.length = 2 then some 0 else number? minutes with
      | some hour, some minute => (hour == 0 && minute == 0) || (minute ≤ 59 && hour ≤ 23)
      | _, _ => false

/-- Whether a clock shows the time on that day: hour twenty-four counts only sharp, and not on the
last day of the calendar. -/
def Clock.isShown (clock : Clock) (date : Date) (digits : List Char) : Bool :=
  if clock.hour = 24 then
    clock.minute == 0 && clock.second == 0 && (digits.take 6).all (· == '0') && !date.isLast
  else
    0 ≤ clock.hour && clock.hour ≤ 23 && 0 ≤ clock.minute && clock.minute ≤ 59 &&
      0 ≤ clock.second && clock.second ≤ 59

/-- Whether the text is a time on that day. -/
def isTimeOn (date : Date) (time : List Char) : Bool :=
  2 ≤ time.length &&
    match clock? time with
    | some (clock, rest) => isZone (fraction rest).2 && clock.isShown date (fraction rest).1
    | none => false

def isAscii (c : Char) : Bool := c.toNat < 128

/-- Whether the text is a date, or a date and a time with any one character between them. -/
def accepts (cs : List Char) : Bool :=
  cs.all isAscii &&
    match (monthDate? cs).or (countedDate? cs) with
    | some (date, []) => date.isValid
    | some (date, _ :: time) => date.isValid && isTimeOn date time
    | none => false

/-! ## Numbers -/

theorem trim_of_digits {cs : List Char} (hcs : ∀ c ∈ cs, c.isDigit = true) :
    Text.trim cs = cs := by
  have hdrop : ∀ cs : List Char, (∀ c ∈ cs, c.isDigit = true) →
      cs.dropWhile Text.isBlank = cs := by
    intro cs hcs
    cases cs with
    | nil => rfl
    | cons c rest =>
      exact List.dropWhile_cons_of_neg
        (by rw [Text.isBlank_of_isDigit (hcs c List.mem_cons_self)]; decide)
  rw [Text.trim, hdrop cs hcs, hdrop cs.reverse (by simpa using hcs), List.reverse_reverse]

theorem withoutUnderscores?_of_digits {cs : List Char} (hcs : ∀ c ∈ cs, c.isDigit = true) :
    Text.withoutUnderscores? cs = some cs := by
  have hmark : ('_' : Char).isDigit = false := by decide
  fun_induction Text.withoutUnderscores? cs with
  | case1 => rfl
  | case2 => simp [hmark] at hcs
  | case3 => simp [hmark] at hcs
  | case4 => simp [hmark] at hcs
  | case5 rest => simp [hmark] at hcs
  | case6 c rest _ _ _ hc ih =>
    rw [ih fun d hd => hcs d (List.mem_cons_of_mem c hd)]
    rfl

/-- Digits of ASCII are read as they are anywhere. -/
theorem number?_of_digits {cs : List Char} (hne : cs ≠ []) (hshort : cs.length ≤ Text.digitLimit)
    (hcs : ∀ c ∈ cs, c.isDigit = true) :
    number? cs = (Text.decimalDigits? 0 cs).map Int.ofNat := by
  have hplain : (cs.any fun c => decide (0x1c ≤ c.toNat) && decide (c.toNat ≤ 0x1f)) = false := by
    rw [List.any_eq_false]
    intro c hc
    have hbounds := Text.isDigit_iff_bounds.mp (hcs c hc)
    simp only [Bool.and_eq_true, decide_eq_true_eq]
    omega
  have hnatural : Text.natural? cs = Text.decimalDigits? 0 cs := by
    rw [Text.natural?, if_neg]
    simp only [Bool.or_eq_true, List.isEmpty_iff, decide_eq_true_eq, not_or]
    exact ⟨hne, Nat.not_lt.mpr hshort⟩
  have hmagnitude : (Text.withoutUnderscores? cs >>= Text.natural?).map Int.ofNat =
      (Text.decimalDigits? 0 cs).map Int.ofNat := by
    rw [withoutUnderscores?_of_digits hcs]
    exact congrArg _ hnatural
  rw [number?, hplain, if_neg Bool.false_ne_true, Text.integer?, trim_of_digits hcs]
  -- neither sign is a digit, so of the three ways to begin only the last is left
  split
  · exact absurd (hcs '-' List.mem_cons_self) (by decide)
  · exact absurd (hcs '+' List.mem_cons_self) (by decide)
  · exact hmagnitude

theorem decimalDigits?_padded (width n : Nat) :
    Text.decimalDigits? 0 (padded width n) = some (n % 10 ^ width) := by
  have hvalue : ∀ d < 10, Text.decimalValue? (Nat.digitChar d) = some d := by decide
  -- numbers are written from their last digit and read from their first: the last is split off
  induction width generalizing n with
  | zero =>
    rw [Nat.pow_zero, Nat.mod_one]
    rfl
  | succ width ih =>
    have hlast := hvalue (n % 10) (Nat.mod_lt n (by decide))
    have hsum : n % 10 ^ (width + 1) = 10 * (n / 10 % 10 ^ width) + n % 10 := by
      rw [Nat.pow_succ', Nat.mod_mul, Nat.add_comm]
    rw [padded, Text.decimalDigits?_append, ih, hsum]
    simp only [Option.bind_some, Text.decimalDigits?, hlast]

theorem number?_padded {width n : Nat} (hpos : 0 < width) (hwidth : width ≤ Text.digitLimit)
    (hn : n < 10 ^ width) : number? (padded width n) = some (n : Int) := by
  have hne : padded width n ≠ [] := List.ne_nil_of_length_pos (by rwa [length_padded])
  rw [number?_of_digits hne (by rwa [length_padded]) isDigit_of_mem_padded,
    decimalDigits?_padded, Nat.mod_eq_of_lt hn]
  rfl

theorem number?_pair {a b : Char} {n : Nat} (h : Timestamp.pair? a b = some n) :
    number? [a, b] = some (n : Int) := by
  obtain ⟨hn, hpadded⟩ := Timestamp.pair?_eq_some_iff.mp h
  rw [hpadded]
  exact number?_padded (by decide) (by decide) hn

/-! ## What both find in a text -/

theorem endsClock_of_isDigit {c : Char} {cs : List Char} (hc : c.isDigit = true) :
    endsClock (c :: cs) = false := by
  have hmark : ∀ mark : Char, mark.isDigit = false → (c == mark) = false := by
    intro mark hmark
    rw [beq_eq_false_iff_ne]
    rintro rfl
    exact absurd hc (by rw [hmark]; decide)
  simp only [endsClock, hmark '-' (by decide), hmark '+' (by decide), hmark 'Z' (by decide),
    hmark 'z' (by decide), Bool.or_false]

theorem monthDate?_dateText {year month day : Nat} (hyear : year < 10000) (hmonth : month < 100)
    (hday : day < 100) (rest : List Char) :
    monthDate? (padded 4 year ++ '-' :: (padded 2 month ++ '-' :: (padded 2 day ++ rest))) =
      some (.ofMonth year month day, rest) := by
  have hyear := number?_padded (show 0 < 4 by decide) (by decide) hyear
  have hmonth := number?_padded (show 0 < 2 by decide) (by decide) hmonth
  have hday := number?_padded (show 0 < 2 by decide) (by decide) hday
  simp only [padded, List.nil_append, List.cons_append] at hyear hmonth hday ⊢
  simp only [monthDate?, hyear, hmonth, hday, Option.bind_eq_bind, Option.bind_some,
    Option.pure_def]

theorem clock?_timeText {hour minute second : Nat} (hhour : hour < 100) (hminute : minute < 100)
    (hsecond : second < 100) (rest : List Char) :
    clock? (padded 2 hour ++ ':' :: (padded 2 minute ++ ':' :: (padded 2 second ++ rest))) =
      some (⟨hour, minute, second⟩, rest) := by
  have hfirst : ∀ n rest, endsClock (padded 2 n ++ rest) = false := fun n rest =>
    endsClock_of_isDigit (@isDigit_of_mem_padded 2 n _ List.mem_cons_self)
  have hcolon : ∀ rest, endsClock (':' :: rest) = false := fun _ => rfl
  have htake : ∀ n rest, (padded 2 n ++ rest).take 2 = padded 2 n := fun _ _ => rfl
  have hdrop : ∀ n rest, (padded 2 n ++ rest).drop 2 = rest := fun _ _ => rfl
  have hhour := number?_padded (show 0 < 2 by decide) (by decide) hhour
  have hminute := number?_padded (show 0 < 2 by decide) (by decide) hminute
  have hsecond := number?_padded (show 0 < 2 by decide) (by decide) hsecond
  simp [clock?, hfirst, hcolon, htake, hdrop, hhour, hminute, hsecond]

theorem isShown_eq_isClockTime {t : Timestamp} {digits : List Char}
    (hdigits : ∀ c ∈ digits, c.isDigit = true)
    (hfraction : t.fraction = digits.filterMap Timestamp.digit?) :
    Clock.isShown ⟨t.hour, t.minute, t.second⟩ (.ofMonth t.year t.month t.day) digits =
      t.isClockTime := by
  have hsharp : (digits.take 6).all (· == '0') = (t.fraction.take 6).all (· == 0) := by
    rw [Bool.eq_iff_iff, hfraction, Timestamp.all_take_filterMap_digit?_iff hdigits,
      List.all_eq_true]
    exact forall₂_congr fun c _ => beq_iff_eq
  have hlast : (Date.ofMonth t.year t.month t.day).isLast = t.isLastDate := by
    rw [Bool.eq_iff_iff]
    simp only [Date.isLast, Timestamp.isLastDate, Bool.and_eq_true, beq_iff_eq]
    omega
  rw [Bool.eq_iff_iff]
  simp only [Clock.isShown, hsharp, hlast, Timestamp.isClockTime, Timestamp.isEndOfDay]
  simp only [Bool.and_eq_true, Bool.or_eq_true, beq_iff_eq, decide_eq_true_eq]
  by_cases hhour : t.hour = 24
  · -- the end of a day: minute and second are zero for both, so their bounds say nothing more
    have hint : (t.hour : Int) = 24 := by omega
    rw [if_pos hint]
    simp only [Bool.and_eq_true, beq_iff_eq]
    constructor
    · rintro ⟨⟨⟨hminute, hsecond⟩, hsharp⟩, hlast⟩
      exact ⟨⟨by omega, by omega⟩, .inr ⟨⟨⟨⟨hhour, by omega⟩, by omega⟩, hsharp⟩, hlast⟩⟩
    · rintro ⟨-, hshort | ⟨⟨⟨⟨-, hminute⟩, hsecond⟩, hsharp⟩, hlast⟩⟩
      · omega
      · exact ⟨⟨⟨by omega, by omega⟩, hsharp⟩, hlast⟩
  · have hint : (t.hour : Int) ≠ 24 := by omega
    rw [if_neg hint]
    simp only [Bool.and_eq_true, decide_eq_true_eq]
    constructor
    · intro h
      exact ⟨⟨by omega, by omega⟩, .inl (by omega)⟩
    · rintro ⟨⟨hminute, hsecond⟩, hshort | ⟨⟨⟨⟨hends, -⟩, -⟩, -⟩, -⟩⟩
      · omega
      · exact absurd hends hhour

theorem isValid_eq_isCalendarDate (t : Timestamp) :
    (Date.ofMonth t.year t.month t.day).isValid = t.isCalendarDate := by
  rw [Bool.eq_iff_iff]
  simp only [Date.isValid, Timestamp.isCalendarDate, Bool.and_eq_true, decide_eq_true_eq,
    Int.toNat_natCast]
  omega

theorem isZone_signed {sign a b c d : Char} {hour minute : Int} (hsign : sign = '+' ∨ sign = '-')
    (hhour : number? [a, b] = some hour) (hminute : number? [c, d] = some minute) :
    isZone [sign, a, b, ':', c, d] =
      (hour == 0 && minute == 0 || decide (minute ≤ 59) && decide (hour ≤ 23)) := by
  rcases hsign with rfl | rfl
  · simp [isZone, hhour, hminute]
  · simp [isZone, hhour, hminute]

theorem isZone_of_offset? {cs : List Char} {hour minute : Nat}
    (h : Timestamp.offset? cs = some (hour, minute)) :
    isZone cs = (decide (hour ≤ 23) && decide (minute ≤ 59)) := by
  obtain ⟨rfl, rfl, rfl⟩ | ⟨sign, a, b, c, d, rfl, hsign, hhour, hminute⟩ :=
    Timestamp.offset?_cases h
  · rfl
  · rw [isZone_signed hsign (number?_pair hhour) (number?_pair hminute), Bool.eq_iff_iff]
    simp only [Bool.or_eq_true, Bool.and_eq_true, beq_iff_eq, decide_eq_true_eq]
    omega

/-- Nothing may stand behind an offset. -/
theorem isZone_append_lineFeed {cs : List Char} {hour minute : Nat}
    (h : Timestamp.offset? cs = some (hour, minute)) : isZone (cs ++ ['\n']) = false := by
  obtain ⟨rfl, -, -⟩ | ⟨sign, a, b, c, d, rfl, -, -, -⟩ :=
    Timestamp.offset?_cases h
  · rfl
  · simp [isZone]

theorem isAscii_of_isDigit {c : Char} (hc : c.isDigit = true) : isAscii c = true := by
  have hbounds := Text.isDigit_iff_bounds.mp hc
  exact decide_eq_true (by omega)

theorem fraction_append {digits written rest : List Char} {c : Char}
    (h : WritesFraction digits written) (hc : c = 'Z' ∨ c = '+' ∨ c = '-') :
    fraction (written ++ c :: rest) = (digits, c :: rest) := by
  have hdigit : c.isDigit = false := by
    rcases hc with rfl | rfl | rfl <;> rfl
  cases h with
  | none =>
    have hmark : (c == '.' || c == ',') = false := by
      rcases hc with rfl | rfl | rfl <;> rfl
    simp [fraction, hmark]
  | point hne hdigits =>
    simp [fraction, Text.takeWhile_append_cons hdigits hdigit,
      Text.dropWhile_append_cons hdigits hdigit, hne]

end Iso

/-! ## What a timestamp is to each -/

namespace Timestamp

/-- The text of a timestamp to the second, with `rest` behind it. -/
def text (t : Timestamp) (rest : List Char) : List Char :=
  timestampText t.year t.month t.day t.hour t.minute t.second rest

/-- The numbers of a timestamp are those of its text with this fraction and this offset. -/
structure IsWritten (t : Timestamp) (digits written offset : List Char) : Prop where
  hasRoom : t.HasRoom
  writesFraction : WritesFraction digits written
  fraction_eq : t.fraction = digits.filterMap digit?
  offset?_eq : offset? offset = some (t.offsetHour, t.offsetMinute)

theorem exists_isWritten_of_ofChars? {cs : List Char} {t : Timestamp} (h : ofChars? cs = some t) :
    ∃ digits written offset, cs = t.text (written ++ offset) ∧
      t.IsWritten digits written offset := by
  obtain ⟨rest, offset, hroom, htext, hfraction, hoffset⟩ := ofChars?_eq_some h
  obtain ⟨digits, written, hwrites, rfl, hvalues⟩ := fraction?_eq_some hfraction
  exact ⟨digits, written, offset, htext, hroom, hwrites, hvalues, hoffset⟩

theorem length_text (t : Timestamp) (rest : List Char) :
    (t.text rest).length = 19 + rest.length := by
  simp only [text, timestampText, List.length_append, List.length_cons, length_padded]
  omega

theorem text_append (t : Timestamp) (rest behind : List Char) :
    t.text (rest ++ behind) = t.text rest ++ behind := by
  simp only [text, timestampText, List.append_assoc, List.cons_append]

theorem all_isAscii_text (t : Timestamp) (rest : List Char) :
    (t.text rest).all Iso.isAscii = rest.all Iso.isAscii := by
  have hpadded : ∀ width n, (padded width n).all Iso.isAscii = true := fun _ _ =>
    List.all_eq_true.mpr fun _ hc => Iso.isAscii_of_isDigit (isDigit_of_mem_padded _ hc)
  have hmarks : ∀ c ∈ ['-', 'T', ':'], Iso.isAscii c = true := by simp [Iso.isAscii]
  simp only [text, timestampText, List.all_append, List.all_cons, hpadded, hmarks '-' (by simp),
    hmarks 'T' (by simp), hmarks ':' (by simp), Bool.true_and]

/-- What is read of a text that has a date and a time to the second, whatever follows. -/
theorem accepts_text {t : Timestamp} (ht : t.HasRoom) (rest : List Char) :
    Iso.accepts (t.text rest) =
      (rest.all Iso.isAscii && (t.isCalendarDate && (Iso.isZone (Iso.fraction rest).2 &&
        Iso.Clock.isShown ⟨t.hour, t.minute, t.second⟩ (.ofMonth t.year t.month t.day)
          (Iso.fraction rest).1))) := by
  have hdate := Iso.monthDate?_dateText ht.year_lt ht.month_lt ht.day_lt
  have hclock := Iso.clock?_timeText ht.hour_lt ht.minute_lt ht.second_lt rest
  -- the date is one by months, so what it would be by weeks or days is not looked at
  rw [Iso.accepts, all_isAscii_text, text, timestampText, hdate]
  simp [Iso.isTimeOn, hclock, Iso.isValid_eq_isCalendarDate]

theorem isDigit_of_pair? {a b : Char} {n : Nat} (h : pair? a b = some n) :
    a.isDigit = true ∧ b.isDigit = true := by
  have hpadded := (pair?_eq_some_iff.mp h).2
  exact ⟨isDigit_of_mem_padded _ (hpadded ▸ List.mem_cons_self),
    isDigit_of_mem_padded _ (hpadded ▸ List.mem_cons_of_mem a List.mem_cons_self)⟩

namespace IsWritten

variable {t : Timestamp} {digits written offset : List Char}

theorem exists_offset_eq_cons (h : t.IsWritten digits written offset) :
    ∃ c rest, offset = c :: rest ∧ (c = 'Z' ∨ c = '+' ∨ c = '-') := by
  obtain ⟨rfl, -⟩ | ⟨sign, a, b, c, d, rfl, hsign, -⟩ := offset?_cases h.offset?_eq
  · exact ⟨_, _, rfl, .inl rfl⟩
  · exact ⟨_, _, rfl, .inr hsign⟩

theorem getLast?_offset (h : t.IsWritten digits written offset) :
    ∃ c, offset.getLast? = some c ∧ c ≠ '\n' := by
  obtain ⟨rfl, -⟩ | ⟨sign, a, b, c, d, rfl, -, -, hminute⟩ := offset?_cases h.offset?_eq
  · exact ⟨_, rfl, by decide⟩
  · refine ⟨d, rfl, ?_⟩
    rintro rfl
    exact absurd (isDigit_of_pair? hminute).2 (by decide)

theorem all_isAscii (h : t.IsWritten digits written offset) :
    (written ++ offset).all Iso.isAscii = true := by
  have hwritten : written.all Iso.isAscii = true := by
    cases h.writesFraction with
    | none => rfl
    | point _ hdigits =>
      rw [List.all_cons, Bool.and_eq_true, List.all_eq_true]
      exact ⟨rfl, fun c hc => Iso.isAscii_of_isDigit (hdigits c hc)⟩
  have hoffset : offset.all Iso.isAscii = true := by
    obtain ⟨rfl, -⟩ | ⟨sign, a, b, c, d, rfl, hsign, hhour, hminute⟩ :=
      offset?_cases h.offset?_eq
    · rfl
    · obtain ⟨ha, hb⟩ := isDigit_of_pair? hhour
      obtain ⟨hc, hd⟩ := isDigit_of_pair? hminute
      have hsign : Iso.isAscii sign = true := by
        rcases hsign with rfl | rfl <;> rfl
      have hcolon : Iso.isAscii ':' = true := rfl
      simp [hsign, hcolon, Iso.isAscii_of_isDigit ha, Iso.isAscii_of_isDigit hb,
        Iso.isAscii_of_isDigit hc, Iso.isAscii_of_isDigit hd]
  rw [List.all_append, hwritten, hoffset]
  rfl

/-- Of a text with the shape, the calendar and the clock are asked the same questions. -/
theorem accepts_eq (h : t.IsWritten digits written offset) :
    Iso.accepts (t.text (written ++ offset)) =
      (t.isCalendarDate && t.isClockTime && t.isOffset) := by
  have hascii := h.all_isAscii
  obtain ⟨c, rest, rfl, hc⟩ := h.exists_offset_eq_cons
  have hclock := Iso.isShown_eq_isClockTime (isDigit_of_writesFraction h.writesFraction)
    h.fraction_eq
  have hzone : Iso.isZone (c :: rest) = t.isOffset := Iso.isZone_of_offset? h.offset?_eq
  rw [accepts_text h.hasRoom, hascii, Iso.fraction_append h.writesFraction hc, hclock, hzone,
    Bool.true_and, Bool.and_comm t.isOffset, Bool.and_assoc]

theorem accepts_lineFeed (h : t.IsWritten digits written offset) :
    Iso.accepts (t.text (written ++ offset) ++ ['\n']) = false := by
  have hzone := Iso.isZone_append_lineFeed h.offset?_eq
  obtain ⟨c, rest, rfl, hc⟩ := h.exists_offset_eq_cons
  rw [← text_append, List.append_assoc, List.cons_append, accepts_text h.hasRoom,
    Iso.fraction_append h.writesFraction hc, ← List.cons_append, hzone, Bool.false_and,
    Bool.and_false, Bool.and_false]

theorem dropFinalLineFeed_text (h : t.IsWritten digits written offset) :
    Text.dropFinalLineFeed (t.text (written ++ offset)) = t.text (written ++ offset) := by
  obtain ⟨c, hlast, hc⟩ := h.getLast?_offset
  rw [Text.dropFinalLineFeed, if_neg]
  rw [text_append, List.getLast?_append, hlast, Option.some_or, Option.some.injEq]
  exact hc

theorem isOffsetShape (h : t.IsWritten digits written offset) : isOffsetShape offset = true := by
  obtain ⟨rfl, -⟩ | ⟨sign, a, b, c, d, rfl, hsign, hhour, hminute⟩ :=
    offset?_cases h.offset?_eq
  · rfl
  · obtain ⟨ha, hb⟩ := isDigit_of_pair? hhour
    obtain ⟨hc, hd⟩ := isDigit_of_pair? hminute
    simp [Format.isOffsetShape, hsign, isDecimal_of_isDigit ha, isDecimal_of_isDigit hb,
      isDecimal_of_isDigit hc, isDecimal_of_isDigit hd]

theorem afterFraction?_eq (h : t.IsWritten digits written offset) :
    afterFraction? (written ++ offset) = some offset := by
  obtain ⟨c, rest, rfl, hc⟩ := h.exists_offset_eq_cons
  have hdecimal : isDecimal c = false := by
    rcases hc with rfl | rfl | rfl <;> rfl
  cases h.writesFraction with
  | none =>
    rcases hc with rfl | rfl | rfl <;> rfl
  | point hne hdigits =>
    have hdigits : ∀ c ∈ digits, isDecimal c = true := fun c hc =>
      isDecimal_of_isDigit (hdigits c hc)
    simp [afterFraction?, Text.takeWhile_append_cons hdigits hdecimal,
      Text.dropWhile_append_cons hdigits hdecimal, hne]

theorem isTimestampShape (h : t.IsWritten digits written offset) :
    isTimestampShape (t.text (written ++ offset)) = true := by
  have hdecimal : ∀ n, isDecimal (Nat.digitChar (n % 10)) = true := fun n =>
    isDecimal_of_isDigit (@isDigit_of_mem_padded 1 n _ List.mem_cons_self)
  simp [text, timestampText, padded, Format.isTimestampShape, hdecimal, h.afterFraction?_eq,
    h.isOffsetShape]

end IsWritten

/-! ## What has the shape in ASCII -/

theorem exists_pair? {a b : Char} (ha : a.isDigit = true) (hb : b.isDigit = true) :
    ∃ n, pair? a b = some n := by
  have htens : digit? a = some (a.toNat - '0'.toNat) := if_pos ha
  have hunits : digit? b = some (b.toNat - '0'.toNat) := if_pos hb
  rw [pair?, htens, hunits]
  exact ⟨_, rfl⟩

theorem isDigit_of_isAscii {cs : List Char} (hascii : ∀ c ∈ cs, Iso.isAscii c = true)
    (hdecimal : ∀ c ∈ cs, isDecimal c = true) : ∀ c ∈ cs, c.isDigit = true := by
  intro c hc
  rw [← isDecimal_eq_isDigit (of_decide_eq_true (hascii c hc))]
  exact hdecimal c hc

theorem takeWhile_isDecimal {cs : List Char} (hascii : ∀ c ∈ cs, Iso.isAscii c = true) :
    cs.takeWhile isDecimal = cs.takeWhile Char.isDigit := by
  induction cs with
  | nil => rfl
  | cons c cs ih =>
    have hc : isDecimal c = c.isDigit :=
      isDecimal_eq_isDigit (of_decide_eq_true (hascii c List.mem_cons_self))
    rw [List.takeWhile_cons, List.takeWhile_cons, hc,
      ih fun d hd => hascii d (List.mem_cons_of_mem c hd)]

theorem dropWhile_isDecimal {cs : List Char} (hascii : ∀ c ∈ cs, Iso.isAscii c = true) :
    cs.dropWhile isDecimal = cs.dropWhile Char.isDigit := by
  have hwhole : cs.takeWhile Char.isDigit ++ cs.dropWhile isDecimal =
      cs.takeWhile Char.isDigit ++ cs.dropWhile Char.isDigit := by
    rw [← takeWhile_isDecimal hascii, List.takeWhile_append_dropWhile,
      takeWhile_isDecimal hascii, List.takeWhile_append_dropWhile]
  exact List.append_cancel_left hwhole

theorem exists_fraction?_of_afterFraction? {rest offset : List Char}
    (hascii : ∀ c ∈ rest, Iso.isAscii c = true) (h : afterFraction? rest = some offset) :
    ∃ values, fraction? rest = some (values, offset) := by
  unfold afterFraction? at h
  split at h
  · rename_i rest
    have hrest : ∀ c ∈ rest, Iso.isAscii c = true := fun c hc =>
      hascii c (List.mem_cons_of_mem _ hc)
    rw [takeWhile_isDecimal hrest, dropWhile_isDecimal hrest,
      Option.ite_none_left_eq_some, List.isEmpty_iff] at h
    obtain ⟨hdigits, hoffset⟩ := h
    obtain rfl := Option.some.inj hoffset
    rw [fraction?]
    split
    · contradiction
    · exact ⟨_, rfl⟩
  · rename_i hpoint
    obtain rfl := Option.some.inj h
    unfold fraction?
    split
    · exact absurd rfl (hpoint _)
    · exact ⟨_, rfl⟩

theorem exists_offset?_of_isOffsetShape {offset : List Char}
    (hascii : ∀ c ∈ offset, Iso.isAscii c = true) (h : isOffsetShape offset = true) :
    ∃ hour minute, offset? offset = some (hour, minute) := by
  unfold isOffsetShape at h
  split at h
  · exact ⟨0, 0, rfl⟩
  · rename_i sign a b c d
    rw [Bool.and_eq_true, Bool.or_eq_true, beq_iff_eq, beq_iff_eq, List.all_eq_true] at h
    obtain ⟨hsign, hdecimals⟩ := h
    have hparts : ∀ e ∈ [a, b, c, d], Iso.isAscii e = true := by
      simp only [List.forall_mem_cons] at hascii ⊢
      simp [hascii]
    have hdigit := isDigit_of_isAscii hparts hdecimals
    obtain ⟨hour, hhour⟩ := exists_pair? (hdigit a (by simp)) (hdigit b (by simp))
    obtain ⟨minute, hminute⟩ := exists_pair? (hdigit c (by simp)) (hdigit d (by simp))
    exact ⟨hour, minute, by simp [offset?, hsign, hhour, hminute]⟩
  · contradiction

theorem exists_ofChars?_of_isTimestampShape {cs : List Char}
    (hascii : ∀ c ∈ cs, Iso.isAscii c = true) (h : Format.isTimestampShape cs = true) :
    ∃ t, ofChars? cs = some t := by
  unfold Format.isTimestampShape at h
  split at h
  · rename_i y₁ y₂ y₃ y₄ m₁ m₂ d₁ d₂ h₁ h₂ n₁ n₂ s₁ s₂ rest
    rw [Bool.and_eq_true, List.all_eq_true, Option.any_eq_true] at h
    obtain ⟨hdecimals, offset, hafter, hshape⟩ := h
    have hparts : ∀ e ∈ [y₁, y₂, y₃, y₄, m₁, m₂, d₁, d₂, h₁, h₂, n₁, n₂, s₁, s₂],
        Iso.isAscii e = true := by
      simp only [List.forall_mem_cons] at hascii ⊢
      simp [hascii]
    have hdigit := isDigit_of_isAscii hparts hdecimals
    have hrest : ∀ c ∈ rest, Iso.isAscii c = true := fun c hc => hascii c (by simp [hc])
    obtain ⟨values, hfraction⟩ := exists_fraction?_of_afterFraction? hrest hafter
    -- the offset is in ASCII too, as the end of what follows the seconds
    obtain ⟨_, written, -, rfl, -⟩ := fraction?_eq_some hfraction
    have hbehind : ∀ c ∈ offset, Iso.isAscii c = true := fun c hc =>
      hrest c (List.mem_append_right written hc)
    obtain ⟨offsetHour, offsetMinute, hoffset⟩ := exists_offset?_of_isOffsetShape hbehind hshape
    obtain ⟨century, hcentury⟩ := exists_pair? (hdigit y₁ (by simp)) (hdigit y₂ (by simp))
    obtain ⟨yearOfCentury, hyear⟩ := exists_pair? (hdigit y₃ (by simp)) (hdigit y₄ (by simp))
    obtain ⟨month, hmonth⟩ := exists_pair? (hdigit m₁ (by simp)) (hdigit m₂ (by simp))
    obtain ⟨day, hday⟩ := exists_pair? (hdigit d₁ (by simp)) (hdigit d₂ (by simp))
    obtain ⟨hour, hhour⟩ := exists_pair? (hdigit h₁ (by simp)) (hdigit h₂ (by simp))
    obtain ⟨minute, hminute⟩ := exists_pair? (hdigit n₁ (by simp)) (hdigit n₂ (by simp))
    obtain ⟨second, hsecond⟩ := exists_pair? (hdigit s₁ (by simp)) (hdigit s₂ (by simp))
    refine ⟨⟨100 * century + yearOfCentury, month, day, hour, minute, second, values, offsetHour,
      offsetMinute⟩, ?_⟩
    simp only [ofChars?, hcentury, hyear, hmonth, hday, hhour, hminute, hsecond, hfraction, hoffset,
      Option.bind_eq_bind, Option.bind_some, Option.pure_def]
  · contradiction

theorem IsWritten.hasTimestampShape {t : Timestamp} {digits written offset : List Char}
    (h : t.IsWritten digits written offset) {s : String}
    (hs : s.toList = t.text (written ++ offset)) : hasTimestampShape s = true := by
  have hlength : 20 ≤ s.length := by
    obtain ⟨c, rest, rfl, -⟩ := h.exists_offset_eq_cons
    rw [← String.length_toList, hs, length_text, List.length_append, List.length_cons]
    omega
  rw [Format.hasTimestampShape, hs, h.dropFinalLineFeed_text, h.isTimestampShape, Bool.and_true]
  exact decide_eq_true hlength

end Timestamp

/-- **Two readers of timestamps.** A text is a timestamp exactly if it has the shape of one and is a
date and a time of ISO 8601. The shape alone would let other digits pass and a line feed at the
end, dates that are in no calendar and times that no clock shows; the standard alone, other ways of
writing a date and a time. -/
theorem isDateTime_eq_and (s : String) :
    isDateTime s = (hasTimestampShape s && Iso.accepts s.toList) := by
  cases ht : Timestamp.ofChars? s.toList with
  | some t =>
    obtain ⟨digits, written, offset, htext, h⟩ := Timestamp.exists_isWritten_of_ofChars? ht
    rw [h.hasTimestampShape htext, Bool.true_and, isDateTime, ht, htext, h.accepts_eq]
  | none =>
    have hnone : isDateTime s = false := by rw [isDateTime, ht]
    rw [hnone]
    refine (Bool.eq_false_iff.mpr fun hboth => ?_).symm
    obtain ⟨hshape, haccepts⟩ := Bool.and_eq_true_iff.mp hboth
    have hshape := (Bool.and_eq_true_iff.mp hshape).2
    have hascii := List.all_eq_true.mp (Bool.and_eq_true_iff.mp haccepts).1
    rw [Text.dropFinalLineFeed] at hshape
    split at hshape
    · -- before the line feed there is a timestamp, and then ISO 8601 has no place for it
      rename_i hlast
      have hfront : ∀ c ∈ s.toList.dropLast, Iso.isAscii c = true := fun c hc =>
        hascii c (List.dropLast_subset _ hc)
      obtain ⟨t, ht⟩ := Timestamp.exists_ofChars?_of_isTimestampShape hfront hshape
      obtain ⟨digits, written, offset, htext, h⟩ := Timestamp.exists_isWritten_of_ofChars? ht
      rw [← List.dropLast_append_getLast? _ hlast, htext, h.accepts_lineFeed] at haccepts
      exact Bool.false_ne_true haccepts
    · obtain ⟨t, hread⟩ := Timestamp.exists_ofChars?_of_isTimestampShape hascii hshape
      exact absurd hread (by simp [ht])

/-- The shape has room for a line feed at the end, and the standard for a date by its week. -/
example :
    hasTimestampShape "2006-01-02T15:04:05Z\n" = true ∧
      Iso.accepts "2006-01-02T15:04:05Z\n".toList = false ∧
      hasTimestampShape "2006-W01-1T15:04:05Z" = false ∧
      Iso.accepts "2006-W01-1T15:04:05Z".toList = true := by decide

end SampleSchema.Format
