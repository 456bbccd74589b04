import Mathlib.Data.List.Basic
import SampleSchema.Format.DateTime
import SampleSchema.Text.Digit
import SampleSchema.Text.Split
/-!
# Which texts are timestamps

`isDateTime` takes the numbers of a text apart and asks the calendar and the clock about them. Here
timestamps are described the other way round, by what is written: numbers with leading zeros between
fixed marks, then a fraction and an offset. `isDateTime_iff` says that these are all of them, and
that nothing may stand before or behind.

* `pair?_eq_some_iff`: two digits are read as a number exactly if they are what is written for it.
* `ofChars?_eq_some` and `ofChars?_timestampText` are the two halves of that for a whole timestamp.
* `isCalendarDate_iff` ties the days that a month is given to the table of the months.
-/

namespace SampleSchema.Format

/-! ## The language -/

/-- The last digits of a number, as many as `width` says, so that small numbers have zeros in
front. -/
def padded : Nat → Nat → List Char
  | 0, _ => []
  | width + 1, n => padded width (n / 10) ++ [Nat.digitChar (n % 10)]

@[simp] theorem length_padded (width n : Nat) : (padded width n).length = width := by
  induction width generalizing n with
  | zero => rfl
  | succ width ih => rw [padded, List.length_append, ih, List.length_singleton]

theorem isDigit_of_mem_padded {width n : Nat} : ∀ c ∈ padded width n, c.isDigit = true := by
  have hdigit : ∀ d < 10, (Nat.digitChar d).isDigit = true := by decide
  induction width generalizing n with
  | zero => exact List.forall_mem_nil _
  | succ width ih =>
    refine List.forall_mem_append.mpr ⟨ih, List.forall_mem_singleton.mpr ?_⟩
    exact hdigit _ (Nat.mod_lt n (by decide))

/-- The lengths of the twelve months. -/
def monthLengths (year : Nat) : List Nat :=
  [31, if 4 ∣ year ∧ (100 ∣ year → 400 ∣ year) then 29 else 28, 31, 30, 31, 30, 31, 31, 30, 31,
    30, 31]

/-- A date of the Gregorian calendar in a year of at most four digits. -/
structure IsDate (year month day : Nat) : Prop where
  year_pos : 1 ≤ year
  year_le : year ≤ 9999
  month_pos : 1 ≤ month
  month_le : month ≤ 12
  day_pos : 1 ≤ day
  day_le : ∃ length, (monthLengths year)[month - 1]? = some length ∧ day ≤ length

/-- Midnight at the end of a day, as far as the first six digits of the fraction tell. -/
structure EndsDay (hour minute second : Nat) (digits : List Char) : Prop where
  hour_eq : hour = 24
  minute_eq : minute = 0
  second_eq : second = 0
  sharp : ∀ c ∈ digits.take 6, c = '0'

/-- The digits of a fraction, and how they are written. There may be none, and then no point. -/
inductive WritesFraction : List Char → List Char → Prop where
  | none : WritesFraction [] []
  | point {digits : List Char} (hne : digits ≠ []) (hdigits : ∀ c ∈ digits, c.isDigit = true) :
      WritesFraction digits ('.' :: digits)

/-- The texts of an offset of less than a day. -/
inductive IsOffset : List Char → Prop where
  | utc : IsOffset ['Z']
  | shifted {sign : Char} {hour minute : Nat} (hsign : sign = '+' ∨ sign = '-') (hhour : hour ≤ 23)
      (hminute : minute ≤ 59) : IsOffset (sign :: (padded 2 hour ++ ':' :: padded 2 minute))

/-- A date and a time to the second, with `rest` behind them. -/
def timestampText (year month day hour minute second : Nat) (rest : List Char) : List Char :=
  padded 4 year ++ '-' :: (padded 2 month ++ '-' :: (padded 2 day ++ 'T' :: (padded 2 hour ++
    ':' :: (padded 2 minute ++ ':' :: (padded 2 second ++ rest)))))

namespace Timestamp

/-! ## Digits -/

theorem digit?_eq_some_iff {c : Char} {d : Nat} :
    digit? c = some d ↔ d < 10 ∧ c = Nat.digitChar d := by
  have hchar : ∀ d < 10, Char.ofNat (d + 48) = Nat.digitChar d := by decide
  have hdigit : ∀ d < 10, digit? (Nat.digitChar d) = some d := by decide
  constructor
  · intro h
    simp only [digit?, Option.ite_none_right_eq_some, Option.some.injEq] at h
    obtain ⟨hc, rfl⟩ := h
    have hbounds := Text.isDigit_iff_bounds.mp hc
    show c.toNat - 48 < 10 ∧ c = Nat.digitChar (c.toNat - 48)
    rw [← hchar _ (by omega), Nat.sub_add_cancel hbounds.1, Char.ofNat_toNat]
    exact ⟨by omega, rfl⟩
  · rintro ⟨hd, rfl⟩
    exact hdigit d hd

theorem padded_two (n : Nat) :
    padded 2 n = [Nat.digitChar (n / 10 % 10), Nat.digitChar (n % 10)] := rfl

theorem padded_four (n : Nat) : padded 4 n = padded 2 (n / 100) ++ padded 2 (n % 100) := by
  have hthousands : n / 10 / 10 / 10 % 10 = n / 100 / 10 % 10 := by omega
  have hhundreds : n / 10 / 10 % 10 = n / 100 % 10 := by omega
  have htens : n / 10 % 10 = n % 100 / 10 % 10 := by omega
  have hunits : n % 10 = n % 100 % 10 := by omega
  show [_, _, _, _] = [_, _, _, _]
  rw [hthousands, hhundreds, htens, hunits]

theorem pair?_padded {n : Nat} (hn : n < 100) :
    pair? (Nat.digitChar (n / 10 % 10)) (Nat.digitChar (n % 10)) = some n := by
  have htens : digit? (Nat.digitChar (n / 10 % 10)) = some (n / 10 % 10) :=
    digit?_eq_some_iff.mpr ⟨by omega, rfl⟩
  have hunits : digit? (Nat.digitChar (n % 10)) = some (n % 10) :=
    digit?_eq_some_iff.mpr ⟨by omega, rfl⟩
  have hsum : 10 * (n / 10 % 10) + n % 10 = n := by omega
  simp [pair?, htens, hunits, hsum]

/-- Two characters are read as a number exactly if they are its two digits. -/
theorem pair?_eq_some_iff {a b : Char} {n : Nat} :
    pair? a b = some n ↔ n < 100 ∧ [a, b] = padded 2 n := by
  constructor
  · intro h
    simp only [pair?, Option.bind_eq_bind, Option.bind_eq_some_iff, Option.pure_def,
      Option.some.injEq, digit?_eq_some_iff] at h
    obtain ⟨tens, ⟨htens, rfl⟩, units, ⟨hunits, rfl⟩, rfl⟩ := h
    have hfirst : (10 * tens + units) / 10 % 10 = tens := by omega
    have hlast : (10 * tens + units) % 10 = units := by omega
    rw [padded_two, hfirst, hlast]
    exact ⟨by omega, rfl⟩
  · rintro ⟨hn, h⟩
    simp only [padded_two, List.cons.injEq, and_true] at h
    rw [h.1, h.2, pair?_padded hn]

/-- Of the digits of a fraction, the first six have the value zero exactly if they are zeros. -/
theorem all_take_filterMap_digit?_iff {digits : List Char}
    (hdigits : ∀ c ∈ digits, c.isDigit = true) :
    ((digits.filterMap digit?).take 6).all (· == 0) = true ↔ ∀ c ∈ digits.take 6, c = '0' := by
  have hvalues : digits.filterMap digit? = digits.map fun c => c.toNat - '0'.toNat := by
    rw [← List.filterMap_eq_map]
    exact List.filterMap_congr fun c hc => if_pos (hdigits c hc)
  rw [hvalues, ← List.map_take, List.all_map, List.all_eq_true]
  refine forall₂_congr fun c hc => ?_
  have hdigit : digit? c = some (c.toNat - '0'.toNat) := if_pos (hdigits c (List.mem_of_mem_take hc))
  calc (c.toNat - '0'.toNat == 0) = true
      ↔ digit? c = some 0 := by rw [hdigit, Option.some.injEq, beq_iff_eq]
    _ ↔ c = '0' := digit?_eq_some_iff.trans (and_iff_right (by decide))

/-! ## Fractions and offsets -/

theorem fraction?_eq_some {cs rest : List Char} {values : List Nat}
    (h : fraction? cs = some (values, rest)) :
    ∃ digits fraction, WritesFraction digits fraction ∧ cs = fraction ++ rest ∧
      values = digits.filterMap digit? := by
  unfold fraction? at h
  split at h
  · rename_i tail
    split at h
    · exact nomatch h
    · rename_i hdigits
      obtain ⟨rfl, rfl⟩ := Prod.mk.inj (Option.some.inj h)
      refine ⟨tail.takeWhile Char.isDigit, _, .point hdigits ?_, ?_, rfl⟩
      · exact List.all_eq_true.mp List.all_takeWhile
      · rw [List.cons_append, List.takeWhile_append_dropWhile]
  · obtain ⟨rfl, rfl⟩ := Prod.mk.inj (Option.some.inj h)
    exact ⟨[], [], .none, rfl, rfl⟩

/-- No offset goes on with the digits of a fraction, or looks like one. -/
theorem head_of_isOffset {cs : List Char} (h : IsOffset cs) :
    ∃ c rest, cs = c :: rest ∧ c.isDigit = false ∧ c ≠ '.' := by
  cases h with
  | utc => exact ⟨'Z', [], rfl, by decide⟩
  | shifted hsign hhour hminute =>
    refine ⟨_, _, rfl, ?_⟩
    rcases hsign with rfl | rfl
    · decide
    · decide

theorem fraction?_append {digits fraction offset : List Char}
    (hfraction : WritesFraction digits fraction) (hoffset : IsOffset offset) :
    fraction? (fraction ++ offset) = some (digits.filterMap digit?, offset) := by
  obtain ⟨c, rest, rfl, hdigit, hpoint⟩ := head_of_isOffset hoffset
  cases hfraction with
  | none =>
    show fraction? (c :: rest) = _
    unfold fraction?
    split
    · rename_i heq
      exact absurd (List.cons.inj heq).1 hpoint
    · rfl
  | point hne hdigits =>
    rw [List.cons_append, fraction?, Text.takeWhile_append_cons hdigits hdigit,
      Text.dropWhile_append_cons hdigits hdigit]
    split
    · contradiction
    · rfl

/-- An offset is the letter, or two numbers behind a sign. -/
theorem offset?_cases {cs : List Char} {hour minute : Nat}
    (h : offset? cs = some (hour, minute)) :
    (cs = ['Z'] ∧ hour = 0 ∧ minute = 0) ∨
      ∃ sign a b c d, cs = [sign, a, b, ':', c, d] ∧ (sign = '+' ∨ sign = '-') ∧
        pair? a b = some hour ∧ pair? c d = some minute := by
  unfold offset? at h
  split at h
  · obtain ⟨rfl, rfl⟩ := Prod.mk.inj (Option.some.inj h)
    exact .inl ⟨rfl, rfl, rfl⟩
  · rename_i sign a b c d
    simp only [Option.bind_eq_bind, Option.ite_none_right_eq_some, Option.bind_eq_some_iff,
      Option.pure_def, Option.some.injEq, Prod.mk.injEq] at h
    obtain ⟨hsign, _, hfirst, _, hlast, rfl, rfl⟩ := h
    exact .inr ⟨sign, a, b, c, d, rfl, hsign, hfirst, hlast⟩
  · contradiction

theorem isOffset_of_offset? {cs : List Char} {h m : Nat} (hoffset : offset? cs = some (h, m))
    (hhour : h ≤ 23) (hminute : m ≤ 59) : IsOffset cs := by
  obtain ⟨rfl, -⟩ | ⟨sign, a, b, c, d, rfl, hsign, hfirst, hlast⟩ := offset?_cases hoffset
  · exact .utc
  · show IsOffset (sign :: ([a, b] ++ ':' :: [c, d]))
    rw [(pair?_eq_some_iff.mp hfirst).2, (pair?_eq_some_iff.mp hlast).2]
    exact .shifted hsign hhour hminute

theorem exists_offset?_of_isOffset {cs : List Char} (hoffset : IsOffset cs) :
    ∃ h m, offset? cs = some (h, m) ∧ h ≤ 23 ∧ m ≤ 59 := by
  cases hoffset with
  | utc => exact ⟨0, 0, rfl, by decide⟩
  | @shifted sign h m hsign hhour hminute =>
    have hpair := pair?_padded (show h < 100 by omega)
    have hpair' := pair?_padded (show m < 100 by omega)
    refine ⟨h, m, ?_, hhour, hminute⟩
    simp [padded_two, offset?, hsign, hpair, hpair']

/-! ## The whole shape -/

/-- Every number has room in the digits that are written for it. -/
structure HasRoom (t : Timestamp) : Prop where
  year_lt : t.year < 10000
  month_lt : t.month < 100
  day_lt : t.day < 100
  hour_lt : t.hour < 100
  minute_lt : t.minute < 100
  second_lt : t.second < 100

theorem ofChars?_eq_some {cs : List Char} {t : Timestamp} (h : ofChars? cs = some t) :
    ∃ rest offset, t.HasRoom ∧
      cs = timestampText t.year t.month t.day t.hour t.minute t.second rest ∧
      fraction? rest = some (t.fraction, offset) ∧
      offset? offset = some (t.offsetHour, t.offsetMinute) := by
  unfold ofChars? at h
  split at h
  · rename_i rest
    simp only [Option.bind_eq_bind, Option.bind_eq_some_iff, Option.pure_def, Option.some.injEq,
      pair?_eq_some_iff, Prod.exists] at h
    obtain ⟨century, ⟨hcentury, hfirst⟩, yearOfCentury, ⟨hyear, hlast⟩, month, ⟨hmonth', hmonth⟩,
      day, ⟨hday', hday⟩, hour, ⟨hhour', hhour⟩, minute, ⟨hminute', hminute⟩, second,
      ⟨hsecond', hsecond⟩, fraction, offset, hfraction, offsetHour, offsetMinute, hoffset,
      rfl⟩ := h
    have hyear' : 100 * century + yearOfCentury < 10000 := by omega
    refine ⟨rest, offset, ⟨hyear', hmonth', hday', hhour', hminute', hsecond'⟩, ?_, hfraction,
      hoffset⟩
    have hdiv : (100 * century + yearOfCentury) / 100 = century := by omega
    have hmod : (100 * century + yearOfCentury) % 100 = yearOfCentury := by omega
    rw [timestampText, padded_four, hdiv, hmod, ← hfirst, ← hlast, ← hmonth, ← hday, ← hhour,
      ← hminute, ← hsecond]
    rfl
  · exact nomatch h

theorem ofChars?_timestampText {year month day hour minute second offsetHour offsetMinute : Nat}
    (hyear : year < 10000) (hmonth : month < 100) (hday : day < 100) (hhour : hour < 100)
    (hminute : minute < 100) (hsecond : second < 100) {rest offset : List Char}
    {fraction : List Nat} (hfraction : fraction? rest = some (fraction, offset))
    (hoffset : offset? offset = some (offsetHour, offsetMinute)) :
    ofChars? (timestampText year month day hour minute second rest) =
      some ⟨year, month, day, hour, minute, second, fraction, offsetHour, offsetMinute⟩ := by
  have hfirst := pair?_padded (show year / 100 < 100 by omega)
  have hlast := pair?_padded (show year % 100 < 100 by omega)
  have hsum : 100 * (year / 100) + year % 100 = year := by omega
  rw [timestampText, padded_four]
  simp only [padded_two, List.cons_append, List.nil_append, ofChars?, hfirst, hlast,
    pair?_padded hmonth, pair?_padded hday, pair?_padded hhour, pair?_padded hminute,
    pair?_padded hsecond, hfraction, hoffset, Option.bind_eq_bind, Option.bind_some,
    Option.pure_def, hsum]

/-! ## Calendar and clock -/

theorem isLeapYear_iff {year : Nat} :
    isLeapYear year = true ↔ 4 ∣ year ∧ (100 ∣ year → 400 ∣ year) := by
  simp only [isLeapYear, Bool.and_eq_true, Bool.or_eq_true, beq_iff_eq, bne_iff_ne, ne_eq,
    Nat.dvd_iff_mod_eq_zero, imp_iff_not_or]

/-- The table gives every month the days that it is counted with. -/
theorem getElem?_monthLengths {year month : Nat} (hpos : 1 ≤ month) (hle : month ≤ 12) :
    (monthLengths year)[month - 1]? = some (daysInMonth year month) := by
  have htable : ∀ leap : Bool, ∀ month < 13, 1 ≤ month →
      [31, if leap = true then 29 else 28, 31, 30, 31, 30, 31, 31, 30, 31, 30, 31][month - 1]? =
        some (if month = 2 then (if leap = true then 29 else 28)
          else if month = 4 ∨ month = 6 ∨ month = 9 ∨ month = 11 then 30 else 31) := by decide
  simp only [monthLengths, daysInMonth, ← isLeapYear_iff]
  exact htable (isLeapYear year) month (by omega) hpos

theorem isCalendarDate_iff {t : Timestamp} :
    t.isCalendarDate = true ↔ IsDate t.year t.month t.day := by
  simp only [isCalendarDate, Bool.and_eq_true, decide_eq_true_eq]
  constructor
  · rintro ⟨⟨⟨⟨⟨hyear, hyear'⟩, hmonth⟩, hmonth'⟩, hday⟩, hday'⟩
    exact ⟨hyear, hyear', hmonth, hmonth', hday, _, getElem?_monthLengths hmonth hmonth', hday'⟩
  · intro h
    obtain ⟨length, hlength, hday⟩ := h.day_le
    rw [getElem?_monthLengths h.month_pos h.month_le] at hlength
    obtain rfl := Option.some.inj hlength
    exact ⟨⟨⟨⟨⟨h.year_pos, h.year_le⟩, h.month_pos⟩, h.month_le⟩, h.day_pos⟩, hday⟩

theorem day_le_of_isDate {year month day : Nat} (h : IsDate year month day) : day ≤ 31 := by
  obtain ⟨length, hlength, hday⟩ := h.day_le
  have hmem := List.mem_of_getElem? hlength
  have hle : ∀ length ∈ monthLengths year, length ≤ 31 := by
    unfold monthLengths
    split
    · decide
    · decide
  exact Nat.le_trans hday (hle length hmem)

theorem isClockTime_iff {t : Timestamp} {digits : List Char}
    (hdigits : ∀ c ∈ digits, c.isDigit = true) (hfraction : t.fraction = digits.filterMap digit?) :
    t.isClockTime = true ↔ t.minute ≤ 59 ∧ t.second ≤ 59 ∧
      (t.hour ≤ 23 ∨ EndsDay t.hour t.minute t.second digits ∧
        ¬(t.year = 9999 ∧ t.month = 12 ∧ t.day = 31)) := by
  have hends : t.isEndOfDay = true ↔ EndsDay t.hour t.minute t.second digits := by
    rw [isEndOfDay, hfraction, Bool.and_eq_true, all_take_filterMap_digit?_iff hdigits]
    simp only [Bool.and_eq_true, beq_iff_eq]
    exact ⟨fun ⟨⟨⟨hhour, hminute⟩, hsecond⟩, hsharp⟩ => ⟨hhour, hminute, hsecond, hsharp⟩,
      fun h => ⟨⟨⟨h.hour_eq, h.minute_eq⟩, h.second_eq⟩, h.sharp⟩⟩
  have hlast : (!t.isLastDate) = true ↔ ¬(t.year = 9999 ∧ t.month = 12 ∧ t.day = 31) := by
    rw [isLastDate, Bool.not_eq_true', ← Bool.not_eq_true]
    simp only [Bool.and_eq_true, beq_iff_eq, and_assoc]
  rw [isClockTime]
  simp only [Bool.and_eq_true, Bool.or_eq_true, decide_eq_true_eq, hends, hlast, and_assoc]

end Timestamp

theorem isDigit_of_writesFraction {digits fraction : List Char}
    (h : WritesFraction digits fraction) : ∀ c ∈ digits, c.isDigit = true := by
  cases h with
  | none => exact nofun
  | point hne hdigits => exact hdigits

open Timestamp

/-- A text that passes is written as a timestamp is. -/
theorem exists_timestampText_of_isDateTime {s : String} (h : isDateTime s = true) :
    ∃ year month day hour minute second digits fraction offset,
      s.toList = timestampText year month day hour minute second (fraction ++ offset) ∧
      WritesFraction digits fraction ∧ IsOffset offset ∧ IsDate year month day ∧
      minute ≤ 59 ∧ second ≤ 59 ∧
      (hour ≤ 23 ∨ EndsDay hour minute second digits ∧
        ¬(year = 9999 ∧ month = 12 ∧ day = 31)) := by
  unfold isDateTime at h
  split at h
  · rename_i t ht
    simp only [Bool.and_eq_true, isOffset, decide_eq_true_eq] at h
    obtain ⟨⟨hdate, hclock⟩, hhour, hminute⟩ := h
    obtain ⟨rest, offset, -, htext, hfraction, hoffset⟩ := ofChars?_eq_some ht
    obtain ⟨digits, fraction, hwrites, rfl, hvalues⟩ := fraction?_eq_some hfraction
    have htime := (isClockTime_iff (isDigit_of_writesFraction hwrites) hvalues).mp hclock
    exact ⟨t.year, t.month, t.day, t.hour, t.minute, t.second, digits, fraction, offset, htext,
      hwrites, isOffset_of_offset? hoffset hhour hminute, isCalendarDate_iff.mp hdate, htime⟩
  · exact nomatch h

/-- **What a timestamp is.** A text is a timestamp exactly if it is a date and a time, each number
with all its digits, a fraction of one or more digits or none, and `Z` or an offset, and nothing
else; if the calendar has the date, and if a clock shows the time: any up to the last second of the
day, or hour twenty-four sharp where a next day follows. -/
theorem isDateTime_iff {s : String} :
    isDateTime s = true ↔
      ∃ year month day hour minute second digits fraction offset,
        s.toList = timestampText year month day hour minute second (fraction ++ offset) ∧
        WritesFraction digits fraction ∧ IsOffset offset ∧ IsDate year month day ∧
        minute ≤ 59 ∧ second ≤ 59 ∧
        (hour ≤ 23 ∨ EndsDay hour minute second digits ∧
          ¬(year = 9999 ∧ month = 12 ∧ day = 31)) := by
  constructor
  · exact exists_timestampText_of_isDateTime
  · rintro ⟨year, month, day, hour, minute, second, digits, fraction, offset, htext, hwrites,
      hoffset, hdate, hminute, hsecond, htime⟩
    have hyear := hdate.year_le
    have hmonth := hdate.month_le
    have hday := day_le_of_isDate hdate
    have hhour : hour ≤ 24 := by
      rcases htime with hhour | ⟨hends, -⟩
      · omega
      · exact Nat.le_of_eq hends.hour_eq
    obtain ⟨offsetHour, offsetMinute, hread, hoffsetHour, hoffsetMinute⟩ :=
      exists_offset?_of_isOffset hoffset
    let t : Timestamp := ⟨year, month, day, hour, minute, second, digits.filterMap digit?,
      offsetHour, offsetMinute⟩
    have ht : ofChars? s.toList = some t := by
      rw [htext]
      exact ofChars?_timestampText (by omega) (by omega) (by omega) (by omega) (by omega)
        (by omega) (fraction?_append hwrites hoffset) hread
    have hcalendar : t.isCalendarDate = true := isCalendarDate_iff.mpr hdate
    have hclock : t.isClockTime = true :=
      (isClockTime_iff (isDigit_of_writesFraction hwrites) rfl).mpr ⟨hminute, hsecond, htime⟩
    have hshift : t.isOffset = true := by simp [t, isOffset, hoffsetHour, hoffsetMinute]
    rw [isDateTime, ht]
    simp only [hcalendar, hclock, hshift, Bool.and_self]

end SampleSchema.Format
