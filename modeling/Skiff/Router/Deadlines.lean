import Mathlib.Data.Nat.Digits.Lemmas

/-!
# Deadlines as text

`format_iso8601_now_plus` and `civil_from_days` of `router/src/supervisor/ws.rs`, and the parser of
`router/src/health/time.rs` that reads such texts. The date of a day count is that of the calendar
that goes on day by day, and a deadline before the year 10000 is read back to the millisecond.
-/

namespace Skiff.Router

open List

/-! ## The calendar -/

structure CivilDate where
  year : Int
  month : Int
  day : Int
deriving DecidableEq

/-- The proleptic Gregorian rule. -/
def IsLeap (year : Int) : Prop := year % 4 = 0 ∧ (year % 100 ≠ 0 ∨ year % 400 = 0)

instance (year : Int) : Decidable (IsLeap year) := inferInstanceAs (Decidable (_ ∧ _))

def monthLength (year month : Int) : Int :=
  if month = 2 then if IsLeap year then 29 else 28
  else if month = 4 ∨ month = 6 ∨ month = 9 ∨ month = 11 then 30
  else 31

namespace CivilDate

structure Valid (date : CivilDate) : Prop where
  month : 1 ≤ date.month ∧ date.month ≤ 12
  day : 1 ≤ date.day ∧ date.day ≤ monthLength date.year date.month

def next (date : CivilDate) : CivilDate :=
  if date.day < monthLength date.year date.month then ⟨date.year, date.month, date.day + 1⟩
  else if date.month < 12 then ⟨date.year, date.month + 1, 1⟩
  else ⟨date.year + 1, 1, 1⟩

/-- The date is so many days after the first of January 1970, or before it. -/
inductive Distance : Int → CivilDate → Prop
  | epoch : Distance 0 ⟨1970, 1, 1⟩
  | after {n : Int} {date : CivilDate} : Distance n date → Distance (n + 1) date.next
  | before {n : Int} {date : CivilDate} : date.Valid → Distance (n + 1) date.next → Distance n date

end CivilDate

/-- `civil_from_days`; divisions are those of `i64`. -/
def civilFromDays (days : Int) : CivilDate :=
  let days := days + 719468
  let era := (if 0 ≤ days then days else days - 146096).tdiv 146097
  let dayOfEra := days - era * 146097
  let yearOfEra := (dayOfEra - dayOfEra.tdiv 1460 + dayOfEra.tdiv 36524 -
    dayOfEra.tdiv 146096).tdiv 365
  let year := yearOfEra + era * 400
  let dayOfYear := dayOfEra - (365 * yearOfEra + yearOfEra.tdiv 4 - yearOfEra.tdiv 100)
  let monthPrime := (5 * dayOfYear + 2).tdiv 153
  let day := dayOfYear - (153 * monthPrime + 2).tdiv 5 + 1
  let month := monthPrime + if monthPrime < 10 then 3 else -9
  ⟨year + (if month ≤ 2 then 1 else 0), month, day⟩

namespace CivilDate

/-- The year that a date is in when years start in March. -/
def adjustedYear (date : CivilDate) : Int := if date.month ≤ 2 then date.year - 1 else date.year

/-- The month of a date, counted from March. -/
def monthPrime (date : CivilDate) : Int :=
  if 2 < date.month then date.month - 3 else date.month + 9

end CivilDate

/-- The count of `days_from_civil`, before it is checked for its range. -/
def civilDays (date : CivilDate) : Int :=
  let year := date.adjustedYear
  let era := (if 0 ≤ year then year else year - 399).tdiv 400
  let yearOfEra := year - era * 400
  let dayOfYear := (153 * date.monthPrime + 2).tdiv 5 + date.day - 1
  let dayOfEra := yearOfEra * 365 + yearOfEra.tdiv 4 - yearOfEra.tdiv 100 + dayOfYear
  era * 146097 + dayOfEra - 719468

/-! ## Divisions -/

theorem tdiv_of_nonneg {a b : Int} (h : 0 ≤ a) : a.tdiv b = a / b := Int.tdiv_eq_ediv_of_nonneg h

/-- The division of both functions that rounds down. -/
theorem era_eq {a b : Int} (hb : 0 < b) : (if 0 ≤ a then a else a - (b - 1)).tdiv b = a / b := by
  split
  case isTrue h => exact tdiv_of_nonneg h
  case isFalse h =>
    have hneg : a - (b - 1) = -(b - 1 - a) := by omega
    have hmod := Int.mul_ediv_add_emod a b
    have hlo := Int.emod_nonneg a hb.ne'
    have hhi := Int.emod_lt_of_pos a hb
    have hsplit : b - 1 - a = (b - 1 - a % b) + b * -(a / b) := by
      rw [mul_neg]
      omega
    rw [hneg, Int.neg_tdiv, tdiv_of_nonneg (by omega), hsplit, Int.add_mul_ediv_left _ _ hb.ne',
      Int.ediv_eq_zero_of_lt (by omega) (by omega)]
    omega

/-- A day of an era, by the year of the era and the day of the year, which start in March. -/
structure EraDay (yearOfEra dayOfYear : Int) : Prop where
  year : 0 ≤ yearOfEra ∧ yearOfEra < 400
  day : 0 ≤ dayOfYear ∧ dayOfYear ≤ 365
  last : dayOfYear = 365 → yearOfEra % 4 = 3 ∧ (yearOfEra % 100 ≠ 99 ∨ yearOfEra = 399)

variable {yearOfEra dayOfYear dayOfEra : Int}

theorem EraDay.year_eq (h : EraDay yearOfEra dayOfYear)
    (hday : dayOfEra = yearOfEra * 365 + yearOfEra / 4 - yearOfEra / 100 + dayOfYear) :
    0 ≤ dayOfEra ∧ dayOfEra < 146097 ∧
      (dayOfEra - dayOfEra / 1460 + dayOfEra / 36524 - dayOfEra / 146096) / 365 = yearOfEra := by
  obtain ⟨⟨hyear, hyear'⟩, ⟨hfirst, hlast⟩, hleap⟩ := h
  generalize hfour : yearOfEra / 4 = four at *
  generalize hcentury : yearOfEra / 100 = century at *
  have hleap' : dayOfYear ≤ 364 ∨
      four * 4 + 3 = yearOfEra ∧ (yearOfEra - 100 * century < 99 ∨ yearOfEra = 399) := by omega
  clear hleap
  have hbounds : 0 ≤ dayOfEra ∧ dayOfEra < 146097 := by omega
  generalize hg : dayOfEra / 36524 = centuries at *
  have hyears : 365 * yearOfEra ≤ dayOfEra - dayOfEra / 1460 + centuries - dayOfEra / 146096 ∧
      dayOfEra - dayOfEra / 1460 + centuries - dayOfEra / 146096 < 365 * yearOfEra + 365 := by
    have hcases : century = 0 ∨ century = 1 ∨ century = 2 ∨ century = 3 := by omega
    -- each century has its own number of leap days
    obtain rfl | rfl | rfl | rfl := hcases
    · have hnear : centuries = 0 ∨ centuries = 1 := by omega
      constructor <;> omega
    · have hnear : centuries = 1 := by omega
      constructor <;> omega
    · have hnear : centuries = 2 := by omega
      constructor <;> omega
    have hnear : centuries = 3 ∨ centuries = 4 := by omega
    constructor <;> omega
  exact ⟨hbounds.1, hbounds.2, by omega⟩

/-! ## Dates and day counts -/

namespace CivilDate

variable {date : CivilDate} {n : Int}

def marchDay (date : CivilDate) : Int := (153 * date.monthPrime + 2) / 5 + date.day - 1

theorem Valid.monthPrime (h : date.Valid) : 0 ≤ date.monthPrime ∧ date.monthPrime ≤ 11 := by
  obtain ⟨⟨hmonth, hmonth'⟩, -⟩ := h
  rw [CivilDate.monthPrime]
  split <;> omega

theorem Valid.marchDay (h : date.Valid) : EraDay (date.adjustedYear % 400) date.marchDay ∧
    (5 * date.marchDay + 2) / 153 = date.monthPrime := by
  obtain ⟨⟨hmonth, hmonth'⟩, hday, hday'⟩ := h
  obtain ⟨year, month, day⟩ := date
  have hmarch : (CivilDate.marchDay ⟨year, month, day⟩ = 365 → IsLeap year ∧ month ≤ 2) ∧
      (0 ≤ CivilDate.marchDay ⟨year, month, day⟩ ∧ CivilDate.marchDay ⟨year, month, day⟩ ≤ 365) ∧
      (5 * CivilDate.marchDay ⟨year, month, day⟩ + 2) / 153 =
        CivilDate.monthPrime ⟨year, month, day⟩ := by
    dsimp only at *
    simp only [monthLength, IsLeap] at hday'
    simp only [CivilDate.marchDay, CivilDate.monthPrime, IsLeap]
    interval_cases month <;> simp at hday' ⊢ <;> omega
  obtain ⟨hlast, hrange, hprime⟩ := hmarch
  refine ⟨⟨by omega, hrange, fun heq => ?_⟩, hprime⟩
  obtain ⟨⟨hfour, hcentury⟩, hfeb⟩ := hlast heq
  have hyear : CivilDate.adjustedYear ⟨year, month, day⟩ = year - 1 := if_pos hfeb
  omega

theorem Valid.civilDays_eq (h : date.Valid) : civilDays date = date.adjustedYear / 400 * 146097 +
    (date.adjustedYear % 400 * 365 + date.adjustedYear % 400 / 4 - date.adjustedYear % 400 / 100 +
      date.marchDay) - 719468 := by
  have hprime := h.monthPrime
  have hera : (if 0 ≤ date.adjustedYear then date.adjustedYear else
      date.adjustedYear - 399).tdiv 400 = date.adjustedYear / 400 := era_eq (b := 400) (by decide)
  have hyear : date.adjustedYear - date.adjustedYear / 400 * 400 = date.adjustedYear % 400 := by
    omega
  simp only [civilDays, hera, hyear]
  rw [tdiv_of_nonneg (by omega), tdiv_of_nonneg (by omega), tdiv_of_nonneg (by omega)]
  rfl

/-- Whole years before a March, in days. -/
theorem Valid.civilDays_closed (h : date.Valid) : civilDays date =
    365 * date.adjustedYear + date.adjustedYear / 4 - date.adjustedYear / 100 +
      date.adjustedYear / 400 + date.marchDay - 719468 := by
  have hdays := h.civilDays_eq
  omega

theorem Valid.next (h : date.Valid) :
    date.next.Valid ∧ civilDays date.next = civilDays date + 1 := by
  have hdays := h.civilDays_closed
  obtain ⟨⟨hmonth, hmonth'⟩, hday, hday'⟩ := h
  obtain ⟨year, month, day⟩ := date
  dsimp only at hmonth hmonth' hday hday'
  rw [CivilDate.next]
  have hlength : ∀ month, 28 ≤ monthLength year month := by
    intro month
    rw [monthLength]
    split_ifs <;> decide
  split
  case isTrue hlt =>
    have hvalid : Valid ⟨year, month, day + 1⟩ := ⟨⟨hmonth, hmonth'⟩, by dsimp only; omega, hlt⟩
    refine ⟨hvalid, ?_⟩
    rw [hvalid.civilDays_closed, hdays]
    simp only [CivilDate.marchDay, CivilDate.adjustedYear, CivilDate.monthPrime]
    omega
  case isFalse hlast =>
    dsimp only at hlast
    split
    case isTrue hlt =>
      dsimp only at hlt
      have hvalid : Valid ⟨year, month + 1, 1⟩ :=
        ⟨⟨by dsimp only; omega, hlt⟩, le_refl _, by have := hlength (month + 1); dsimp only; omega⟩
      refine ⟨hvalid, ?_⟩
      rw [hvalid.civilDays_closed, hdays]
      have hfull : day = monthLength year month := by omega
      simp only [monthLength, IsLeap] at hfull
      simp only [CivilDate.marchDay, CivilDate.adjustedYear, CivilDate.monthPrime]
      interval_cases month <;> simp at hfull ⊢ <;> omega
    case isFalse hdecember =>
      dsimp only at hdecember
      obtain rfl : month = 12 := by omega
      have hfull : day = 31 := by
        have hmonth : monthLength year 12 = 31 := rfl
        omega
      have hvalid : Valid ⟨year + 1, 1, 1⟩ :=
        ⟨⟨le_refl _, (by decide : (1 : Int) ≤ 12)⟩, le_refl _, (by decide : (1 : Int) ≤ 31)⟩
      refine ⟨hvalid, ?_⟩
      rw [hvalid.civilDays_closed, hdays]
      simp only [CivilDate.marchDay, CivilDate.adjustedYear, CivilDate.monthPrime]
      simp
      omega

theorem civilFromDays_civilDays (h : date.Valid) : civilFromDays (civilDays date) = date := by
  obtain ⟨hera, hprime⟩ := h.marchDay
  have hmonth := h.monthPrime
  obtain ⟨hlo, hhi, hyear⟩ := hera.year_eq rfl
  have hdays : civilDays date + 719468 = date.adjustedYear / 400 * 146097 +
      (date.adjustedYear % 400 * 365 + date.adjustedYear % 400 / 4 - date.adjustedYear % 400 / 100 +
      date.marchDay) := by rw [h.civilDays_eq, sub_add_cancel]
  generalize hdoe : date.adjustedYear % 400 * 365 + date.adjustedYear % 400 / 4 -
    date.adjustedYear % 400 / 100 + date.marchDay = dayOfEra at *
  have heraOf : (if 0 ≤ civilDays date + 719468 then civilDays date + 719468 else
      civilDays date + 719468 - 146096).tdiv 146097 = date.adjustedYear / 400 := by
    refine (era_eq (b := 146097) (by decide)).trans ?_
    omega
  unfold civilFromDays
  simp only [heraOf]
  rw [hdays, add_sub_cancel_left]
  have hyearOf : (dayOfEra - dayOfEra.tdiv 1460 + dayOfEra.tdiv 36524 -
      dayOfEra.tdiv 146096).tdiv 365 = date.adjustedYear % 400 := by
    simp only [tdiv_of_nonneg hlo]
    rw [tdiv_of_nonneg (by omega), hyear]
  have hdayOf : dayOfEra - (365 * (date.adjustedYear % 400) + (date.adjustedYear % 400).tdiv 4 -
      (date.adjustedYear % 400).tdiv 100) = date.marchDay := by
    rw [tdiv_of_nonneg (by omega), tdiv_of_nonneg (by omega)]
    omega
  have hprimeOf : (5 * date.marchDay + 2).tdiv 153 = date.monthPrime := by
    rw [tdiv_of_nonneg (by have := hera.day; omega), hprime]
  simp only [hyearOf, hdayOf, hprimeOf, tdiv_of_nonneg (by omega : 0 ≤ 153 * date.monthPrime + 2)]
  obtain ⟨⟨hfirst, hlast⟩, -⟩ := h
  have hmonthOf : date.monthPrime + (if date.monthPrime < 10 then 3 else -9) = date.month := by
    rw [CivilDate.monthPrime]
    split <;> split <;> omega
  have hyears : date.adjustedYear + (if date.month ≤ 2 then 1 else 0) = date.year := by
    rw [CivilDate.adjustedYear]
    split <;> omega
  have hmonthDay : date.marchDay - (153 * date.monthPrime + 2) / 5 + 1 = date.day := by
    rw [CivilDate.marchDay]
    omega
  rw [hmonthOf, hmonthDay, Int.emod_add_ediv_mul, hyears]

/-- Every count is that of a valid date: it is reached from the first March of its era. -/
theorem exists_valid (n : Int) : ∃ date, Valid date ∧ civilDays date = n := by
  have hrun : ∀ (start : Int) (m : Nat), (∃ date, Valid date ∧ civilDays date = start) →
      ∃ date, Valid date ∧ civilDays date = start + m := by
    intro start m hstart
    induction m with
    | zero => simpa using hstart
    | succ m ih =>
      obtain ⟨date, hdate, hdays⟩ := ih
      exact ⟨date.next, hdate.next.1, by rw [hdate.next.2, hdays]; omega⟩
  obtain ⟨m, hm⟩ := Int.eq_ofNat_of_zero_le
    (Int.emod_nonneg (n + 719468) (by decide : (146097 : Int) ≠ 0))
  have hmarch : Valid ⟨(n + 719468) / 146097 * 400, 3, 1⟩ :=
    ⟨⟨(by decide : (1 : Int) ≤ 3), (by decide : (3 : Int) ≤ 12)⟩, le_refl _,
      (by decide : (1 : Int) ≤ 31)⟩
  obtain ⟨date, hdate, hdays⟩ := hrun _ m ⟨_, hmarch, rfl⟩
  refine ⟨date, hdate, ?_⟩
  rw [hdays, hmarch.civilDays_closed]
  change 365 * ((n + 719468) / 146097 * 400) + (n + 719468) / 146097 * 400 / 4 -
    (n + 719468) / 146097 * 400 / 100 + (n + 719468) / 146097 * 400 / 400 + 0 - 719468 + m = n
  omega

theorem Valid.civilDays_inj {other : CivilDate} (h : date.Valid) (hother : other.Valid)
    (hdays : civilDays date = civilDays other) : date = other := by
  rw [← civilFromDays_civilDays h, hdays, civilFromDays_civilDays hother]

theorem Distance.civilDays (h : Distance n date) : date.Valid ∧ civilDays date = n := by
  induction h with
  | epoch => exact ⟨⟨⟨by decide, by decide⟩, by decide, by decide⟩, by decide⟩
  | after _ ih => exact ⟨ih.1.next.1, by rw [ih.1.next.2, ih.2]⟩
  | before hvalid _ ih =>
    refine ⟨hvalid, ?_⟩
    have hnext := hvalid.next.2
    omega

theorem Valid.distance (h : date.Valid) : Distance (civilDays date) date := by
  have hepoch := Distance.civilDays .epoch
  suffices hall : ∀ n : Int, ∀ date, Valid date → Skiff.Router.civilDays date = n →
      Distance n date from hall _ date h rfl
  intro n
  induction n using Int.induction_on with
  | zero =>
    intro date h hdays
    obtain rfl := h.civilDays_inj hepoch.1 (hdays.trans hepoch.2.symm)
    exact .epoch
  | succ n ih =>
    intro date h hdays
    obtain ⟨previous, hprevious, hcount⟩ := exists_valid n
    obtain rfl := h.civilDays_inj hprevious.next.1 (by rw [hprevious.next.2, hcount, hdays])
    exact .after (ih previous hprevious hcount)
  | pred n ih =>
    intro date h hdays
    refine .before h ?_
    rw [sub_add_cancel]
    exact ih date.next h.next.1 (by rw [h.next.2, hdays, sub_add_cancel])

end CivilDate

/-- The date of a count is the one that is so many days away. -/
theorem civilFromDays_distance (n : Int) :
    CivilDate.Distance n (civilFromDays n) ∧
      ∀ date, CivilDate.Distance n date → date = civilFromDays n := by
  obtain ⟨date, hdate, rfl⟩ := CivilDate.exists_valid n
  rw [CivilDate.civilFromDays_civilDays hdate]
  refine ⟨hdate.distance, fun other hother => ?_⟩
  exact hother.civilDays.1.civilDays_inj hdate hother.civilDays.2

/-! ## Texts -/

/-- An integer in decimal digits, as bytes, with leading zeros up to a width. -/
def padded (width : Nat) (n : Int) : List Nat :=
  if n < 0 then 45 :: (Nat.digitsAppend 10 (width - 1) n.natAbs).reverse.map (48 + ·)
  else (Nat.digitsAppend 10 width n.toNat).reverse.map (48 + ·)

/-- `format_iso8601_now_plus` for a clock that reads so many nanoseconds after the epoch. -/
def deadlineMillis (nowNanos : Int) (timeoutMs : Nat) : Nat :=
  ((nowNanos + timeoutMs * 1000000).toNat / 1000000) % 2 ^ 64

def formatMillis (millis : Nat) : List Nat :=
  let date := civilFromDays (millis / 86400000 : Nat)
  let millisOfDay := millis % 86400000
  let hour := millisOfDay / 3600000
  let minute := millisOfDay % 3600000 / 60000
  let second := millisOfDay % 60000 / 1000
  padded 4 date.year ++ 45 :: (padded 2 date.month ++ 45 :: (padded 2 date.day ++
    84 :: (padded 2 hour ++ 58 :: (padded 2 minute ++ 58 :: (padded 2 second ++
      46 :: (padded 3 (millisOfDay % 1000 : Nat) ++ [90]))))))

def formatIso8601NowPlus (nowNanos : Int) (timeoutMs : Nat) : List Nat :=
  formatMillis (deadlineMillis nowNanos timeoutMs)

def isAsciiDigit (byte : Nat) : Bool := 48 ≤ byte ∧ byte ≤ 57

def parseFixed (bytes : List Nat) : Option Nat :=
  let value := Nat.ofDigits 10 (bytes.map (· - 48)).reverse
  if bytes.any (! isAsciiDigit ·) ∨ bytes = [] ∨ 2 ^ 32 ≤ value then none else some value

/-- The loop over the digits of a fraction: the milliseconds, the digits read and what is left. -/
def fraction : Nat → Nat → Nat → List Nat → Option (Nat × Nat × List Nat)
  | 0, digits, millis, rest => some (millis, digits, rest)
  | _ + 1, _, _, [] => none
  | left + 1, digits, millis, byte :: rest =>
    if isAsciiDigit byte then
      fraction left (digits + 1) (if digits < 3 then millis * 10 + (byte - 48) else millis) rest
    else some (millis, digits, byte :: rest)

def daysFromCivil (year month day : Nat) : Option Nat :=
  if ¬(1 ≤ month ∧ month ≤ 12) ∨ ¬(1 ≤ day ∧ day ≤ 31) then none
  else
    let days := civilDays ⟨year, month, day⟩
    if 0 ≤ days ∧ days < 2 ^ 32 then some days.toNat else none

/-- `parse_iso_utc_millis` -/
def parseIsoUtcMillis (bytes : List Nat) : Option Nat := do
  if bytes.length < 20 ∨ bytes[4]? ≠ some 45 ∨ bytes[7]? ≠ some 45 ∨ bytes[10]? ≠ some 84 then none
  let year ← parseFixed (bytes.take 4)
  let month ← parseFixed ((bytes.drop 5).take 2)
  let day ← parseFixed ((bytes.drop 8).take 2)
  if bytes[13]? ≠ some 58 ∨ bytes[16]? ≠ some 58 then none
  let hour ← parseFixed ((bytes.drop 11).take 2)
  let minute ← parseFixed ((bytes.drop 14).take 2)
  let second ← parseFixed ((bytes.drop 17).take 2)
  if 23 < hour ∨ 59 < minute ∨ 59 < second then none
  let (millis, rest) ←
    if bytes[19]? = some 46 then do
      let (millis, digits, rest) ← fraction 9 0 0 (bytes.drop 20)
      if digits = 0 then none
      pure (millis * 10 ^ (3 - digits), rest)
    else some (0, bytes.drop 19)
  if rest ≠ [90] then none
  let days ← daysFromCivil year month day
  some (days * 86400000 + hour * 3600000 + minute * 60000 + second * 1000 + millis)

section

variable {width n : Nat}

theorem padded_natCast : padded width n = (Nat.digitsAppend 10 width n).reverse.map (48 + ·) := by
  rw [padded, if_neg (by omega), Int.toNat_natCast]

theorem length_padded (h : n < 10 ^ width) : (padded width n).length = width := by
  rw [padded_natCast, length_map, length_reverse, Nat.length_digitsAppend (by decide) _ h]

theorem isAsciiDigit_of_mem_padded {byte : Nat} (h : byte ∈ padded width n) :
    isAsciiDigit byte = true := by
  rw [padded_natCast, mem_map] at h
  obtain ⟨digit, hdigit, rfl⟩ := h
  have hlt := Nat.lt_of_mem_digitsAppend (by decide) _ _ (mem_reverse.mp hdigit)
  simp only [isAsciiDigit, decide_eq_true_eq]
  omega

theorem ofDigits_padded : Nat.ofDigits 10 ((padded width n).map (· - 48)).reverse = n := by
  have hdigits : ((padded width n).map (· - 48)).reverse = Nat.digitsAppend 10 width n := by
    rw [padded_natCast, map_map, ← map_reverse, reverse_reverse]
    exact (map_congr_left fun digit _ => Nat.add_sub_cancel_left _ _).trans (map_id _)
  rw [hdigits, Nat.digitsAppend, Nat.ofDigits_append_replicate_zero, Nat.ofDigits_digits]

theorem parseFixed_padded (h : n < 10 ^ width) (hwidth : 0 < width) (hsmall : n < 2 ^ 32) :
    parseFixed (padded width n) = some n := by
  rw [parseFixed]
  simp only [ofDigits_padded]
  refine if_neg ?_
  rintro (hany | hnil | hbig)
  · obtain ⟨byte, hmem, hdigit⟩ := any_eq_true.mp hany
    simp [isAsciiDigit_of_mem_padded hmem] at hdigit
  · have hlength := length_padded h
    rw [hnil] at hlength
    exact hwidth.ne hlength
  · omega

end

/-- The three digits after the point. -/
theorem fraction_padded {n : Nat} (h : n < 10 ^ 3) (rest : List Nat) :
    fraction 9 0 0 (padded 3 (n : Nat) ++ 90 :: rest) = some (n, 3, 90 :: rest) := by
  obtain ⟨a, b, c, habc⟩ := length_eq_three.mp (length_padded h)
  have hdigit := fun byte => @isAsciiDigit_of_mem_padded 3 n byte
  have hvalue := @ofDigits_padded 3 n
  rw [habc] at hdigit hvalue ⊢
  simp only [map_cons, map_nil, reverse_cons, reverse_nil, nil_append,
    cons_append, Nat.ofDigits_cons, Nat.ofDigits_nil] at hvalue
  have hend : isAsciiDigit 90 = false := by decide
  simp only [cons_append, nil_append, fraction, hdigit a (by simp), hdigit b (by simp),
    hdigit c (by simp), hend, if_true, Bool.false_eq_true, if_false]
  simp only [Nat.reduceAdd, Nat.reduceLT, if_true]
  congr 2
  omega

/-- A text of a day before the year 10000 is read back. -/
theorem parseIsoUtcMillis_formatMillis {millis : Nat}
    (h : (civilFromDays (millis / 86400000 : Nat)).year < 10000) :
    parseIsoUtcMillis (formatMillis millis) = some millis := by
  obtain ⟨hvalid, hdays⟩ := (civilFromDays_distance (millis / 86400000 : Nat)).1.civilDays
  simp only [formatMillis]
  generalize civilFromDays (millis / 86400000 : Nat) = date at *
  have hclosed := hvalid.civilDays_closed
  obtain ⟨hfirst, hlast⟩ := hvalid.marchDay.1.day
  have hyears : date.adjustedYear = date.year ∨ date.adjustedYear = date.year - 1 := by
    rw [CivilDate.adjustedYear]
    split
    case isTrue => exact .inr rfl
    case isFalse => exact .inl rfl
  obtain ⟨hmonth, hday⟩ := hvalid
  have hlength : monthLength date.year date.month ≤ 31 := by
    rw [monthLength]
    split_ifs <;> decide
  obtain ⟨y, hy⟩ := Int.eq_ofNat_of_zero_le (by omega : 0 ≤ date.year)
  obtain ⟨m, hm⟩ := Int.eq_ofNat_of_zero_le (by omega : 0 ≤ date.month)
  obtain ⟨d, hd⟩ := Int.eq_ofNat_of_zero_le (by omega : 0 ≤ date.day)
  have hcivil : daysFromCivil y m d = some (millis / 86400000) := by
    rw [daysFromCivil, if_neg (by omega), ← hy, ← hm, ← hd]
    simp only [hdays, Int.toNat_natCast]
    exact if_pos (by omega)
  rw [hy, hm, hd]
  have htwo {n : Nat} (hn : n < 60) : ∃ a b, padded 2 n = [a, b] ∧ parseFixed [a, b] = some n := by
    obtain ⟨a, b, hab⟩ := length_eq_two.mp (length_padded (by omega : n < 10 ^ 2))
    exact ⟨a, b, hab, hab ▸ parseFixed_padded (by omega) (by decide) (by omega)⟩
  obtain ⟨y₀, y₁, y₂, y₃, hyear⟩ := length_eq_four.mp (length_padded (by omega : y < 10 ^ 4))
  have hyearOf := hyear ▸ parseFixed_padded (by omega : y < 10 ^ 4) (by decide) (by omega)
  obtain ⟨m₀, m₁, hmonth, hmonthOf⟩ := htwo (by omega : m < 60)
  obtain ⟨d₀, d₁, hday, hdayOf⟩ := htwo (by omega : d < 60)
  generalize hhours : millis % 86400000 / 3600000 = hours
  generalize hminutes : millis % 86400000 % 3600000 / 60000 = minutes
  generalize hseconds : millis % 86400000 % 60000 / 1000 = seconds
  generalize hthousandths : millis % 86400000 % 1000 = thousandths
  obtain ⟨h₀, h₁, hhour, hhourOf⟩ := htwo (by omega : hours < 60)
  obtain ⟨i₀, i₁, hminute, hminuteOf⟩ := htwo (by omega : minutes < 60)
  obtain ⟨s₀, s₁, hsecond, hsecondOf⟩ := htwo (by omega : seconds < 60)
  have hfraction := fraction_padded (by omega : thousandths < 10 ^ 3) []
  rw [hyear, hmonth, hday, hhour, hminute, hsecond, parseIsoUtcMillis]
  have hhourLe : ¬23 < hours := by omega
  have hminuteLe : ¬59 < minutes := by omega
  have hsecondLe : ¬59 < seconds := by omega
  simp [hyearOf, hmonthOf, hdayOf, hhourOf, hminuteOf, hsecondOf, hfraction, hcivil, hhourLe,
    hminuteLe, hsecondLe]
  omega

/-- A day count has one date, and a deadline before the year 10000 is read back to the
millisecond. -/
theorem deadline_reads_back :
    (∀ n, (civilFromDays n).Valid ∧ CivilDate.Distance n (civilFromDays n) ∧
      ∀ date, CivilDate.Distance n date → date = civilFromDays n) ∧
    ∀ nowNanos timeoutMs,
      (civilFromDays (deadlineMillis nowNanos timeoutMs / 86400000 : Nat)).year < 10000 →
      parseIsoUtcMillis (formatIso8601NowPlus nowNanos timeoutMs) =
        some (deadlineMillis nowNanos timeoutMs) := by
  refine ⟨fun n => ?_, fun nowNanos timeoutMs h => parseIsoUtcMillis_formatMillis h⟩
  have hdistance := civilFromDays_distance n
  exact ⟨hdistance.1.civilDays.1, hdistance⟩

/-- Thirty seconds after the second of August 2026. -/
theorem deadline_reads_back_instance :
    (civilFromDays (deadlineMillis 1785628800123000000 30000 / 86400000 : Nat)).year = 2026 ∧
      parseIsoUtcMillis (formatIso8601NowPlus 1785628800123000000 30000) = some 1785628830123 :=
  ⟨by decide, deadline_reads_back.2 1785628800123000000 30000 (by decide)⟩

end Skiff.Router
