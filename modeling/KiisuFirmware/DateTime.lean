import KiisuFirmware.Word

/-!
# Dates and times

Of `datetime.c`. Where the code reads its table of months beside its rows, there is no result.
-/

namespace KiisuFirmware

def SECONDS_PER_MINUTE : ℕ := 60

def SECONDS_PER_HOUR : ℕ := SECONDS_PER_MINUTE * 60

def SECONDS_PER_DAY : ℕ := SECONDS_PER_HOUR * 24

def EPOCH_START_YEAR : ℕ := 1970

structure DateTime where
  hour : UInt8
  minute : UInt8
  second : UInt8
  day : UInt8
  month : UInt8
  year : UInt16
  weekday : UInt8
  deriving DecidableEq

def datetimeDaysPerMonth : Bool → List ℕ
  | false => [31, 28, 31, 30, 31, 30, 31, 31, 30, 31, 30, 31]
  | true => [31, 29, 31, 30, 31, 30, 31, 31, 30, 31, 30, 31]

def datetimeIsLeapYear (year : ℕ) : Bool :=
  (year % 4 == 0 && year % 100 != 0) || year % 400 == 0

def datetimeGetDaysPerYear (year : ℕ) : ℕ := if datetimeIsLeapYear year then 366 else 365

def datetimeGetDaysPerMonth (leapYear : Bool) (month : ℕ) : Option ℕ :=
  if month = 0 then none else (datetimeDaysPerMonth leapYear)[month - 1]?

def datetimeValidateDatetime (datetime : DateTime) : Bool :=
  let invalid := decide (datetime.second > 59) || decide (datetime.minute > 59) ||
    decide (datetime.hour > 23) || decide (datetime.year < 2000) ||
    decide (datetime.year > 2099) || datetime.month == 0 || decide (datetime.month > 12) ||
    datetime.day == 0 || decide (datetime.day > 31) || datetime.weekday == 0 ||
    decide (datetime.weekday > 7)
  !invalid

/-! ## To a timestamp -/

/-- The years that are not leap years before some year and those that are, each in eight bits. -/
def datetimeCountYears (year : ℕ) : ℕ × ℕ :=
  (List.range' EPOCH_START_YEAR (year - EPOCH_START_YEAR)).foldl (fun counts y =>
    if datetimeIsLeapYear y then (counts.1, (counts.2 + 1) % 2 ^ 8)
    else ((counts.1 + 1) % 2 ^ 8, counts.2)) (0, 0)

/-- A timestamp is in 32 bits, and so is what is added to it. -/
def datetimeAdd (timestamp : ℕ) (seconds : ℤ) : ℕ := sizeT (timestamp + int32 seconds)

def datetimeAddMonths (leapYear : Bool) (month timestamp : ℕ) : Option ℕ :=
  (List.range' 1 (month - 1)).foldlM (fun timestamp m => do
    let days ← datetimeGetDaysPerMonth leapYear m
    some (datetimeAdd timestamp (days * SECONDS_PER_DAY))) timestamp

def datetimeDatetimeToTimestamp (datetime : DateTime) : Option ℕ := do
  let counts := datetimeCountYears datetime.year.toNat
  let timestamp := datetimeAdd 0 ((counts.1 * 365 + counts.2 * 366) * SECONDS_PER_DAY)
  let leapYear := datetimeIsLeapYear datetime.year.toNat
  let timestamp ← datetimeAddMonths leapYear datetime.month.toNat timestamp
  let timestamp := datetimeAdd timestamp ((datetime.day.toNat - 1 : ℤ) * SECONDS_PER_DAY)
  let timestamp := datetimeAdd timestamp (datetime.hour.toNat * SECONDS_PER_HOUR)
  let timestamp := datetimeAdd timestamp (datetime.minute.toNat * SECONDS_PER_MINUTE)
  some (datetimeAdd timestamp datetime.second.toNat)

/-! ## From a timestamp -/

theorem datetimeGetDaysPerYear_pos (year : ℕ) : 0 < datetimeGetDaysPerYear year := by
  unfold datetimeGetDaysPerYear
  split <;> norm_num

/-- The days that are left when all years that are over are taken off, and the year then. -/
def datetimeTakeYears (days year : ℕ) : ℕ × ℕ :=
  if datetimeGetDaysPerYear year ≤ days then
    datetimeTakeYears (days - datetimeGetDaysPerYear year) ((year + 1) % 2 ^ 16)
  else (days, year)
termination_by days
decreasing_by
  have hpos := datetimeGetDaysPerYear_pos year
  omega

theorem month_le_of_getDaysPerMonth {leapYear : Bool} {month days : ℕ}
    (h : datetimeGetDaysPerMonth leapYear month = some days) : 1 ≤ month ∧ month ≤ 12 := by
  unfold datetimeGetDaysPerMonth at h
  split at h
  · cases h
  · have hlength := (List.getElem?_eq_some_iff.1 h).1
    have htwelve : (datetimeDaysPerMonth leapYear).length = 12 := by cases leapYear <;> rfl
    omega

def datetimeTakeMonths (leapYear : Bool) (days month : ℕ) : Option (ℕ × ℕ) :=
  match h : datetimeGetDaysPerMonth leapYear month with
  | none => none
  | some perMonth =>
    if perMonth ≤ days then datetimeTakeMonths leapYear (days - perMonth) (month + 1)
    else some (days, month)
termination_by 13 - month
decreasing_by
  have hmonth := month_le_of_getDaysPerMonth h
  omega

def datetimeTimestampToDatetime (timestamp : ℕ) : Option DateTime := do
  let days := timestamp / SECONDS_PER_DAY
  let secondsInDay := timestamp % SECONDS_PER_DAY
  let years := datetimeTakeYears days EPOCH_START_YEAR
  let months ← datetimeTakeMonths (datetimeIsLeapYear years.2) years.1 1
  some
    { hour := .ofNat (secondsInDay / SECONDS_PER_HOUR)
      minute := .ofNat (secondsInDay % SECONDS_PER_HOUR / SECONDS_PER_MINUTE)
      second := .ofNat (secondsInDay % SECONDS_PER_MINUTE)
      day := .ofNat (months.1 + 1)
      month := .ofNat months.2
      year := .ofNat years.2
      weekday := .ofNat ((days + 3) % 7 + 1) }

end KiisuFirmware
