import KiisuFirmware.DateTime
import KiisuFirmware.Periods

/-!
# Timestamps and dates

A day is in a year, a month of it and a day of this, and a second of it in an hour and a minute: each
time it is a count that falls into one of the periods that follow one another. A date that exists
determines its timestamp, a timestamp its date, and what is later has the later date.
-/

namespace KiisuFirmware

open Periods

/-! ## Years and months -/

/-- The lengths of the years, the first of which is that of the epoch. -/
def yearLen (i : ℕ) : ℕ := datetimeGetDaysPerYear (EPOCH_START_YEAR + i)

/-- The lengths of the months of a year. -/
def monthLen (leapYear : Bool) (i : ℕ) : ℕ := (datetimeDaysPerMonth leapYear).getD i 31

theorem yearLen_bounds (i : ℕ) : 365 ≤ yearLen i ∧ yearLen i ≤ 366 := by
  unfold yearLen datetimeGetDaysPerYear
  split <;> norm_num

theorem start_yearLen_le (n : ℕ) : start yearLen n ≤ n * 366 := by
  have hsum := Finset.sum_le_card_nsmul (Finset.range n) yearLen 366 fun i _ => (yearLen_bounds i).2
  simpa [start] using hsum

theorem getDaysPerMonth_succ (leapYear : Bool) {m : ℕ} (h : m < 12) :
    datetimeGetDaysPerMonth leapYear (m + 1) = some (monthLen leapYear m) := by
  have htwelve : (datetimeDaysPerMonth leapYear).length = 12 := by cases leapYear <;> rfl
  rw [datetimeGetDaysPerMonth, if_neg (Nat.succ_ne_zero m), Nat.add_sub_cancel, monthLen,
    List.getD_eq_getElem?_getD, List.getElem?_eq_getElem (by omega), Option.getD_some]

theorem start_monthLen (year : ℕ) :
    start (monthLen (datetimeIsLeapYear year)) 12 = datetimeGetDaysPerYear year := by
  unfold datetimeGetDaysPerYear
  cases datetimeIsLeapYear year <;> rfl

theorem takeYears_at {x n r : ℕ} (hx : start yearLen n + r = x) (hbound : x < 2 ^ 16) :
    ∃ m s, datetimeTakeYears r (EPOCH_START_YEAR + n) = (s, EPOCH_START_YEAR + m) ∧
      At yearLen x m s := by
  by_cases h : yearLen n ≤ r
  · have hshort := mul_le_start (fun i => (yearLen_bounds i).1) n
    have hfits : (EPOCH_START_YEAR + n + 1) % 2 ^ 16 = EPOCH_START_YEAR + (n + 1) := by
      refine (Nat.mod_eq_of_lt ?_).trans (Nat.add_assoc _ _ _)
      rw [EPOCH_START_YEAR]
      omega
    have hpos := (yearLen_bounds n).1
    obtain ⟨m, s, htake, hat⟩ := @takeYears_at x (n + 1) (r - yearLen n)
      (by rw [start_succ]; omega) hbound
    refine ⟨m, s, ?_, hat⟩
    rw [datetimeTakeYears, show datetimeGetDaysPerYear (EPOCH_START_YEAR + n) = yearLen n from rfl,
      if_pos h, hfits]
    exact htake
  · refine ⟨n, r, ?_, hx, not_le.1 h⟩
    rw [datetimeTakeYears]
    exact if_neg h
termination_by r

theorem takeMonths_at {leapYear : Bool} {x m r : ℕ} (hx : start (monthLen leapYear) m + r = x)
    (hbound : x < start (monthLen leapYear) 12) :
    ∃ n s, datetimeTakeMonths leapYear r (m + 1) = some (s, n + 1) ∧ n < 12 ∧
      At (monthLen leapYear) x n s := by
  have hm : m < 12 := by
    by_contra hge
    have hmono := @start_mono (monthLen leapYear) 12 m (not_lt.1 hge)
    omega
  have hlen := getDaysPerMonth_succ leapYear hm
  rw [datetimeTakeMonths]
  split
  · rename_i hnone
    rw [hlen] at hnone
    cases hnone
  · rename_i perMonth hsome
    obtain rfl : monthLen leapYear m = perMonth := Option.some.inj (hlen.symm.trans hsome)
    by_cases h : monthLen leapYear m ≤ r
    · rw [if_pos h]
      exact takeMonths_at (by rw [start_succ]; omega) hbound
    · rw [if_neg h]
      exact ⟨m, r, rfl, hm, hx, not_le.1 h⟩
termination_by 12 - m

/-! ## Dates that exist -/

namespace DateTime

/-- All but the day of the week, the most significant first. -/
def fields (datetime : DateTime) : List ℕ :=
  [datetime.year.toNat, datetime.month.toNat, datetime.day.toNat, datetime.hour.toNat,
    datetime.minute.toNat, datetime.second.toNat]

/-- There is such a day, at or after the epoch, and such a time of day. -/
structure Exists (datetime : DateTime) : Prop where
  year : EPOCH_START_YEAR ≤ datetime.year.toNat
  month : 1 ≤ datetime.month.toNat ∧ datetime.month.toNat ≤ 12
  day : 1 ≤ datetime.day.toNat ∧ ∃ days,
    datetimeGetDaysPerMonth (datetimeIsLeapYear datetime.year.toNat) datetime.month.toNat =
      some days ∧ datetime.day.toNat ≤ days
  hour : datetime.hour.toNat < 24
  minute : datetime.minute.toNat < 60
  second : datetime.second.toNat < 60

variable (datetime : DateTime)

def dayOfYear : ℕ :=
  start (monthLen (datetimeIsLeapYear datetime.year.toNat)) (datetime.month.toNat - 1) +
    (datetime.day.toNat - 1)

def dayNumber : ℕ := start yearLen (datetime.year.toNat - EPOCH_START_YEAR) + datetime.dayOfYear

def secondOfHour : ℕ := datetime.minute.toNat * SECONDS_PER_MINUTE + datetime.second.toNat

def secondOfDay : ℕ := datetime.hour.toNat * SECONDS_PER_HOUR + datetime.secondOfHour

def seconds : ℕ := datetime.dayNumber * SECONDS_PER_DAY + datetime.secondOfDay

variable {datetime} {other : DateTime}

namespace Exists

variable (h : datetime.Exists)
include h

theorem day_at : At (monthLen (datetimeIsLeapYear datetime.year.toNat)) datetime.dayOfYear
    (datetime.month.toNat - 1) (datetime.day.toNat - 1) := by
  refine ⟨rfl, ?_⟩
  obtain ⟨hpos, days, hdays, hle⟩ := h.day
  have hmonth := h.month
  have hlen := @getDaysPerMonth_succ (datetimeIsLeapYear datetime.year.toNat)
    (datetime.month.toNat - 1) (by omega)
  rw [Nat.sub_add_cancel hmonth.1, hdays] at hlen
  have hsame := Option.some.inj hlen
  omega

theorem dayOfYear_at :
    At yearLen datetime.dayNumber (datetime.year.toNat - EPOCH_START_YEAR) datetime.dayOfYear := by
  refine ⟨rfl, ?_⟩
  have hday := h.day_at
  have hmonth := h.month
  have hover := @start_add_len_le (monthLen (datetimeIsLeapYear datetime.year.toNat))
    (datetime.month.toNat - 1) 12 (by omega)
  rw [start_monthLen] at hover
  rw [yearLen, Nat.add_sub_cancel' h.year]
  have hstart := hday.start_add
  have hless := hday.lt_len
  omega

theorem second_at : At (fun _ => SECONDS_PER_MINUTE) datetime.secondOfHour datetime.minute.toNat
    datetime.second.toNat :=
  .of_mul_add h.second

theorem minute_at : At (fun _ => SECONDS_PER_HOUR) datetime.secondOfDay datetime.hour.toNat
    datetime.secondOfHour := by
  refine .of_mul_add ?_
  have hminute := h.minute
  have hsecond := h.second
  simp only [secondOfHour, SECONDS_PER_MINUTE, SECONDS_PER_HOUR]
  omega

theorem secondOfDay_at :
    At (fun _ => SECONDS_PER_DAY) datetime.seconds datetime.dayNumber datetime.secondOfDay := by
  refine .of_mul_add ?_
  have hhour := h.hour
  have hless := h.minute_at.lt_len
  simp only [secondOfDay, SECONDS_PER_DAY, SECONDS_PER_HOUR, SECONDS_PER_MINUTE] at hless ⊢
  omega

theorem date_eq (hother : other.Exists) (hdays : datetime.dayNumber = other.dayNumber) :
    datetime.year.toNat = other.year.toNat ∧ datetime.month.toNat = other.month.toNat ∧
      datetime.day.toNat = other.day.toNat := by
  have hdayOfYear := h.dayOfYear_at
  rw [hdays] at hdayOfYear
  obtain ⟨hyears, hdayOfYear⟩ := hdayOfYear.unique hother.dayOfYear_at
  have hepoch := h.year
  have hepoch' := hother.year
  have hyear : datetime.year.toNat = other.year.toNat := by omega
  have hday := h.day_at
  rw [hdayOfYear, hyear] at hday
  obtain ⟨hmonths, hdaysOfMonth⟩ := hday.unique hother.day_at
  have hmonth := h.month
  have hmonth' := hother.month
  have hpos := h.day.1
  have hpos' := hother.day.1
  exact ⟨hyear, by omega, by omega⟩

theorem date_lt (hother : other.Exists) (hdays : datetime.dayNumber < other.dayNumber) :
    datetime.year.toNat < other.year.toNat ∨ datetime.year.toNat = other.year.toNat ∧
      (datetime.month.toNat < other.month.toNat ∨ datetime.month.toNat = other.month.toNat ∧
        datetime.day.toNat < other.day.toNat) := by
  have hepoch := h.year
  have hepoch' := hother.year
  obtain hyears | ⟨hyears, hdayOfYear⟩ := h.dayOfYear_at.lt_or hother.dayOfYear_at hdays
  · exact .inl (by omega)
  have hyear : datetime.year.toNat = other.year.toNat := by omega
  have hday := h.day_at
  rw [hyear] at hday
  have hmonth := h.month
  have hmonth' := hother.month
  have hpos := h.day.1
  have hpos' := hother.day.1
  obtain hmonths | ⟨hmonths, hdaysOfMonth⟩ := hday.lt_or hother.day_at hdayOfYear
  · exact .inr ⟨hyear, .inl (by omega)⟩
  · exact .inr ⟨hyear, .inr ⟨by omega, by omega⟩⟩

theorem time_eq (hother : other.Exists) (hsecond : datetime.secondOfDay = other.secondOfDay) :
    datetime.hour.toNat = other.hour.toNat ∧ datetime.minute.toNat = other.minute.toNat ∧
      datetime.second.toNat = other.second.toNat := by
  have hhour := h.minute_at
  rw [hsecond] at hhour
  obtain ⟨hhour, hsecondOfHour⟩ := hhour.unique hother.minute_at
  have hminute := h.second_at
  rw [hsecondOfHour] at hminute
  exact ⟨hhour, hminute.unique hother.second_at⟩

theorem time_lt (hother : other.Exists) (hsecond : datetime.secondOfDay < other.secondOfDay) :
    datetime.hour.toNat < other.hour.toNat ∨ datetime.hour.toNat = other.hour.toNat ∧
      (datetime.minute.toNat < other.minute.toNat ∨
        datetime.minute.toNat = other.minute.toNat ∧
          datetime.second.toNat < other.second.toNat) := by
  obtain hhour | ⟨hhour, hsecondOfHour⟩ := h.minute_at.lt_or hother.minute_at hsecond
  · exact .inl hhour
  · exact .inr ⟨hhour, h.second_at.lt_or hother.second_at hsecondOfHour⟩

theorem fields_eq (hother : other.Exists) (hseconds : datetime.seconds = other.seconds) :
    datetime.fields = other.fields := by
  have hday := h.secondOfDay_at
  rw [hseconds] at hday
  obtain ⟨hdays, hsecond⟩ := hday.unique hother.secondOfDay_at
  obtain ⟨hyear, hmonth, hday⟩ := h.date_eq hother hdays
  obtain ⟨hhour, hminute, hsecond⟩ := h.time_eq hother hsecond
  rw [fields, fields, hyear, hmonth, hday, hhour, hminute, hsecond]

theorem fields_lt (hother : other.Exists) (hseconds : datetime.seconds < other.seconds) :
    datetime.fields < other.fields := by
  simp only [fields, List.cons_lt_cons_iff]
  obtain hdays | ⟨hdays, hsecond⟩ := h.secondOfDay_at.lt_or hother.secondOfDay_at hseconds
  · rcases h.date_lt hother hdays with hyear | ⟨hyear, hmonth | ⟨hmonth, hday⟩⟩
    · exact .inl hyear
    · exact .inr ⟨hyear, .inl hmonth⟩
    · exact .inr ⟨hyear, .inr ⟨hmonth, .inl hday⟩⟩
  · obtain ⟨hyear, hmonth, hday⟩ := h.date_eq hother hdays
    refine .inr ⟨hyear, .inr ⟨hmonth, .inr ⟨hday, ?_⟩⟩⟩
    rcases h.time_lt hother hsecond with hhour | ⟨hhour, hminute | ⟨hminute, hsecond⟩⟩
    · exact .inl hhour
    · exact .inr ⟨hhour, .inl hminute⟩
    · exact .inr ⟨hhour, .inr ⟨hminute, .inl hsecond⟩⟩

end Exists

end DateTime

/-! ## From a timestamp -/

theorem monthLen_le (leapYear : Bool) (m : ℕ) : monthLen leapYear m ≤ 31 := by
  have hall : ∀ days ∈ datetimeDaysPerMonth leapYear, days ≤ 31 := by cases leapYear <;> decide
  rw [monthLen, List.getD_eq_getElem?_getD]
  rcases hdays : (datetimeDaysPerMonth leapYear)[m]? with _ | days
  · exact le_rfl
  · exact hall days (List.mem_of_getElem? hdays)

theorem timestampToDatetime_exists {t : ℕ} (h : t < 2 ^ 32) :
    ∃ datetime, datetimeTimestampToDatetime t = some datetime ∧ datetime.Exists ∧
      datetime.seconds = t ∧ datetime.weekday.toNat = (t / SECONDS_PER_DAY + 3) % 7 + 1 := by
  have hdays : t / SECONDS_PER_DAY < 2 ^ 16 := by
    simp only [SECONDS_PER_DAY, SECONDS_PER_HOUR, SECONDS_PER_MINUTE]
    omega
  obtain ⟨n, dayOfYear, htakeYears, hyear⟩ :=
    @takeYears_at _ 0 (t / SECONDS_PER_DAY) (Nat.zero_add _) hdays
  have hless := hyear.lt_len
  rw [yearLen, ← start_monthLen] at hless
  obtain ⟨m, dayOfMonth, htakeMonths, hm, hmonth⟩ :=
    @takeMonths_at _ _ 0 dayOfYear (Nat.zero_add _) hless
  have hyears := mul_le_start (fun i => (yearLen_bounds i).1) n
  have hstart := hyear.start_add
  have hlen := monthLen_le (datetimeIsLeapYear (EPOCH_START_YEAR + n)) m
  have hdom := hmonth.lt_len
  obtain ⟨datetime, hdatetime, hy, hmo, hd, hh, hmi, hs, hw⟩ : ∃ datetime,
      datetimeTimestampToDatetime t = some datetime ∧
      datetime.year.toNat = EPOCH_START_YEAR + n ∧ datetime.month.toNat = m + 1 ∧
      datetime.day.toNat = dayOfMonth + 1 ∧
      datetime.hour.toNat = t % SECONDS_PER_DAY / SECONDS_PER_HOUR ∧
      datetime.minute.toNat =
        t % SECONDS_PER_DAY % SECONDS_PER_HOUR / SECONDS_PER_MINUTE ∧
      datetime.second.toNat = t % SECONDS_PER_DAY % SECONDS_PER_MINUTE ∧
      datetime.weekday.toNat = (t / SECONDS_PER_DAY + 3) % 7 + 1 := by
    refine ⟨⟨.ofNat _, .ofNat _, .ofNat _, .ofNat _, .ofNat _, .ofNat _, .ofNat _⟩, ?_,
      UInt16.toNat_ofNat_of_lt' ?_, UInt8.toNat_ofNat_of_lt' ?_,
      UInt8.toNat_ofNat_of_lt' ?_, UInt8.toNat_ofNat_of_lt' ?_, UInt8.toNat_ofNat_of_lt' ?_,
      UInt8.toNat_ofNat_of_lt' ?_, UInt8.toNat_ofNat_of_lt' ?_⟩
    · simp only [datetimeTimestampToDatetime, Option.bind_eq_bind]
      rw [show EPOCH_START_YEAR = EPOCH_START_YEAR + 0 from rfl, htakeYears]
      rw [show datetimeTakeMonths _ _ 1 = _ from htakeMonths]
      rfl
    all_goals
      simp only [SECONDS_PER_DAY, SECONDS_PER_HOUR, SECONDS_PER_MINUTE, EPOCH_START_YEAR,
        UInt8.size, UInt16.size]
      omega
  have hexists : datetime.Exists :=
    { year := hy ▸ Nat.le_add_right _ _
      month := by omega
      day := ⟨by omega, monthLen (datetimeIsLeapYear (EPOCH_START_YEAR + n)) m,
        by rw [hy, hmo]; exact getDaysPerMonth_succ _ hm, by omega⟩
      hour := by rw [hh]; simp only [SECONDS_PER_DAY, SECONDS_PER_HOUR, SECONDS_PER_MINUTE]; omega
      minute := by rw [hmi]; simp only [SECONDS_PER_DAY, SECONDS_PER_HOUR, SECONDS_PER_MINUTE]; omega
      second := by rw [hs]; exact Nat.mod_lt _ (by decide) }
  refine ⟨datetime, hdatetime, hexists, ?_, hw⟩
  have hdayOfYear : datetime.dayOfYear = dayOfYear := by
    rw [DateTime.dayOfYear, hy, hmo, hd, Nat.add_sub_cancel, Nat.add_sub_cancel, hmonth.start_add]
  rw [DateTime.seconds, DateTime.dayNumber, hdayOfYear, hy, Nat.add_sub_cancel_left,
    hyear.start_add, DateTime.secondOfDay, DateTime.secondOfHour, hh, hmi, hs]
  simp only [SECONDS_PER_DAY, SECONDS_PER_HOUR, SECONDS_PER_MINUTE]
  omega

/-! ## To a timestamp -/

theorem datetimeAdd_eq (timestamp : ℕ) (seconds : ℤ) :
    datetimeAdd timestamp seconds = sizeT (timestamp + seconds) := by
  have hbmod : seconds.bmod (2 ^ 32) % 2 ^ 32 = seconds % 2 ^ 32 := Int.bmod_emod
  rw [datetimeAdd, sizeT, sizeT, int32_eq_bmod, Int.add_emod, hbmod, ← Int.add_emod]

theorem countYears_add : ∀ {n : ℕ}, n ≤ 255 → ∃ a b, a + b = n ∧
    datetimeCountYears (EPOCH_START_YEAR + n) = (a, b) ∧ a * 365 + b * 366 = start yearLen n
  | 0, _ => ⟨0, 0, rfl, rfl, rfl⟩
  | n + 1, h => by
    obtain ⟨a, b, hn, hcount, hdays⟩ := countYears_add (Nat.le_of_succ_le h)
    rw [datetimeCountYears, Nat.add_sub_cancel_left] at hcount ⊢
    rw [List.range'_1_concat, List.foldl_append, hcount, List.foldl_cons, List.foldl_nil,
      start_succ, ← hdays, yearLen, datetimeGetDaysPerYear]
    clear hcount hdays
    cases datetimeIsLeapYear (EPOCH_START_YEAR + n)
    · refine ⟨a + 1, b, by omega, ?_, by rw [if_neg Bool.false_ne_true, Nat.add_mul]; omega⟩
      rw [if_neg Bool.false_ne_true, Nat.mod_eq_of_lt (by omega)]
    · refine ⟨a, b + 1, by omega, ?_, by rw [if_pos rfl, Nat.add_mul]; omega⟩
      rw [if_pos rfl, Nat.mod_eq_of_lt (by omega)]

theorem addMonths_add (leapYear : Bool) {timestamp : ℕ} (ht : timestamp < 2 ^ 32) :
    ∀ {m : ℕ}, m < 12 → datetimeAddMonths leapYear (m + 1) timestamp =
      some (sizeT (timestamp + start (monthLen leapYear) m * SECONDS_PER_DAY))
  | 0, _ => by simp [datetimeAddMonths, sizeT_natCast ht]
  | m + 1, h => by
    have hmonths := addMonths_add leapYear ht (Nat.lt_of_succ_lt h)
    rw [datetimeAddMonths, Nat.add_sub_cancel] at hmonths ⊢
    rw [List.range'_1_concat, List.foldlM_append, hmonths, Nat.add_comm 1 m]
    simp only [Option.bind_eq_bind, Option.bind_some, List.foldlM_cons, List.foldlM_nil,
      getDaysPerMonth_succ leapYear (Nat.lt_of_succ_lt h), Option.pure_def, datetimeAdd_eq,
      sizeT_sizeT_add, start_succ]
    congr 2
    push_cast
    ring

theorem DateTime.Exists.datetimeToTimestamp {datetime : DateTime} (h : datetime.Exists)
    (hyear : datetime.year.toNat ≤ EPOCH_START_YEAR + 255) :
    datetimeDatetimeToTimestamp datetime = some (sizeT datetime.seconds) := by
  have hepoch := h.year
  obtain ⟨a, b, -, hcount, hdays⟩ :=
    @countYears_add (datetime.year.toNat - EPOCH_START_YEAR) (by omega)
  rw [Nat.add_sub_cancel' hepoch] at hcount
  have hmonths := fun timestamp ht =>
    @addMonths_add (datetimeIsLeapYear datetime.year.toNat) timestamp ht (datetime.month.toNat - 1)
      (by have hmonth := h.month; omega)
  have hday := h.day.1
  rw [Nat.sub_add_cancel h.month.1] at hmonths
  rw [datetimeDatetimeToTimestamp]
  simp only [hcount, Option.bind_eq_bind]
  rw [hmonths (datetimeAdd _ _) (sizeT_lt _)]
  simp only [Option.bind_some, datetimeAdd_eq, add_assoc, sizeT_sizeT_add]
  rw [DateTime.seconds, DateTime.dayNumber, ← hdays, DateTime.dayOfYear, DateTime.secondOfDay,
    DateTime.secondOfHour]
  clear hdays hmonths hcount
  have hdays' : ((datetime.day.toNat - 1 : ℕ) : ℤ) = datetime.day.toNat - 1 := Nat.cast_sub hday
  generalize start (monthLen (datetimeIsLeapYear datetime.year.toNat)) _ = months
  congr 2
  push_cast
  rw [hdays']
  ring

/-! ## There and back -/

/-- This is the date of a timestamp: it exists, it has the timestamp again, its day of the week is
followed by the next one a day later, and what is later has a later date. -/
structure IsDateOf (datetime : DateTime) (t : UInt32) : Prop where
  dateExists : datetime.Exists
  timestamp : datetimeDatetimeToTimestamp datetime = some t.toNat
  weekday : 1 ≤ datetime.weekday.toNat ∧ datetime.weekday.toNat ≤ 7
  nextWeekday : ∀ next : UInt32, next.toNat = t.toNat + SECONDS_PER_DAY → ∃ tomorrow,
    datetimeTimestampToDatetime next.toNat = some tomorrow ∧
      tomorrow.weekday.toNat = datetime.weekday.toNat % 7 + 1
  later : ∀ later : UInt32, t < later → ∃ laterDatetime,
    datetimeTimestampToDatetime later.toNat = some laterDatetime ∧
      datetime.fields < laterDatetime.fields

theorem year_le_of_seconds_lt {datetime : DateTime} (h : datetime.seconds < 2 ^ 32) :
    datetime.year.toNat ≤ EPOCH_START_YEAR + 255 := by
  have hyears := mul_le_start (fun i => (yearLen_bounds i).1)
    (datetime.year.toNat - EPOCH_START_YEAR)
  rw [DateTime.seconds, DateTime.dayNumber] at h
  simp only [SECONDS_PER_DAY, SECONDS_PER_HOUR, SECONDS_PER_MINUTE] at h
  omega

theorem timestampToDatetime_isDateOf (t : UInt32) :
    ∃ datetime, datetimeTimestampToDatetime t.toNat = some datetime ∧ IsDateOf datetime t := by
  obtain ⟨datetime, hdatetime, hexists, hseconds, hweekday⟩ :=
    timestampToDatetime_exists t.toNat_lt
  have htimestamp := hexists.datetimeToTimestamp (year_le_of_seconds_lt (hseconds ▸ t.toNat_lt))
  rw [hseconds, sizeT_natCast t.toNat_lt] at htimestamp
  refine ⟨datetime, hdatetime, hexists, htimestamp, by omega, ?_, ?_⟩
  · intro next hnext
    obtain ⟨tomorrow, htomorrow, -, -, hday⟩ := timestampToDatetime_exists next.toNat_lt
    refine ⟨tomorrow, htomorrow, ?_⟩
    rw [hday, hweekday, hnext, Nat.add_div_right _ (by decide)]
    omega
  · intro later hlater
    obtain ⟨laterDatetime, hlaterDatetime, hexists', hseconds', -⟩ :=
      timestampToDatetime_exists later.toNat_lt
    refine ⟨laterDatetime, hlaterDatetime, hexists.fields_lt hexists' ?_⟩
    rw [hseconds, hseconds']
    exact UInt32.lt_iff_toNat_lt.1 hlater

/-! ## Dates that are accepted -/

namespace DateTime

/-- Date and time come back from the timestamp. -/
def RoundTrips (datetime : DateTime) : Prop :=
  ∃ timestamp back, datetimeDatetimeToTimestamp datetime = some timestamp ∧
    datetimeTimestampToDatetime timestamp = some back ∧ back.fields = datetime.fields

/-- The month has such a day. -/
def MonthHasDay (datetime : DateTime) : Prop :=
  ∃ days, datetimeGetDaysPerMonth (datetimeIsLeapYear datetime.year.toNat) datetime.month.toNat =
    some days ∧ datetime.day.toNat ≤ days

theorem validate_ranges {datetime : DateTime} (h : datetimeValidateDatetime datetime = true) :
    (datetime.second.toNat < 60 ∧ datetime.minute.toNat < 60 ∧ datetime.hour.toNat < 24) ∧
      (2000 ≤ datetime.year.toNat ∧ datetime.year.toNat ≤ 2099) ∧
      (1 ≤ datetime.month.toNat ∧ datetime.month.toNat ≤ 12) ∧ 1 ≤ datetime.day.toNat := by
  simp only [datetimeValidateDatetime, Bool.not_eq_true', Bool.or_eq_false_iff,
    beq_eq_false_iff_ne, decide_eq_false_iff_not, gt_iff_lt, UInt8.lt_iff_toNat_lt,
    UInt16.lt_iff_toNat_lt, ne_eq, ← UInt8.toNat_inj, UInt8.toNat_ofNat, UInt16.toNat_ofNat] at h
  omega

theorem exists_iff_of_validate {datetime : DateTime}
    (h : datetimeValidateDatetime datetime = true) : datetime.Exists ↔ MonthHasDay datetime := by
  obtain ⟨⟨hsecond, hminute, hhour⟩, hyear, hmonth, hday⟩ := validate_ranges h
  refine ⟨fun hexists => hexists.day.2, fun hhas => ?_⟩
  exact
    { year := le_trans (by decide) hyear.1
      month := hmonth
      day := ⟨hday, hhas⟩
      hour := hhour
      minute := hminute
      second := hsecond }

theorem seconds_lt_of_year_le {datetime : DateTime} (h : datetime.Exists)
    (hyear : datetime.year.toNat ≤ 2099) : datetime.seconds < 2 ^ 32 := by
  have hyears := start_yearLen_le (datetime.year.toNat - EPOCH_START_YEAR)
  have hdayOfYear := h.dayOfYear_at.lt_len
  have hlen := (yearLen_bounds (datetime.year.toNat - EPOCH_START_YEAR)).2
  have hsecond := h.secondOfDay_at.lt_len
  rw [DateTime.seconds, DateTime.dayNumber]
  simp only [SECONDS_PER_DAY, SECONDS_PER_HOUR, SECONDS_PER_MINUTE, EPOCH_START_YEAR] at *
  omega

theorem exists_congr {datetime back : DateTime} (h : back.Exists)
    (hfields : back.fields = datetime.fields) : datetime.Exists := by
  simp only [DateTime.fields, List.cons.injEq, and_true] at hfields
  obtain ⟨hyear, hmonth, hday, hhour, hminute, hsecond⟩ := hfields
  exact
    { year := hyear ▸ h.year
      month := hmonth ▸ h.month
      day := by
        have hback := h.day
        rwa [hyear, hmonth, hday] at hback
      hour := hhour ▸ h.hour
      minute := hminute ▸ h.minute
      second := hsecond ▸ h.second }

theorem datetimeToTimestamp_lt {datetime : DateTime} {timestamp : ℕ}
    (h : datetimeDatetimeToTimestamp datetime = some timestamp) : timestamp < 2 ^ 32 := by
  simp only [datetimeDatetimeToTimestamp, Option.bind_eq_bind, Option.bind_eq_some_iff,
    Option.some.injEq] at h
  obtain ⟨-, -, rfl⟩ := h
  exact sizeT_lt _

theorem roundTrips_of_exists {datetime : DateTime} (h : datetime.Exists)
    (hyear : datetime.year.toNat ≤ 2099) :
    datetimeDatetimeToTimestamp datetime = some datetime.seconds ∧ RoundTrips datetime := by
  have hlt := seconds_lt_of_year_le h hyear
  have hto := h.datetimeToTimestamp (year_le_of_seconds_lt hlt)
  rw [sizeT_natCast hlt] at hto
  obtain ⟨back, hback, hexists, hseconds, -⟩ := timestampToDatetime_exists hlt
  exact ⟨hto, _, back, hto, hback, hexists.fields_eq h hseconds⟩

theorem exists_of_roundTrips {datetime : DateTime} (h : RoundTrips datetime) :
    datetime.Exists := by
  obtain ⟨timestamp, back, hto, hback, hfields⟩ := h
  obtain ⟨back', hback', hexists, -, -⟩ := timestampToDatetime_exists (datetimeToTimestamp_lt hto)
  obtain rfl : back' = back := Option.some.inj (hback'.symm.trans hback)
  exact exists_congr hexists hfields

/-- A date that is accepted comes back if its month has such a day, and no two of these have one
timestamp. -/
theorem validate_roundTrips_iff {datetime : DateTime}
    (h : datetimeValidateDatetime datetime = true) :
    (RoundTrips datetime ↔ MonthHasDay datetime) ∧
      ∀ other, datetimeValidateDatetime other = true → MonthHasDay datetime → MonthHasDay other →
        datetimeDatetimeToTimestamp datetime = datetimeDatetimeToTimestamp other →
          datetime.fields = other.fields := by
  have hyear := (validate_ranges h).2.1.2
  refine ⟨⟨fun hback => ?_, fun hhas => ?_⟩, fun other hother hhas hhas' hsame => ?_⟩
  · exact (exists_iff_of_validate h).1 (exists_of_roundTrips hback)
  · exact (roundTrips_of_exists ((exists_iff_of_validate h).2 hhas) hyear).2
  · have hexists := (exists_iff_of_validate h).2 hhas
    have hexists' := (exists_iff_of_validate hother).2 hhas'
    have hto := (roundTrips_of_exists hexists hyear).1
    have hto' := (roundTrips_of_exists hexists' (validate_ranges hother).2.1.2).1
    rw [hto, hto'] at hsame
    exact hexists.fields_eq hexists' (Option.some.inj hsame)

def february29 : DateTime where
  hour := 12
  minute := 0
  second := 0
  day := 29
  month := 2
  year := 2000
  weekday := 2

theorem validate_roundTrips_iff_february29 : RoundTrips february29 :=
  (validate_roundTrips_iff (by decide)).1.2 ⟨29, rfl, by decide⟩

def february30 : DateTime := { february29 with day := 30, weekday := 3 }

def march1 : DateTime := { february29 with day := 1, month := 3, weekday := 3 }

set_option maxRecDepth 20000 in
/-- The first of March is accepted with two dates. -/
theorem not_validate_roundTrips :
    datetimeValidateDatetime february30 = true ∧ datetimeValidateDatetime march1 = true ∧
      ¬RoundTrips february30 ∧
      datetimeDatetimeToTimestamp february30 = datetimeDatetimeToTimestamp march1 ∧
      february30.fields ≠ march1.fields := by
  refine ⟨by decide, by decide, fun hback => ?_, by decide, by decide⟩
  obtain ⟨-, days, hdays, hle⟩ := (exists_of_roundTrips hback).day
  obtain rfl : 29 = days := Option.some.inj hdays
  exact absurd hle (by decide)

end DateTime

end KiisuFirmware
