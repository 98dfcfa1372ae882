import OctCommu.Lib.Calendar
import OctCommu.Lib.Memory

/-! # `no_locks_localtime`

The time zone and the flag of the daylight saving time were read by `local_time_init`.
Division is that of the source, towards zero; the fields are `int`s.
-/
namespace OctCommu.Util
open Calendar Memory

structure Tm where
  tm_isdst : ℤ
  tm_hour : ℤ
  tm_min : ℤ
  tm_sec : ℤ
  tm_gmtoff : ℤ
  tm_wday : ℤ
  tm_year : ℤ
  tm_yday : ℤ
  tm_mon : ℕ
  tm_mday : ℤ
  deriving DecidableEq

namespace LocalTime

def is_leap_year (year : ℤ) : ℤ :=
  if year % 4 ≠ 0 then 0 else if year % 100 ≠ 0 then 1 else if year % 400 ≠ 0 then 0 else 1

theorem is_leap_year_eq (year : ℤ) : is_leap_year year = leap year := by
  unfold is_leap_year leap
  split_ifs <;> omega

/-- The year and the days into it; there is no behaviour past the last `int`. -/
def yearLoop (days tm_year : ℤ) : Option (ℤ × ℤ) :=
  if days < 365 + is_leap_year tm_year then some (tm_year,days)
  else if tm_year = 2147483647 then none
  else yearLoop (days - (365 + is_leap_year tm_year)) (tm_year + 1)
termination_by days.toNat
decreasing_by
  have hleap := leap_cases tm_year
  rw [← is_leap_year_eq] at hleap
  omega

/-- The month and the days into it; `none` reads past `mdays`. -/
def monthLoop : List ℤ → ℤ → ℕ → Option (ℕ × ℤ)
  | [], _, _ => none
  | m :: mdays, days, tm_mon =>
    if m ≤ days then monthLoop mdays (days - m) (tm_mon + 1) else some (tm_mon,days)

def no_locks_localtime (_current_timezone _daylight_active t : ℤ) : Option Tm :=
  let t := t - _current_timezone + 3600 * _daylight_active
  let days := t.tdiv 86400
  let seconds := t.tmod 86400
  (yearLoop days 1970).bind fun y =>
    (monthLoop [31,28 + is_leap_year y.1,31,30,31,30,31,31,30,31,30,31] y.2 0).map fun m =>
      { tm_isdst := _daylight_active
        tm_hour := seconds.tdiv 3600
        tm_min := (seconds.tmod 3600).tdiv 60
        tm_sec := (seconds.tmod 3600).tmod 60
        tm_gmtoff := -_current_timezone
        tm_wday := (days + 4).tmod 7
        tm_year := y.1 - 1900
        tm_yday := toInt32 y.2
        tm_mon := m.1
        tm_mday := toInt32 (m.2 + 1) }

end LocalTime

def Tm.date (tm : Tm) : Date := ⟨tm.tm_year + 1900,tm.tm_mon,tm.tm_mday⟩

structure Tm.Valid (tm : Tm) : Prop where
  date : tm.date.Valid
  hour : 0 ≤ tm.tm_hour ∧ tm.tm_hour < 24
  min : 0 ≤ tm.tm_min ∧ tm.tm_min < 60
  sec : 0 ≤ tm.tm_sec ∧ tm.tm_sec < 60

/-- The fields are those of the stamp `t` in the zone; the epoch began on a Thursday. -/
structure Tm.Describes (tm : Tm) (_current_timezone _daylight_active t : ℤ) : Prop extends tm.Valid where
  stamp : ((tm.date.days * 24 + tm.tm_hour) * 60 + tm.tm_min) * 60 + tm.tm_sec =
    t - _current_timezone + 3600 * _daylight_active
  yday : tm.tm_yday = tm.date.yearDay
  wday : tm.tm_wday = (tm.date.days + 4) % 7
  zone : tm.tm_isdst = _daylight_active ∧ tm.tm_gmtoff = -_current_timezone

namespace LocalTime

theorem yearLoop_eq (days tm_year : ℤ) (hyear : tm_year ≤ 2147483647) (hdays : 0 ≤ days) :
    (daysBefore tm_year + days < daysBefore 2147483648 → ∃ y d, yearLoop days tm_year = some (y,d) ∧
      daysBefore y + d = daysBefore tm_year + days ∧ 0 ≤ d ∧ d < 365 + leap y) ∧
    (daysBefore 2147483648 ≤ daysBefore tm_year + days → yearLoop days tm_year = none) := by
  induction days, tm_year using yearLoop.induct with
  | case1 days tm_year hshort =>
    rw [yearLoop, if_pos hshort]
    rw [is_leap_year_eq] at hshort
    refine ⟨fun _ => ⟨_,_,rfl,rfl,hdays,hshort⟩,fun hlong => ?_⟩
    have hle := daysBefore_lt (show tm_year < 2147483648 by omega)
    omega
  | case2 days hlong =>
    rw [yearLoop, if_neg hlong, if_pos rfl]
    rw [is_leap_year_eq] at hlong
    have hsucc := daysBefore_succ 2147483647
    refine ⟨fun hlt => ?_,fun _ => rfl⟩
    rw [show (2147483647 : ℤ) + 1 = 2147483648 by rfl] at hsucc
    omega
  | case3 days tm_year hlong hne ih =>
    have hsucc := daysBefore_succ tm_year
    have hyear' : tm_year + 1 ≤ 2147483647 := by
      clear ih
      omega
    have hdays' : 0 ≤ days - (365 + is_leap_year tm_year) := by
      clear ih
      omega
    have heq : daysBefore (tm_year + 1) + (days - (365 + is_leap_year tm_year)) = daysBefore tm_year + days := by
      rw [is_leap_year_eq, hsucc]
      clear ih
      omega
    rw [yearLoop, if_neg hlong, if_neg hne, ← heq]
    exact ih hyear' hdays'

theorem monthLoop_eq (ls : List ℤ) (days : ℤ) (tm_mon : ℕ) (hdays : 0 ≤ days) (hlt : days < ls.sum) :
    ∃ k d, monthLoop ls days tm_mon = some (tm_mon + k,d) ∧ (ls.take k).sum + d = days ∧ 0 ≤ d ∧ d < ls.getD k 0 := by
  induction ls generalizing days tm_mon with
  | nil =>
    rw [List.sum_nil] at hlt
    omega
  | cons m ls ih =>
    rw [List.sum_cons] at hlt
    by_cases hm : m ≤ days
    · obtain ⟨k,d,heq,hsum,hpos,hd⟩ := ih (days - m) (tm_mon + 1) (by omega) (by omega)
      refine ⟨k + 1,d,?_,?_,hpos,hd⟩
      · rw [monthLoop, if_pos hm, heq]
        congr 2
        omega
      · rw [List.take_succ_cons, List.sum_cons]
        omega
    · exact ⟨0,days,by rw [monthLoop, if_neg hm]; rfl,by simp,hdays,by rw [List.getD_cons_zero]; omega⟩

/-- From 1970 to the last year that is an `int`. -/
def InRange (t : ℤ) : Prop := 0 ≤ t ∧ t < 86400 * daysBefore 2147483648

/-- A midnight so long before 1970 that the day of the month, cut to an `int`, is one of January. -/
def Wraps (t : ℤ) : Prop := t < 0 ∧ t % 86400 = 0 ∧ t / 86400 % 4294967296 ≤ 30

variable {_current_timezone _daylight_active t : ℤ} {tm : Tm}

theorem exists_describes (h : InRange (t - _current_timezone + 3600 * _daylight_active)) :
    ∃ tm, no_locks_localtime _current_timezone _daylight_active t = some tm ∧
      tm.Describes _current_timezone _daylight_active t := by
  obtain ⟨hpos,hlt⟩ := h
  unfold no_locks_localtime
  generalize hT : t - _current_timezone + 3600 * _daylight_active = T at hpos hlt
  dsimp only
  have hdays : 0 ≤ T / 86400 := by omega
  have hzero : daysBefore 1970 = 0 := by decide
  rw [Int.tdiv_eq_ediv_of_nonneg hpos, Int.tmod_eq_emod_of_nonneg hpos]
  obtain ⟨y,d,hyear,hsum,hd,hdlt⟩ := (yearLoop_eq (T / 86400) 1970 (by decide) hdays).1 (by omega)
  obtain ⟨k,r,hmonth,hrest,hr,hrlt⟩ := monthLoop_eq (monthLengths y) d 0 hd (by rw [sum_monthLengths]; exact hdlt)
  rw [hyear, Option.bind_some, is_leap_year_eq]
  rw [monthLengths] at hmonth
  rw [hmonth, Option.map_some, zero_add]
  have hs : 0 ≤ T % 86400 := by omega
  have hs' : 0 ≤ T % 86400 % 3600 := by omega
  rw [Int.tdiv_eq_ediv_of_nonneg hs, Int.tmod_eq_emod_of_nonneg hs, Int.tdiv_eq_ediv_of_nonneg hs',
    Int.tmod_eq_emod_of_nonneg hs', Int.tmod_eq_emod_of_nonneg (by omega : 0 ≤ T / 86400 + 4)]
  have hyd : Date.yearDay ⟨y,k,r + 1⟩ = d := by
    unfold Date.yearDay
    dsimp only
    omega
  have hdate : Date.days ⟨y,k,r + 1⟩ = T / 86400 := by
    unfold Date.days
    rw [hyd]
    dsimp only
    omega
  have htm : (⟨y - 1900 + 1900,k,r + 1⟩ : Date) = ⟨y,k,r + 1⟩ := by rw [sub_add_cancel]
  have hleap := leap_cases y
  have hlow := sum_take_nonneg y k
  rw [toInt32_of_lt (by omega) (by omega), toInt32_of_lt (by omega) (by omega)]
  refine ⟨_,rfl,⟨⟨?_,?_,?_,?_⟩,?_,?_,?_,rfl,rfl⟩⟩
  · rw [Tm.date, htm]
    refine ⟨?_,?_⟩ <;> dsimp only <;> omega
  · dsimp only
    omega
  · dsimp only
    omega
  · dsimp only
    omega
  · rw [Tm.date, htm, hdate, hT]
    dsimp only
    omega
  · rw [Tm.date, htm, hyd]
  · rw [Tm.date, htm, hdate]

/-- A date and a time of day are those of one stamp only. -/
theorem describes_unique {tm' : Tm} (h : tm.Describes _current_timezone _daylight_active t)
    (h' : tm'.Describes _current_timezone _daylight_active t) : tm = tm' := by
  have hstamp := h.stamp.trans h'.stamp.symm
  obtain ⟨hh,hm,hs⟩ := (⟨h.hour,h.min,h.sec⟩ : _ ∧ _ ∧ _)
  obtain ⟨hh',hm',hs'⟩ := (⟨h'.hour,h'.min,h'.sec⟩ : _ ∧ _ ∧ _)
  have hdate : tm.date = tm'.date := Date.days_inj h.date h'.date (by omega)
  rw [hdate] at hstamp
  have hyday := h.yday.trans (hdate ▸ h'.yday.symm)
  have hwday := h.wday.trans (hdate ▸ h'.wday.symm)
  have hisdst := h.zone.1.trans h'.zone.1.symm
  have hgmtoff := h.zone.2.trans h'.zone.2.symm
  simp only [Tm.date, Date.mk.injEq, add_left_inj] at hdate
  obtain ⟨hyear,hmon,hmday⟩ := hdate
  cases tm
  cases tm'
  simp only [Tm.mk.injEq] at *
  exact ⟨hisdst,by omega,by omega,by omega,hgmtoff,hwday,hyear,hyday,hmon,hmday⟩

theorem yearLoop_of_neg {days : ℤ} (h : days ≤ 0) : yearLoop days 1970 = some (1970,days) := by
  have hleap := leap_cases 1970
  rw [yearLoop, if_pos (by rw [is_leap_year_eq]; omega)]

/-- Before 1970 a field is negative unless the day wraps, and past the last year there is none. -/
theorem inRange_or_wraps_of_valid (h : no_locks_localtime _current_timezone _daylight_active t = some tm)
    (hvalid : tm.Valid) : InRange (t - _current_timezone + 3600 * _daylight_active) ∨
      Wraps (t - _current_timezone + 3600 * _daylight_active) ∧ tm.tm_year = 70 := by
  unfold no_locks_localtime at h
  generalize t - _current_timezone + 3600 * _daylight_active = T at h ⊢
  dsimp only at h
  obtain ⟨y,hyear,h⟩ := Option.bind_eq_some_iff.mp h
  obtain ⟨m,hmonth,rfl⟩ := Option.map_eq_some_iff.mp h
  rcases Int.lt_or_le T 0 with hneg | hpos
  · right
    obtain ⟨n,rfl⟩ : ∃ n, T = -n := ⟨-T,by omega⟩
    have hn : 0 ≤ n := by omega
    have hn' : 0 ≤ n % 86400 := by omega
    have hn'' : 0 ≤ n % 86400 % 3600 := by omega
    rw [Int.neg_tdiv, Int.tdiv_eq_ediv_of_nonneg hn] at hyear hvalid
    rw [yearLoop_of_neg (by omega)] at hyear
    obtain rfl := Option.some.inj hyear
    rw [monthLoop, if_neg (by dsimp only; omega)] at hmonth
    obtain rfl := Option.some.inj hmonth
    rw [Int.neg_tmod, Int.tmod_eq_emod_of_nonneg hn, Int.neg_tdiv, Int.neg_tmod, Int.neg_tdiv, Int.neg_tmod,
      Int.tdiv_eq_ediv_of_nonneg hn', Int.tmod_eq_emod_of_nonneg hn', Int.tdiv_eq_ediv_of_nonneg hn'',
      Int.tmod_eq_emod_of_nonneg hn''] at hvalid
    have hday := hvalid.date.pos
    have hlast := hvalid.date.le
    have hhour := hvalid.hour.1
    have hmin := hvalid.min.1
    have hsec := hvalid.sec.1
    simp only [Tm.date, monthLengths, List.getD_cons_zero, toInt32] at hday hlast hhour hmin hsec
    exact ⟨⟨hneg,by omega,by omega⟩,rfl⟩
  · left
    refine ⟨hpos,?_⟩
    by_contra hlong
    have hzero : daysBefore 1970 = 0 := by decide
    rw [Int.tdiv_eq_ediv_of_nonneg hpos, (yearLoop_eq (T / 86400) 1970 (by decide) (by omega)).2 (by omega)] at hyear
    cases hyear

theorem exists_valid_of_wraps (h : Wraps (t - _current_timezone + 3600 * _daylight_active)) :
    ∃ tm, no_locks_localtime _current_timezone _daylight_active t = some tm ∧ tm.Valid := by
  obtain ⟨hneg,hmidnight,hday⟩ := h
  unfold no_locks_localtime
  generalize t - _current_timezone + 3600 * _daylight_active = T at hneg hmidnight hday
  dsimp only
  obtain ⟨d,rfl⟩ : ∃ d, T = d * 86400 := ⟨T / 86400,by omega⟩
  rw [Int.mul_tdiv_cancel _ (by decide), Int.mul_tmod_left, yearLoop_of_neg (by omega), Option.bind_some, monthLoop,
    if_neg (by dsimp only; omega)]
  refine ⟨_,rfl,⟨?_,?_⟩,?_,?_,?_⟩
  · simp only [toInt32, Tm.date]
    omega
  · simp only [toInt32, Tm.date, monthLengths, List.getD_cons_zero]
    omega
  · exact ⟨Int.le_refl 0,show (0 : ℤ) < 24 by decide⟩
  all_goals exact ⟨Int.le_refl 0,show (0 : ℤ) < 60 by decide⟩

/-- A day that wraps is not that of the stamp. -/
theorem inRange_of_describes (h : no_locks_localtime _current_timezone _daylight_active t = some tm)
    (hdescribes : tm.Describes _current_timezone _daylight_active t) :
    InRange (t - _current_timezone + 3600 * _daylight_active) := by
  rcases inRange_or_wraps_of_valid h hdescribes.toValid with hrange | ⟨hwraps,hyear⟩
  · exact hrange
  · have hneg := hwraps.1
    have hstamp := hdescribes.stamp
    have hdays := hdescribes.date.yearDay_lt.1
    have hhour := hdescribes.hour
    have hmin := hdescribes.min
    have hsec := hdescribes.sec
    have hzero : daysBefore tm.date.year = 0 := by
      simp only [Tm.date, hyear]
      decide
    unfold Date.days at hstamp
    omega

/-- The fields are those of the calendar exactly for the stamps in range, for each of these there is no
other date and time, and out of range only a day that wraps makes a date. -/
theorem no_locks_localtime_iff (_current_timezone _daylight_active t : ℤ) :
    ((∃ tm, no_locks_localtime _current_timezone _daylight_active t = some tm ∧ tm.Valid) ↔
      InRange (t - _current_timezone + 3600 * _daylight_active) ∨
        Wraps (t - _current_timezone + 3600 * _daylight_active)) ∧
    ((∃ tm, no_locks_localtime _current_timezone _daylight_active t = some tm ∧
        tm.Describes _current_timezone _daylight_active t) ↔
      InRange (t - _current_timezone + 3600 * _daylight_active)) ∧
    ∀ tm, tm.Describes _current_timezone _daylight_active t →
      InRange (t - _current_timezone + 3600 * _daylight_active) →
      no_locks_localtime _current_timezone _daylight_active t = some tm := by
  refine ⟨⟨?_,?_⟩,⟨?_,exists_describes⟩,?_⟩
  · rintro ⟨tm,h,hvalid⟩
    exact (inRange_or_wraps_of_valid h hvalid).imp_right And.left
  · rintro (hrange | hwraps)
    · obtain ⟨tm,h,hdescribes⟩ := exists_describes hrange
      exact ⟨tm,h,hdescribes.toValid⟩
    · exact exists_valid_of_wraps hwraps
  · rintro ⟨tm,h,hdescribes⟩
    exact inRange_of_describes h hdescribes
  · intro tm hdescribes hrange
    obtain ⟨tm',h',hdescribes'⟩ := exists_describes hrange
    rwa [describes_unique hdescribes hdescribes']

end LocalTime

end OctCommu.Util
