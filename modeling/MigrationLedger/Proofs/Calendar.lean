import MigrationLedger.Instant

/-! Days and dates determine each other: the date of a day has that day's number, it is a date of
the calendar, and days in the range of the clock have years in the range of the calendar. -/

namespace MigrationLedger.CalendarDate

theorem dayOfEra_cases {d y : Int} (h0 : 0 ≤ d) (h1 : d < 146097)
    (hy : y = (d - d / 1460 + d / 36524 - d / 146096) / 365) :
    (d / 36524 = 0 ∨ d / 36524 = 1 ∨ d / 36524 = 2 ∨ d / 36524 = 3 ∨ d / 36524 = 4) ∧
      (d / 146096 = 0 ∨ d / 146096 = 1) ∧ 0 ≤ y ∧ y < 400 ∧
      (y / 100 = 0 ∨ y / 100 = 1 ∨ y / 100 = 2 ∨ y / 100 = 3) := by
  have hb : 0 ≤ y ∧ y < 400 := by omega
  refine ⟨?_, ?_, hb.1, hb.2, ?_⟩
  · omega
  · omega
  · omega

/-- In an era of 400 years that begins with March, the year of a day, and the day within it. -/
theorem dayOfYear_bounds {d y : Int} (h0 : 0 ≤ d) (h1 : d < 146097)
    (hy : y = (d - d / 1460 + d / 36524 - d / 146096) / 365) :
    0 ≤ y ∧ y < 400 ∧ 0 ≤ d - (365 * y + y / 4 - y / 100) ∧
      d - (365 * y + y / 4 - y / 100) ≤ 365 := by
  obtain ⟨hc, he, hb0, hb1, hq⟩ := dayOfEra_cases h0 h1 hy
  refine ⟨hb0, hb1, ?_⟩
  rcases he with he | he
  · rcases hc with hc | hc | hc | hc | hc <;> rcases hq with hq | hq | hq | hq <;> omega
  · omega

/-- A year has a 366th day, the leap day at its end, only when the year that begins meanwhile is a
leap year. -/
theorem isLeapYear_of_dayOfYear {d y : Int} (h0 : 0 ≤ d) (h1 : d < 146097)
    (hy : y = (d - d / 1460 + d / 36524 - d / 146096) / 365)
    (hd : d - (365 * y + y / 4 - y / 100) = 365) (era : Int) :
    isLeapYear (y + era * 400 + 1) = true := by
  obtain ⟨hc, he, hb0, hb1, hq⟩ := dayOfEra_cases h0 h1 hy
  have hfour : (y + 1) % 4 = 0 := by
    have hr : y % 4 = 0 ∨ y % 4 = 1 ∨ y % 4 = 2 ∨ y % 4 = 3 := by omega
    rcases hr with hr | hr | hr | hr <;> omega
  have hleap : (y + 1) % 100 ≠ 0 ∨ (y + 1) % 400 = 0 := by
    rcases he with he | he
    · rcases hc with hc | hc | hc | hc | hc <;> rcases hq with hq | hq | hq | hq <;> omega
    · omega
  simp only [isLeapYear, Bool.and_eq_true, Bool.or_eq_true, decide_eq_true_eq]
  omega

/-- The parts that a day number splits into: an era, a year in it, and a day in that year. -/
theorem ofDayNumber_parts (n : Int) : ∃ era y doy : Int,
    n = era * 146097 + (365 * y + y / 4 - y / 100 + doy) - 719468 ∧
      0 ≤ y ∧ y < 400 ∧ 0 ≤ doy ∧ doy ≤ 365 ∧
      (doy = 365 → isLeapYear (y + era * 400 + 1) = true) ∧
      (ofDayNumber n).year =
        (if (5 * doy + 2) / 153 < 10 then y + era * 400 else y + era * 400 + 1) ∧
      ((ofDayNumber n).month : Int) =
        (if (5 * doy + 2) / 153 < 10 then (5 * doy + 2) / 153 + 3 else (5 * doy + 2) / 153 - 9) ∧
      ((ofDayNumber n).day : Int) = doy - (153 * ((5 * doy + 2) / 153) + 2) / 5 + 1 := by
  let d := n + 719468 - (n + 719468) / 146097 * 146097
  let y := (d - d / 1460 + d / 36524 - d / 146096) / 365
  let doy := d - (365 * y + y / 4 - y / 100)
  have h0 : 0 ≤ d := by simp only [d]; omega
  have h1 : d < 146097 := by simp only [d]; omega
  obtain ⟨hy0, hy1, hd0, hd1⟩ := dayOfYear_bounds h0 h1 (y := y) rfl
  refine ⟨(n + 719468) / 146097, y, doy, ?_, hy0, hy1, hd0, hd1,
    fun h => isLeapYear_of_dayOfYear h0 h1 rfl h _, ?_, ?_, ?_⟩
  · simp only [doy, d]
    omega
  · change (if (if (5 * doy + 2) / 153 < 10 then (5 * doy + 2) / 153 + 3
      else (5 * doy + 2) / 153 - 9) ≤ 2 then _ else _) = _
    change 0 ≤ doy at hd0
    change doy ≤ 365 at hd1
    clear_value doy
    split <;> split <;> first | rfl | omega
  · change (((if (5 * doy + 2) / 153 < 10 then (5 * doy + 2) / 153 + 3
      else (5 * doy + 2) / 153 - 9 : Int).toNat : Nat) : Int) = _
    change 0 ≤ doy at hd0
    clear_value doy
    split <;> omega
  · change (((doy - (153 * ((5 * doy + 2) / 153) + 2) / 5 + 1).toNat : Nat) : Int) = _
    change 0 ≤ doy at hd0
    clear_value doy
    omega

theorem dayNumber_ofDayNumber (n : Int) : (ofDayNumber n).dayNumber = n := by
  obtain ⟨era, y, doy, hn, hy0, hy1, hd0, hd1, -, hyear, hmonth, hday⟩ := ofDayNumber_parts n
  generalize ofDayNumber n = date at hyear hmonth hday
  obtain ⟨year, month, day⟩ := date
  simp only at hyear hmonth hday
  have hm : (if month ≤ 2 then year - 1 else year) = y + era * 400 := by
    split at hyear <;> split at hmonth <;> split <;> omega
  have hp : ((month : Int) + 9) % 12 = (5 * doy + 2) / 153 := by
    split at hmonth <;> omega
  have hera : (y + era * 400) / 400 = era := by omega
  simp only [dayNumber, hm, hp, hera]
  omega

theorem isValid_ofDayNumber {n : Int} (h : leastYear ≤ (ofDayNumber n).year)
    (h' : (ofDayNumber n).year ≤ greatestYear) : (ofDayNumber n).isValid = true := by
  obtain ⟨era, y, doy, -, -, -, hd0, hd1, hleap, hyear, hmonth, hday⟩ := ofDayNumber_parts n
  generalize ofDayNumber n = date at h h' hyear hmonth hday
  obtain ⟨year, month, day⟩ := date
  simp only at h h' hyear hmonth hday
  have hm : 1 ≤ month ∧ month ≤ 12 := by split at hmonth <;> omega
  have hd : 1 ≤ day ∧ day ≤ daysInMonth year month := by
    refine ⟨by omega, ?_⟩
    by_cases hfeb : month = 2
    · subst hfeb
      have hlate : ¬(5 * doy + 2) / 153 < 10 := by
        intro hlt
        rw [if_pos hlt] at hmonth
        omega
      rw [if_neg hlate] at hyear hmonth
      rw [hyear, daysInMonth, if_pos rfl]
      by_cases hlast : doy = 365
      · rw [hleap hlast, if_pos rfl]
        omega
      · split <;> omega
    · rw [daysInMonth, if_neg hfeb]
      split at hmonth <;> split <;> omega
  simp only [isValid, Bool.and_eq_true, decide_eq_true_eq]
  exact ⟨⟨⟨⟨⟨h, h'⟩, hm.1⟩, hm.2⟩, hd.1⟩, hd.2⟩

theorem year_bounds {n : Int} (h : dayNumber ⟨leastYear, 1, 1⟩ ≤ n)
    (h' : n < dayNumber ⟨greatestYear + 1, 1, 1⟩) :
    leastYear ≤ (ofDayNumber n).year ∧ (ofDayNumber n).year ≤ greatestYear := by
  obtain ⟨era, y, doy, hn, hy0, hy1, hd0, hd1, -, hyear, -, -⟩ := ofDayNumber_parts n
  have hlow : dayNumber ⟨leastYear, 1, 1⟩ = -96465292 := by decide
  have hhigh : dayNumber ⟨greatestYear + 1, 1, 1⟩ = 95026237 := by decide
  rw [hlow] at h
  rw [hhigh] at h'
  rw [hyear]
  simp only [leastYear, greatestYear]
  have hera : era = 655 ∨ era ≤ 654 := by omega
  constructor
  · split <;> omega
  · rcases hera with rfl | hera
    · have hy : y / 100 = 0 ∨ y / 100 = 1 ∨ y / 100 = 2 ∨ y / 100 = 3 := by omega
      split <;> rcases hy with hy | hy | hy | hy <;> omega
    · split <;> omega

end MigrationLedger.CalendarDate
