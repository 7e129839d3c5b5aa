import TrackerQuery.Calendar.Instant

/-!
# Day numbers and dates

Every day number has a date, and the date has that day number.  Years are
counted from March within an era of 400 years, so that a leap day comes last in
its year; which year a day falls into is read off a function that grows with the
day and is checked at the first day of each year.
-/

namespace TrackerQuery.Calendar.Date

/-! ## Years of an era -/

/-- The days of an era before a year, where years begin in March. -/
def yearStart (year : Int) : Int :=
  365 * year + year / 4 - year / 100

/-- The day of an era as if every year had 365 days. -/
def evenDay (day : Int) : Int :=
  day - day / 1460 + day / 36524 - day / 146096

theorem evenDay_le {a b : Int} (hab : a ≤ b) : evenDay a ≤ evenDay b := by
  have hstep : ∀ day, evenDay day ≤ evenDay (day + 1) := by
    intro day
    unfold evenDay
    omega
  obtain ⟨n, rfl⟩ := Int.le.dest hab
  clear hab
  induction n with
  | zero => simp
  | succ n ih =>
      calc
        evenDay a ≤ evenDay (a + n) := ih
        _ ≤ evenDay (a + n + 1) := hstep _
        _ = evenDay (a + (n + 1 : Nat)) := by
          congr 1
          omega

/-- A year begins where the even day does. -/
theorem evenDay_yearStart (year : Int) (hfirst : 1 ≤ year) (hlast : year ≤ 399) :
    evenDay (yearStart year - 1) < 365 * year ∧ 365 * year ≤ evenDay (yearStart year) := by
  have htable : (List.range 400).all (fun (k : Nat) => k == 0 ||
      decide (evenDay (yearStart k - 1) < 365 * k ∧ 365 * k ≤ evenDay (yearStart k))) = true := by
    decide +kernel
  have hyear : (year.toNat : Int) = year := Int.toNat_of_nonneg (by omega)
  have hentry := List.all_eq_true.mp htable year.toNat (List.mem_range.mpr (by omega))
  rw [hyear] at hentry
  have hpositive : (year.toNat == 0) = false := beq_false_of_ne (by omega)
  rw [hpositive, Bool.false_or] at hentry
  exact of_decide_eq_true hentry

theorem isLeapYear_iff {year : Int} :
    isLeapYear year = true ↔ year % 4 = 0 ∧ (year % 100 ≠ 0 ∨ year % 400 = 0) := by
  simp [isLeapYear]

/-- The year of a day of an era, and the day of that year. -/
theorem yearStart_evenDay (day : Int) (hfirst : 0 ≤ day) (hlast : day < 146097) :
    0 ≤ evenDay day / 365 ∧ evenDay day / 365 ≤ 399 ∧
      yearStart (evenDay day / 365) ≤ day ∧
      day ≤ yearStart (evenDay day / 365) + 365 ∧
      (day = yearStart (evenDay day / 365) + 365 →
        isLeapYear (evenDay day / 365 + 1) = true) := by
  have hyear : 0 ≤ evenDay day / 365 ∧ evenDay day / 365 ≤ 399 := by
    unfold evenDay
    omega
  generalize hyearOf : evenDay day / 365 = year at *
  have hlower : yearStart year ≤ day := by
    by_cases hzero : year = 0
    · subst hzero
      exact hfirst
    · by_cases hbefore : day ≤ yearStart year - 1
      · have := evenDay_le hbefore
        have := (evenDay_yearStart year (by omega) hyear.2).1
        omega
      · omega
  have hupper : year ≤ 398 → day < yearStart (year + 1) := by
    intro hnext
    by_cases hafter : yearStart (year + 1) ≤ day
    · have := evenDay_le hafter
      have := (evenDay_yearStart (year + 1) (by omega) (by omega)).2
      omega
    · omega
  refine ⟨hyear.1, hyear.2, hlower, ?_, ?_⟩
  · by_cases hend : year = 399
    · subst hend
      unfold yearStart
      omega
    · have := hupper (by omega)
      unfold yearStart at *
      omega
  · intro hday
    apply isLeapYear_iff.mpr
    by_cases hend : year = 399
    · subst hend
      decide
    · have := hupper (by omega)
      have hquarter : (year + 1) / 4 = year / 4 ∨ (year + 1) % 4 = 0 := by omega
      have hcentury : (year + 1) / 100 = year / 100 ∨
          (year + 1) / 100 = year / 100 + 1 ∧ (year + 1) % 100 = 0 := by omega
      unfold yearStart at *
      omega

/-! ## Dates -/

/-- The parts of a date: the era, the year of the era, the day of the year and the
month counted from March. -/
theorem ofDayNumber_eq (n : Int) :
    ∃ era year day month : Int, (0 ≤ year ∧ year ≤ 399) ∧ (0 ≤ day ∧ day ≤ 365) ∧
      (day = 365 → isLeapYear (year + 1) = true) ∧ month = (5 * day + 2) / 153 ∧
      n = 146097 * era + yearStart year + day - 719468 ∧
      ofDayNumber n =
        ⟨if month < 10 then year + 400 * era else year + 400 * era + 1,
          (if month < 10 then month + 3 else month - 9).toNat,
          (day - (153 * month + 2) / 5 + 1).toNat⟩ := by
  generalize hdayOf : (n + 719468) % 146097 = dayOfEra
  obtain ⟨hyear, hyear', hlower, hupper, hleap⟩ :=
    yearStart_evenDay dayOfEra (by omega) (by omega)
  have hshape : ofDayNumber n =
      let year := evenDay dayOfEra / 365
      let day := dayOfEra - yearStart year
      let march := (5 * day + 2) / 153
      let month := if march < 10 then march + 3 else march - 9
      ⟨if month ≤ 2 then year + 400 * ((n + 719468) / 146097) + 1
          else year + 400 * ((n + 719468) / 146097),
        month.toNat, (day - (153 * march + 2) / 5 + 1).toNat⟩ := by
    subst hdayOf
    rfl
  generalize evenDay dayOfEra / 365 = year at *
  dsimp only at hshape
  generalize hday : dayOfEra - yearStart year = day at *
  generalize hmonth : (5 * day + 2) / 153 = month at *
  refine ⟨(n + 719468) / 146097, year, day, month, ⟨hyear, hyear'⟩, ⟨by omega, by omega⟩,
    fun hend => hleap (by omega), hmonth.symm, by omega, ?_⟩
  rw [hshape]
  by_cases hwinter : month < 10
  · rw [if_pos hwinter, if_neg (by omega), if_pos hwinter]
  · rw [if_neg hwinter, if_pos (by omega), if_neg hwinter]

/-- A date has the day number that it is the date of. -/
theorem dayNumber_ofDayNumber (n : Int) : (ofDayNumber n).dayNumber = n := by
  obtain ⟨era, year, day, month, hyear, hday, -, hmonth, hn, hdate⟩ := ofDayNumber_eq n
  rw [hdate]
  unfold dayNumber
  dsimp only
  unfold yearStart at hn
  by_cases hwinter : month < 10
  · rw [if_pos hwinter, if_pos hwinter, if_neg (by omega), if_neg (by omega)]
    omega
  · rw [if_neg hwinter, if_neg hwinter, if_pos (by omega), if_pos (by omega)]
    omega

/-- Eras do not matter to leap years. -/
theorem isLeapYear_add_era {year : Int} (era : Int) (hleap : isLeapYear year = true) :
    isLeapYear (year + 400 * era) = true := by
  rw [isLeapYear_iff] at hleap ⊢
  omega

/-- A day of the year is a day of the month it falls into. -/
theorem day_le_daysInMonth {era year day month : Int} (hday : 0 ≤ day ∧ day ≤ 365)
    (hleap : day = 365 → isLeapYear (year + 1) = true) (hmonth : month = (5 * day + 2) / 153) :
    (day - (153 * month + 2) / 5 + 1).toNat ≤
      daysInMonth (if month < 10 then year + 400 * era else year + 400 * era + 1)
        (if month < 10 then month + 3 else month - 9).toNat := by
  by_cases hfebruary : month = 11
  · subst hfebruary
    rw [if_neg (by omega), if_neg (by omega)]
    show _ ≤ if isLeapYear _ = true then 29 else 28
    by_cases hend : day = 365
    · have hera := isLeapYear_add_era era (hleap hend)
      rw [if_pos (by rw [← hera]; congr 1; omega)]
      omega
    · split <;> omega
  · have hcases : (month = 0 ∨ month = 2 ∨ month = 4 ∨ month = 5 ∨ month = 7 ∨ month = 9 ∨
        month = 10) ∨ (month = 1 ∨ month = 3 ∨ month = 6 ∨ month = 8) := by omega
    obtain hlong | hshort := hcases
    · rcases hlong with rfl | rfl | rfl | rfl | rfl | rfl | rfl
      all_goals
        show _ ≤ 31
        omega
    · rcases hshort with rfl | rfl | rfl | rfl
      all_goals
        show _ ≤ 30
        omega

/-- The date of a day number exists, if its year is in the supported range. -/
theorem isValid_ofDayNumber {n : Int} (hfirst : firstYear ≤ (ofDayNumber n).year)
    (hlast : (ofDayNumber n).year ≤ lastYear) : (ofDayNumber n).isValid = true := by
  obtain ⟨era, year, day, month, hyear, hday, hleap, hmonth, hn, hdate⟩ := ofDayNumber_eq n
  rw [hdate] at hfirst hlast ⊢
  simp only [isValid, Bool.and_eq_true, decide_eq_true_eq]
  refine ⟨⟨⟨⟨⟨hfirst, hlast⟩, ?_⟩, ?_⟩, ?_⟩, day_le_daysInMonth hday hleap hmonth⟩
  · split <;> omega
  · split <;> omega
  · omega

/-! ## Years of days -/

/-- The days before a year, where years begin in March. -/
def daysBefore (year : Int) : Int :=
  365 * year + year / 4 - year / 100 + year / 400 - 719468

theorem daysBefore_add_le {a b : Int} (hab : a ≤ b) :
    daysBefore a + 365 * (b - a) ≤ daysBefore b + 1 := by
  unfold daysBefore
  omega

/-- The parts of a date, with years that begin in March. -/
theorem ofDayNumber_parts (n : Int) :
    ∃ year day month : Int, daysBefore year + day = n ∧ n < daysBefore (year + 1) ∧
      (0 ≤ day ∧ day ≤ 365) ∧ month = (5 * day + 2) / 153 ∧
      ofDayNumber n =
        ⟨if month < 10 then year else year + 1, (if month < 10 then month + 3 else month - 9).toNat,
          (day - (153 * month + 2) / 5 + 1).toNat⟩ := by
  obtain ⟨era, year, day, month, hyear, hday, hleap, hmonth, hn, hdate⟩ := ofDayNumber_eq n
  have hbefore : daysBefore (year + 400 * era) + day = n := by
    unfold yearStart at hn
    unfold daysBefore
    omega
  refine ⟨year + 400 * era, day, month, hbefore, ?_, hday, hmonth, hdate⟩
  by_cases hend : day = 365
  · have := isLeapYear_iff.mp (hleap hend)
    unfold daysBefore at *
    omega
  · unfold daysBefore at *
    omega

/-- A day number lies in a year that begins in March, and its date has that year
until the end of December. -/
theorem year_ofDayNumber (n : Int) :
    ∃ year, daysBefore year ≤ n ∧ n < daysBefore (year + 1) ∧
      (ofDayNumber n).year = if n < daysBefore year + 306 then year else year + 1 := by
  obtain ⟨year, day, month, hbefore, hend, hday, hmonth, hdate⟩ := ofDayNumber_parts n
  refine ⟨year, by omega, hend, ?_⟩
  have hwinter : month < 10 ↔ n < daysBefore year + 306 := by omega
  rw [hdate]
  simp only [hwinter]

/-- The year of the next day is the same year or the next one. -/
theorem year_ofDayNumber_succ (n : Int) :
    (ofDayNumber n).year ≤ (ofDayNumber (n + 1)).year ∧
      (ofDayNumber (n + 1)).year ≤ (ofDayNumber n).year + 1 := by
  obtain ⟨year, hfirst, hlast, hyear⟩ := year_ofDayNumber n
  obtain ⟨next, hfirst', hlast', hnext⟩ := year_ofDayNumber (n + 1)
  have hlower : year ≤ next := by
    by_cases hback : next + 1 ≤ year
    · have := daysBefore_add_le hback
      omega
    · omega
  have hupper : next ≤ year + 1 := by
    by_cases hskip : year + 1 ≤ next
    · have := daysBefore_add_le hskip
      omega
    · omega
  rw [hyear, hnext]
  obtain rfl | rfl : next = year ∨ next = year + 1 := by omega
  · constructor <;> split <;> split <;> omega
  · constructor <;> split <;> split <;> omega

/-- The first day of the supported range. -/
theorem dayNumber_first : (Date.mk firstYear 1 1).dayNumber = daysBefore (firstYear - 1) + 306 := by
  decide

/-- The last day of the supported range. -/
theorem dayNumber_last : (Date.mk lastYear 12 31).dayNumber = daysBefore lastYear + 305 := by
  decide

/-- A day lies in the supported range just if its year does. -/
theorem year_bounds_iff {n : Int} :
    firstYear ≤ (ofDayNumber n).year ∧ (ofDayNumber n).year ≤ lastYear ↔
      (Date.mk firstYear 1 1).dayNumber ≤ n ∧ n ≤ (Date.mk lastYear 12 31).dayNumber := by
  obtain ⟨year, hstart, hend, hyear⟩ := year_ofDayNumber n
  rw [hyear, dayNumber_first, dayNumber_last]
  constructor
  · rintro ⟨hfirst, hlast⟩
    constructor
    · rcases Int.lt_trichotomy year (firstYear - 1) with hlt | rfl | hgt
      · split at hfirst <;> omega
      · split at hfirst <;> omega
      · have := daysBefore_add_le (Int.le_of_lt hgt)
        omega
    · rcases Int.lt_trichotomy year lastYear with hlt | rfl | hgt
      · have := daysBefore_add_le (Int.add_one_le_of_lt hlt)
        omega
      · split at hlast <;> omega
      · split at hlast <;> omega
  · rintro ⟨hfirst, hlast⟩
    constructor
    · rcases Int.lt_trichotomy year (firstYear - 1) with hlt | rfl | hgt
      · have := daysBefore_add_le (Int.add_one_le_of_lt hlt)
        omega
      · split <;> omega
      · split <;> omega
    · rcases Int.lt_trichotomy year lastYear with hlt | rfl | hgt
      · split <;> omega
      · split <;> omega
      · have := daysBefore_add_le (Int.le_of_lt hgt)
        omega

/-- A date that exists is not before the first day. -/
theorem first_le_dayNumber {date : Date} (hdate : date.isValid = true) :
    (Date.mk firstYear 1 1).dayNumber ≤ date.dayNumber := by
  simp only [isValid, Bool.and_eq_true, decide_eq_true_eq] at hdate
  obtain ⟨⟨⟨⟨⟨hfirst, -⟩, hmonth⟩, -⟩, hday⟩, -⟩ := hdate
  rw [dayNumber_first]
  unfold dayNumber
  dsimp only
  by_cases hwinter : date.month ≤ 2
  · have := daysBefore_add_le (show firstYear - 1 ≤ date.year - 1 by omega)
    rw [if_pos hwinter, if_pos hwinter]
    unfold daysBefore at *
    omega
  · have := daysBefore_add_le (show firstYear - 1 ≤ date.year by omega)
    rw [if_neg hwinter, if_neg hwinter]
    unfold daysBefore at *
    omega

/-! ## Dates and their day numbers -/

theorem daysBefore_le {a b : Int} (hab : a ≤ b) : daysBefore a ≤ daysBefore b := by
  unfold daysBefore
  omega

theorem daysBefore_add_365_le (year : Int) : daysBefore year + 365 ≤ daysBefore (year + 1) := by
  unfold daysBefore
  omega

/-- Years that begin in March do not overlap. -/
theorem eq_of_daysBefore_le {a b n : Int} (ha : daysBefore a ≤ n) (ha' : n < daysBefore (a + 1))
    (hb : daysBefore b ≤ n) (hb' : n < daysBefore (b + 1)) : a = b := by
  rcases Int.lt_trichotomy a b with hlt | heq | hgt
  · have := daysBefore_le (Int.add_one_le_of_lt hlt)
    omega
  · exact heq
  · have := daysBefore_le (Int.add_one_le_of_lt hgt)
    omega

def marchYear (date : Date) : Int :=
  if date.month ≤ 2 then date.year - 1 else date.year

def marchMonth (date : Date) : Int :=
  if date.month ≤ 2 then date.month + 9 else date.month - 3

def marchDay (date : Date) : Int :=
  (153 * date.marchMonth + 2) / 5 + date.day - 1

theorem dayNumber_eq_marchDay (date : Date) :
    date.dayNumber = daysBefore date.marchYear + date.marchDay := by
  unfold dayNumber daysBefore marchDay marchYear marchMonth
  dsimp only
  omega

/-- A date that exists lies in its year, and its day falls into its month. -/
theorem marchDay_bounds {date : Date} (hdate : date.isValid = true) :
    0 ≤ date.marchDay ∧
      daysBefore date.marchYear + date.marchDay < daysBefore (date.marchYear + 1) ∧
      (5 * date.marchDay + 2) / 153 = date.marchMonth := by
  obtain ⟨year, month, day⟩ := date
  simp only [isValid, Bool.and_eq_true, decide_eq_true_eq] at hdate
  obtain ⟨⟨⟨⟨⟨-, -⟩, hmonth⟩, hmonth'⟩, hday⟩, hday'⟩ := hdate
  by_cases hfebruary : month = 2
  · subst hfebruary
    simp only [daysInMonth] at hday'
    simp only [marchDay, marchMonth, marchYear, daysBefore]
    split at hday'
    · rename_i hleap
      rw [isLeapYear_iff] at hleap
      omega
    · omega
  · have hcases : (month = 4 ∨ month = 6 ∨ month = 9 ∨ month = 11) ∨ (month = 1 ∨ month = 3 ∨
        month = 5 ∨ month = 7 ∨ month = 8 ∨ month = 10 ∨ month = 12) := by omega
    have hyear := daysBefore_add_365_le (marchYear ⟨year, month, day⟩)
    have hshort : 0 ≤ marchDay ⟨year, month, day⟩ ∧ marchDay ⟨year, month, day⟩ < 365 ∧
        (5 * marchDay ⟨year, month, day⟩ + 2) / 153 = marchMonth ⟨year, month, day⟩ := by
      rcases hcases with (rfl | rfl | rfl | rfl) | rfl | rfl | rfl | rfl | rfl | rfl | rfl
      all_goals
        simp only [daysInMonth] at hday'
        simp only [marchDay, marchMonth]
        omega
    exact ⟨hshort.1, by omega, hshort.2.2⟩

/-- The date of a day number is the date that has it. -/
theorem ofDayNumber_dayNumber {date : Date} (hdate : date.isValid = true) :
    ofDayNumber date.dayNumber = date := by
  obtain ⟨year, day, month, hstart, hend, hday, hmonth, hparts⟩ := ofDayNumber_parts date.dayNumber
  obtain ⟨hfirst, hnext, hmarch⟩ := marchDay_bounds hdate
  rw [dayNumber_eq_marchDay] at hstart hend
  obtain rfl : year = date.marchYear := eq_of_daysBefore_le (by omega) hend (by omega) hnext
  obtain rfl : day = date.marchDay := by omega
  rw [hmarch] at hmonth
  subst hmonth
  simp only [isValid, Bool.and_eq_true, decide_eq_true_eq] at hdate
  obtain ⟨⟨⟨⟨-, hlow⟩, hhigh⟩, hpositive⟩, -⟩ := hdate
  have hday : (date.marchDay - (153 * date.marchMonth + 2) / 5 + 1).toNat = date.day := by
    unfold marchDay
    omega
  rw [hparts, hday]
  unfold marchYear marchMonth
  by_cases hwinter : date.month ≤ 2
  · have hmonth : ((date.month : Int) + 9 - 9).toNat = date.month := by omega
    rw [if_pos hwinter, if_pos hwinter, if_neg (by omega), if_neg (by omega), hmonth,
      Int.sub_add_cancel]
  · have hmonth : ((date.month : Int) - 3 + 3).toNat = date.month := by omega
    rw [if_neg hwinter, if_neg hwinter, if_pos (by omega), if_pos (by omega), hmonth]

end TrackerQuery.Calendar.Date
