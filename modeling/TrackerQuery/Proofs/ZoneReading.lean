import TrackerQuery.Calendar.Zone
import TrackerQuery.Proofs.DayNumber

/-!
# Clocks of a zone

A reading that is turned into an instant is what clocks show at that instant, and
a reading that some clock shows can be turned into one.  Both rest on the order of
the changes of a zone.
-/

namespace TrackerQuery.Calendar

theorem Reading.ahead_neg_ahead (r : Reading) (seconds : Int) :
    (r.ahead (-seconds)).ahead seconds = r := by
  show (⟨r.seconds + -seconds + seconds, r.nanos⟩ : Reading) = r
  rw [Int.neg_add_cancel_right]

namespace Zone

/-! ## Offsets -/

/-- The offset that a local second is read with is in force at the instant found
with it. -/
theorem offsetFrom_of_earliestOffset? {rule : (stop before after : Int) → Bool} {current : Int}
    {start : Option Int} {changes : List (Int × Int)} {seconds offset : Int}
    (horder : changesFollow rule start current changes = true)
    (hoffset : earliestOffset? current start changes seconds = some offset) :
    offsetFrom current changes (seconds - offset) = offset ∧
      start.all (· ≤ seconds - offset) = true := by
  induction changes generalizing current start with
  | nil =>
      rw [earliestOffset?] at hoffset
      split at hoffset
      · rename_i hstart
        cases hoffset
        refine ⟨rfl, ?_⟩
        cases start with
        | none => rfl
        | some first => simp_all; omega
      · cases hoffset
  | cons change later ih =>
      obtain ⟨stop, next⟩ := change
      obtain ⟨hfirst, hlater⟩ := Bool.and_eq_true_iff.mp horder
      obtain ⟨hfirst, -⟩ := Bool.and_eq_true_iff.mp hfirst
      rw [earliestOffset?] at hoffset
      split at hoffset
      · rename_i hwithin
        cases hoffset
        obtain ⟨hstart, hstop⟩ := Bool.and_eq_true_iff.mp hwithin
        have hstop := of_decide_eq_true hstop
        refine ⟨if_pos (by omega), ?_⟩
        cases start with
        | none => rfl
        | some first => simp_all; omega
      · obtain ⟨hforce, hstop⟩ := ih hlater hoffset
        have hstop : stop ≤ seconds - offset := by simpa using hstop
        refine ⟨?_, ?_⟩
        · rw [offsetFrom, if_neg (by omega)]
          exact hforce
        · cases start with
          | none => rfl
          | some first => simp_all; omega

/-- A local second that is shown at some instant is read with some offset. -/
theorem isSome_earliestOffset? (current : Int) (start : Option Int)
    (changes : List (Int × Int)) {seconds : Int} (hstart : start.all (· ≤ seconds) = true) :
    (earliestOffset? current start changes
      (seconds + offsetFrom current changes seconds)).isSome = true := by
  have hbegun : ∀ offset : Int, start.all (· + offset ≤ seconds + offset) = true := by
    intro offset
    cases start with
    | none => rfl
    | some first => simpa using hstart
  induction changes generalizing current start with
  | nil =>
      rw [earliestOffset?, offsetFrom, if_pos (hbegun current)]
      rfl
  | cons change later ih =>
      obtain ⟨stop, next⟩ := change
      rw [earliestOffset?, offsetFrom]
      by_cases hbefore : seconds < stop
      · rw [if_pos hbefore, if_pos]
        · rfl
        · rw [hbegun current]
          simpa using hbefore
      · rw [if_neg hbefore]
        split
        · rfl
        · apply ih
          · simpa using hbefore
          · simpa using hbefore

theorem mem_of_earliestOffset? {current : Int} {start : Option Int}
    {changes : List (Int × Int)} {seconds offset : Int}
    (hoffset : earliestOffset? current start changes seconds = some offset) :
    offset = current ∨ ∃ change ∈ changes, change.2 = offset := by
  induction changes generalizing current start with
  | nil =>
      rw [earliestOffset?] at hoffset
      split at hoffset
      · exact .inl (Option.some.inj hoffset).symm
      · cases hoffset
  | cons change later ih =>
      rw [earliestOffset?] at hoffset
      split at hoffset
      · exact .inl (Option.some.inj hoffset).symm
      · obtain rfl | ⟨found, hmem, rfl⟩ := ih hoffset
        · exact .inr ⟨change, by simp, rfl⟩
        · exact .inr ⟨found, by simp [hmem], rfl⟩

theorem mem_of_offsetFrom (current : Int) (changes : List (Int × Int)) (seconds : Int) :
    offsetFrom current changes seconds = current ∨
      ∃ change ∈ changes, change.2 = offsetFrom current changes seconds := by
  induction changes generalizing current with
  | nil => exact .inl rfl
  | cons change later ih =>
      rw [offsetFrom]
      split
      · exact .inl rfl
      · obtain hsame | ⟨found, hmem, hfound⟩ := ih change.2
        · exact .inr ⟨change, by simp, hsame.symm⟩
        · exact .inr ⟨found, by simp [hmem], hfound⟩

variable {zone : Zone}

theorem forall_isOffset_of_changesFollow {start : Option Int} {current : Int}
    {changes : List (Int × Int)}
    (hchanges : changesFollow isChange start current changes = true) :
    ∀ change ∈ changes, isOffset change.2 = true := by
  induction changes generalizing start current with
  | nil => simp
  | cons change later ih =>
      obtain ⟨stop, offset⟩ := change
      simp only [changesFollow, isChange, Bool.and_eq_true] at hchanges
      obtain ⟨⟨-, hoffset, -⟩, hlater⟩ := hchanges
      exact List.forall_mem_cons.mpr ⟨hoffset, ih hlater⟩

theorem isOffset_of_mem {offset : Int}
    (hoffset : offset = zone.initial ∨ ∃ change ∈ zone.changes, change.2 = offset) :
    (offset.natAbs + 30) / 60 < 1440 := by
  have hbounds : isOffset offset = true := by
    obtain rfl | ⟨change, hmem, rfl⟩ := hoffset
    · exact zone.initial_isOffset
    · exact forall_isOffset_of_changesFollow zone.changes_follow change hmem
  exact of_decide_eq_true hbounds

variable (zone) in
theorem offsetAt_bounds (t : Instant) : ((zone.offsetAt t).natAbs + 30) / 60 < 1440 :=
  isOffset_of_mem (mem_of_offsetFrom _ _ _)

/-! ## Readings -/

/-- The instant of a reading shows that reading. -/
theorem reading_of_earliest? {r : Reading} {t : Instant}
    (ht : zone.earliest? r = some t) : zone.reading t = r := by
  obtain ⟨offset, hoffset, ht⟩ := Option.bind_eq_some_iff.mp ht
  obtain ⟨utc, hutc, ht⟩ := Option.bind_eq_some_iff.mp ht
  cases ht
  obtain ⟨hutc, -⟩ := Option.filter_eq_some_iff.mp hutc
  cases hutc
  obtain ⟨hforce, -⟩ := offsetFrom_of_earliestOffset? zone.changes_follow hoffset
  have hsame : zone.offsetAt ⟨r.ahead (-offset)⟩ = offset := hforce
  rw [reading, hsame, Reading.ahead_neg_ahead]

/-- A reading that is shown at some instant has an instant, unless it lies at the
ends of the supported range. -/
theorem isSome_earliest? {t : Instant}
    (hrange : ∀ offset, -86400 < offset → offset < 86400 →
      ((zone.reading t).ahead offset).inRange = true) :
    (zone.earliest? (zone.reading t)).isSome = true := by
  have hshown : (earliestOffset? zone.initial none zone.changes
      (zone.reading t).seconds).isSome = true :=
    isSome_earliestOffset? zone.initial none zone.changes rfl
  obtain ⟨offset, hoffset⟩ := Option.isSome_iff_exists.mp hshown
  have hbounds := isOffset_of_mem (mem_of_earliestOffset? hoffset)
  have hutc : (zone.reading t).ahead? (-offset) = some ((zone.reading t).ahead (-offset)) :=
    Option.filter_eq_some_iff.mpr ⟨rfl, hrange _ (by omega) (by omega)⟩
  rw [earliest?, hoffset, Option.bind_eq_bind, Option.bind_some, hutc]
  rfl

end Zone

/-! ## Midnights -/

namespace Reading

def ofDay (n : Int) : Reading :=
  ⟨n * secondsPerDay, 0⟩

@[simp] theorem dayNumber_ofDay (n : Int) : (ofDay n).dayNumber = n := by
  simp only [dayNumber, ofDay, secondsPerDay]
  omega

theorem date_ofDay (n : Int) : (ofDay n).date = .ofDayNumber n := by
  rw [date, dayNumber_ofDay]

theorem isMidnight_iff {r : Reading} : r.isMidnight = true ↔ r = ofDay r.dayNumber := by
  obtain ⟨seconds, nanos⟩ := r
  simp only [isMidnight, ofDay, dayNumber, secondOfDay, secondsPerDay, Bool.and_eq_true,
    beq_iff_eq, mk.injEq]
  omega

theorem isMidnight_ofDay (n : Int) : (ofDay n).isMidnight = true := by
  apply isMidnight_iff.mpr
  rw [dayNumber_ofDay]

theorem ofParts_ofDayNumber (n : Int) : ofParts (.ofDayNumber n) 0 0 = ofDay n := by
  simp [ofParts, ofDay, Date.dayNumber_ofDayNumber]

theorem move_ofDay (n : Int) : (ofDay n).move (1 * secondsPerDay) 0 = ofDay (n + 1) := by
  simp [move, ofDay, nanosPerSecond, secondsPerDay, Int.add_mul]

/-- Clocks less than a day apart from midnight show a supported date, if the year
is not at the ends of the range. -/
theorem inRange_ahead_ofDay {n offset : Int} (hfirst : Date.firstYear < (Date.ofDayNumber n).year)
    (hlast : (Date.ofDayNumber n).year ≤ Date.lastYear) (hlow : -86400 < offset)
    (hhigh : offset < 86400) : ((ofDay n).ahead offset).inRange = true := by
  have hday : ((ofDay n).ahead offset).dayNumber = n ∨
      ((ofDay n).ahead offset).dayNumber + 1 = n := by
    simp only [dayNumber, ahead, ofDay, secondsPerDay]
    omega
  have hbounds : Date.firstYear ≤ (Date.ofDayNumber ((ofDay n).ahead offset).dayNumber).year ∧
      (Date.ofDayNumber ((ofDay n).ahead offset).dayNumber).year ≤ Date.lastYear := by
    obtain hday | hday := hday
    · rw [hday]
      omega
    · have hyear := Date.year_ofDayNumber_succ ((ofDay n).ahead offset).dayNumber
      rw [hday] at hyear
      omega
  obtain ⟨hlower, hupper⟩ := Date.year_bounds_iff.mp hbounds
  exact Bool.and_eq_true_iff.mpr ⟨decide_eq_true hlower, decide_eq_true hupper⟩

end Reading

namespace Zone

variable {zone : Zone}

/-- The day after a midnight begins with the first instant that shows its midnight, if
any does. -/
theorem addDays?_eq_earliest? {t shown : Instant} {n : Int}
    (ht : zone.reading t = .ofDay n) (hshown : zone.reading shown = .ofDay (n + 1))
    (hfirst : Date.firstYear < (Date.ofDayNumber (n + 1)).year)
    (hlast : (Date.ofDayNumber (n + 1)).year ≤ Date.lastYear) :
    ∃ next, zone.addDays? t 1 = some next ∧ zone.earliest? (.ofDay (n + 1)) = some next := by
  have hrange : ∀ offset, -86400 < offset → offset < 86400 →
      ((zone.reading shown).ahead offset).inRange = true := by
    intro offset hlow hhigh
    rw [hshown]
    exact Reading.inRange_ahead_ofDay hfirst hlast hlow hhigh
  obtain ⟨next, hsome⟩ := Option.isSome_iff_exists.mp (isSome_earliest? hrange)
  rw [hshown] at hsome
  have hmove : (zone.reading t).move? (1 * Reading.secondsPerDay) 0 = some (.ofDay (n + 1)) := by
    rw [ht]
    apply Option.filter_eq_some_iff.mpr
    rw [Reading.move_ofDay]
    refine ⟨rfl, ?_⟩
    have hnow := hrange 0 (by omega) (by omega)
    rw [hshown] at hnow
    simpa [Reading.ahead] using hnow
  refine ⟨next, ?_, hsome⟩
  rw [addDays?, hmove]
  exact hsome

/-- From a year on, every date has a midnight and offsets are whole minutes. -/
structure RegularSince (zone : Zone) (year : Int) : Prop where
  midnight : ∀ date : Date, date.isValid = true → year ≤ date.year →
    ∃ t, zone.reading t = .ofParts date 0 0
  wholeMinutes : ∀ t, year ≤ (zone.reading t).date.year → zone.offsetAt t % 60 = 0

/-- Zones that never change their clocks are regular, if their offset is in whole
minutes. -/
theorem regularSince_fixed {name : String} {offset : Int} (hoffset : isOffset offset = true)
    (hminutes : offset % 60 = 0) (year : Int) :
    (fixed name offset hoffset).RegularSince year where
  midnight date _ _ := ⟨⟨(Reading.ofParts date 0 0).ahead (-offset)⟩,
    Reading.ahead_neg_ahead _ offset⟩
  wholeMinutes _ _ := hminutes

/-- The next day of a regular zone has a midnight, which is one day ahead. -/
theorem RegularSince.addDays?_eq_some {year : Int}
    (hregular : zone.RegularSince year) (hyear : Date.firstYear < year) {t : Instant} {n : Int}
    (ht : zone.reading t = .ofDay n) (hfirst : year ≤ (Date.ofDayNumber n).year)
    (hlast : (Date.ofDayNumber n).year < Date.lastYear) :
    ∃ next, zone.addDays? t 1 = some next ∧ zone.reading next = .ofDay (n + 1) := by
  have hnext := Date.year_ofDayNumber_succ n
  obtain ⟨shown, hshown⟩ := hregular.midnight (.ofDayNumber (n + 1))
    (Date.isValid_ofDayNumber (by omega) (by omega)) (by omega)
  rw [Reading.ofParts_ofDayNumber] at hshown
  obtain ⟨next, hadded, hearliest⟩ :=
    addDays?_eq_earliest? ht hshown (by omega) (by omega)
  exact ⟨next, hadded, reading_of_earliest? hearliest⟩

end Zone

end TrackerQuery.Calendar
