import TrackerQuery.Proofs.ZoneReading

/-!
# The order of days

Dates and instants have an order each, and clocks tie one to the other.  Clocks may be
set forward and back, so that a later instant need not show a later date.  It does where
days are whole: if a day and the one before it are one interval of instants each, and
clocks are set back by at most a day at once, the instants from the midnight of the day
on are just those whose date is not earlier.
-/

namespace TrackerQuery.Calendar

/-! ## Dates -/

namespace Date

/-- Dates are compared by year, then by month, then by day. -/
instance instLTDate : LT Date where
  lt a b := a.year < b.year ∨ a.year = b.year ∧
    (a.month < b.month ∨ a.month = b.month ∧ a.day < b.day)

instance instLEDate : LE Date where
  le a b := a < b ∨ a = b

theorem lt_iff {a b : Date} : a < b ↔ a.year < b.year ∨ a.year = b.year ∧
    (a.month < b.month ∨ a.month = b.month ∧ a.day < b.day) :=
  Iff.rfl

theorem le_iff {a b : Date} : a ≤ b ↔ a < b ∨ a = b :=
  Iff.rfl

theorem lt_irrefl (a : Date) : ¬ a < a := by
  rw [lt_iff]
  omega

theorem lt_asymm {a b : Date} (hab : a < b) : ¬ b < a := by
  rw [lt_iff] at hab ⊢
  omega

/-- Later days have later dates. -/
theorem ofDayNumber_lt {m n : Int} (hmn : m < n) : ofDayNumber m < ofDayNumber n := by
  obtain ⟨year, day, month, hm, hend, hday, hmonth, hdate⟩ := ofDayNumber_parts m
  obtain ⟨year', day', month', hn, hend', hday', hmonth', hdate'⟩ := ofDayNumber_parts n
  have hyears : year ≤ year' := by
    by_cases hback : year' + 1 ≤ year
    · have := daysBefore_add_le hback
      omega
    · omega
  rw [hdate, hdate', lt_iff]
  obtain heq | hlater : year = year' ∨ year + 1 ≤ year' := by omega
  · -- in one year that begins in March, months and days of the month follow the day
    subst heq
    have hdays : day < day' := by omega
    dsimp only
    split <;> split <;> omega
  · -- in January and February the year is that of the months before March
    dsimp only
    split <;> split <;> omega

theorem ofDayNumber_lt_iff {m n : Int} : ofDayNumber m < ofDayNumber n ↔ m < n := by
  constructor
  · intro hlt
    by_cases hback : n < m
    · exact absurd (ofDayNumber_lt hback) (lt_asymm hlt)
    · have hne : m ≠ n := by
        rintro rfl
        exact lt_irrefl _ hlt
      omega
  · exact ofDayNumber_lt

theorem ofDayNumber_inj {m n : Int} : ofDayNumber m = ofDayNumber n ↔ m = n := by
  constructor
  · intro heq
    rw [← dayNumber_ofDayNumber m, heq, dayNumber_ofDayNumber]
  · exact congrArg ofDayNumber

theorem ofDayNumber_le_iff {m n : Int} : ofDayNumber m ≤ ofDayNumber n ↔ m ≤ n := by
  rw [le_iff, ofDayNumber_lt_iff, ofDayNumber_inj]
  omega

end Date

/-! ## Instants -/

namespace Instant

/-- Instants are compared by the second, then by the fraction of it. -/
instance instLTInstant : LT Instant where
  lt a b := a.utc.seconds < b.utc.seconds ∨
    a.utc.seconds = b.utc.seconds ∧ a.utc.nanos < b.utc.nanos

instance instLEInstant : LE Instant where
  le a b := a.utc.seconds < b.utc.seconds ∨
    a.utc.seconds = b.utc.seconds ∧ a.utc.nanos ≤ b.utc.nanos

theorem le_iff {a b : Instant} : a ≤ b ↔ a.utc.seconds < b.utc.seconds ∨
    a.utc.seconds = b.utc.seconds ∧ a.utc.nanos ≤ b.utc.nanos :=
  Iff.rfl

theorem lt_iff_not_le {a b : Instant} : a < b ↔ ¬ b ≤ a := by
  show (a.utc.seconds < b.utc.seconds ∨ _) ↔ _
  rw [le_iff]
  omega

theorem le_trans {a b c : Instant} (hab : a ≤ b) (hbc : b ≤ c) : a ≤ c := by
  rw [le_iff] at hab hbc ⊢
  omega

theorem le_antisymm {a b : Instant} (hab : a ≤ b) (hba : b ≤ a) : a = b := by
  obtain ⟨⟨_, _⟩⟩ := a
  obtain ⟨⟨_, _⟩⟩ := b
  rw [le_iff] at hab hba
  simp only [mk.injEq, Reading.mk.injEq]
  dsimp only at hab hba
  omega

theorem seconds_le {a b : Instant} (hab : a ≤ b) : a.utc.seconds ≤ b.utc.seconds := by
  rw [le_iff] at hab
  omega

/-- An instant without a fraction is compared by the second. -/
theorem le_iff_of_nanos {a b : Instant} (ha : a.utc.nanos = 0) :
    a ≤ b ↔ a.utc.seconds ≤ b.utc.seconds := by
  rw [le_iff]
  omega

end Instant

namespace Zone

variable {zone : Zone}

/-! ## Changes of the offset -/

variable {rule : (stop before after : Int) → Bool} {start : Option Int} {current : Int}
  {changes : List (Int × Int)}

theorem offsetFrom_of_later {seconds : Int}
    (hchanges : changesFollow rule (some seconds) current changes = true) :
    offsetFrom current changes seconds = current := by
  cases changes with
  | nil => rfl
  | cons change later =>
      simp only [changesFollow, Bool.and_eq_true, Option.all_some, decide_eq_true_eq] at hchanges
      rw [offsetFrom, if_pos hchanges.1.1]

/-- From one second to the next the offset stays or changes by the rule. -/
theorem offsetFrom_succ (hchanges : changesFollow rule start current changes = true)
    (seconds : Int) :
    offsetFrom current changes (seconds + 1) = offsetFrom current changes seconds ∨
      rule (seconds + 1) (offsetFrom current changes seconds)
        (offsetFrom current changes (seconds + 1)) = true := by
  induction changes generalizing start current with
  | nil => exact .inl rfl
  | cons change later ih =>
      obtain ⟨stop, offset⟩ := change
      simp only [changesFollow, Bool.and_eq_true] at hchanges
      obtain ⟨⟨-, hrule⟩, hlater⟩ := hchanges
      simp only [offsetFrom]
      by_cases hbefore : seconds + 1 < stop
      · left
        rw [if_pos hbefore, if_pos (by omega)]
      · rw [if_neg hbefore]
        by_cases hchange : seconds < stop
        · right
          obtain rfl : stop = seconds + 1 := by omega
          rw [if_pos hchange, offsetFrom_of_later hlater]
          exact hrule
        · rw [if_neg hchange]
          exact ih hlater

/-! ## Days -/

def localAt (zone : Zone) (seconds : Int) : Int :=
  seconds + offsetFrom zone.initial zone.changes seconds

def dayAt (zone : Zone) (seconds : Int) : Int :=
  zone.localAt seconds / Reading.secondsPerDay

theorem dayNumber_reading (t : Instant) :
    (zone.reading t).dayNumber = zone.dayAt t.utc.seconds :=
  rfl

/-- The day is one interval of instants that starts with its midnight, and the offset is
in whole minutes throughout. -/
structure WholeDay (zone : Zone) (n : Int) : Prop where
  start : ∃ start, zone.reading start = .ofDay n ∧
    ∀ x, (zone.reading x).dayNumber = n → start ≤ x
  interval : ∀ x y z, x ≤ y → y ≤ z → (zone.reading x).dayNumber = n →
    (zone.reading z).dayNumber = n → (zone.reading y).dayNumber = n
  wholeMinutes : ∀ x, (zone.reading x).dayNumber = n → zone.offsetAt x % 60 = 0

theorem localAt_of_reading {t : Instant} {n : Int} (ht : zone.reading t = .ofDay n) :
    zone.localAt t.utc.seconds = n * Reading.secondsPerDay ∧ t.utc.nanos = 0 :=
  ⟨congrArg Reading.seconds ht, congrArg Reading.nanos ht⟩

/-- Clocks that have reached a day do not go back behind it in the next second, if the
day before is whole. -/
theorem le_dayAt_succ {n seconds : Int}
    (hbefore : zone.WholeDay (n - 1)) (hn : n ≤ zone.dayAt seconds) :
    n ≤ zone.dayAt (seconds + 1) := by
  have hback : zone.localAt seconds + 1 - 86400 ≤ zone.localAt (seconds + 1) := by
    unfold localAt
    obtain hsame | hrule := offsetFrom_succ zone.changes_follow seconds
    · omega
    · have hrule := of_decide_eq_true (Bool.and_eq_true_iff.mp hrule).2
      rw [Reading.secondsPerDay] at hrule
      omega
  have hlocal : n * 86400 ≤ zone.localAt seconds := by
    rw [dayAt, Reading.secondsPerDay] at hn
    omega
  by_cases hkept : n ≤ zone.dayAt (seconds + 1)
  · exact hkept
  · -- the day before would come back after its end, and not at its midnight
    have hday : zone.dayAt (seconds + 1) = n - 1 := by
      rw [dayAt, Reading.secondsPerDay] at hkept ⊢
      omega
    obtain ⟨start, hstart, hleast⟩ := hbefore.start
    obtain ⟨hmidnight, hnanos⟩ := localAt_of_reading hstart
    have hle := (Instant.le_iff_of_nanos hnanos).mp (hleast ⟨⟨seconds + 1, 0⟩⟩ hday)
    have hne : start.utc.seconds ≠ seconds + 1 := by
      intro heq
      rw [heq, Reading.secondsPerDay] at hmidnight
      omega
    have hcontains := hbefore.interval start ⟨⟨seconds, 0⟩⟩ ⟨⟨seconds + 1, 0⟩⟩
      ((Instant.le_iff_of_nanos hnanos).mpr (by dsimp only at hle ⊢; omega))
      ((Instant.le_iff_of_nanos rfl).mpr (by dsimp only; omega))
      (by rw [hstart, Reading.dayNumber_ofDay]) hday
    have hsame : zone.dayAt seconds = n - 1 := hcontains
    omega

theorem le_dayAt {n first last : Int}
    (hbefore : zone.WholeDay (n - 1)) (hn : n ≤ zone.dayAt first) (hle : first ≤ last) :
    n ≤ zone.dayAt last := by
  obtain ⟨count, rfl⟩ := Int.le.dest hle
  induction count with
  | zero => simpa using hn
  | succ count ih =>
      have hprevious := ih (by omega)
      rw [show first + ((count + 1 : Nat) : Int) = first + count + 1 by omega]
      exact le_dayAt_succ hbefore hprevious

/-- The instants from the first one of a day on are those whose day is not earlier. -/
theorem le_dayNumber_iff {n : Int} {start : Instant}
    (hbefore : zone.WholeDay (n - 1)) (hday : zone.WholeDay n)
    (hstart : zone.reading start = .ofDay n)
    (hleast : ∀ x, (zone.reading x).dayNumber = n → start ≤ x) (x : Instant) :
    n ≤ (zone.reading x).dayNumber ↔ start ≤ x := by
  obtain ⟨-, hnanos⟩ := localAt_of_reading hstart
  have hreached : zone.dayAt start.utc.seconds = n := by
    rw [← dayNumber_reading, hstart, Reading.dayNumber_ofDay]
  rw [dayNumber_reading, Instant.le_iff_of_nanos hnanos]
  constructor
  · intro hn
    by_cases hsame : zone.dayAt x.utc.seconds = n
    · exact (Instant.le_iff_of_nanos hnanos).mp (hleast x hsame)
    · -- a later day cannot come before the first instant of this one
      by_cases hearlier : x.utc.seconds ≤ start.utc.seconds
      · have hlater : n + 1 ≤ zone.dayAt start.utc.seconds :=
          le_dayAt (by rwa [Int.add_sub_cancel]) (by omega) hearlier
        omega
      · omega
  · exact le_dayAt hbefore (by omega)

/-! ## The first instant of a day -/

/-- Of the seconds at which clocks show a time the first one is chosen. -/
theorem earliestOffset?_le {seconds offset : Int}
    (hoffset : earliestOffset? current start changes seconds = some offset) {shown : Int}
    (hstart : start.all (· ≤ shown) = true)
    (hshown : shown + offsetFrom current changes shown = seconds) : seconds - offset ≤ shown := by
  have hbegun : ∀ offset : Int, shown + offset = seconds →
      start.all (· + offset ≤ seconds) = true := by
    intro offset heq
    cases start with
    | none => rfl
    | some first =>
        simp only [Option.all_some, decide_eq_true_eq] at hstart ⊢
        omega
  induction changes generalizing current start with
  | nil =>
      rw [earliestOffset?] at hoffset
      split at hoffset
      · cases hoffset
        rw [offsetFrom] at hshown
        omega
      · cases hoffset
  | cons change later ih =>
      obtain ⟨stop, next⟩ := change
      rw [earliestOffset?] at hoffset
      rw [offsetFrom] at hshown
      split at hoffset
      · rename_i hwithin
        cases hoffset
        have hstop := of_decide_eq_true (Bool.and_eq_true_iff.mp hwithin).2
        split at hshown
        · omega
        · omega
      · rename_i hout
        split at hshown
        · rename_i hbefore
          refine absurd ?_ hout
          rw [hbegun current hshown]
          simp only [Bool.true_and, decide_eq_true_eq]
          omega
        · rename_i hafter
          have hstop : (some stop).all (· ≤ shown) = true := by
            simpa using hafter
          exact ih hoffset hstop hshown (by
            intro offset heq
            simp only [Option.all_some, decide_eq_true_eq]
            omega)

/-- The instant of a reading is the first that shows it. -/
theorem earliest?_le {r : Reading} {t x : Instant} (ht : zone.earliest? r = some t)
    (hx : zone.reading x = r) : t ≤ x := by
  obtain ⟨offset, hoffset, ht⟩ := Option.bind_eq_some_iff.mp ht
  obtain ⟨utc, hutc, ht⟩ := Option.bind_eq_some_iff.mp ht
  cases ht
  obtain ⟨hutc, -⟩ := Option.filter_eq_some_iff.mp hutc
  cases hutc
  have hseconds : x.utc.seconds + offsetFrom zone.initial zone.changes x.utc.seconds = r.seconds :=
    congrArg Reading.seconds hx
  have hnanos : (zone.reading x).nanos = r.nanos := congrArg Reading.nanos hx
  change x.utc.nanos = r.nanos at hnanos
  have hle := earliestOffset?_le hoffset rfl hseconds
  rw [Instant.le_iff]
  show r.seconds + -offset < _ ∨ r.seconds + -offset = _ ∧ r.nanos ≤ _
  omega

/-- The instant of the midnight of a whole day is the first of the day. -/
theorem WholeDay.earliest?_le {n : Int} {t x : Instant} (hday : zone.WholeDay n)
    (ht : zone.earliest? (.ofDay n) = some t) (hx : (zone.reading x).dayNumber = n) : t ≤ x := by
  obtain ⟨start, hstart, hleast⟩ := hday.start
  exact Instant.le_trans (Zone.earliest?_le ht hstart) (hleast x hx)

/-! ## Zones whose days are whole -/

/-- A change that leaves clocks on the same day or puts them on the midnight of the next,
with an offset in whole minutes; up to `since` any change will do. -/
def steadyChange (since stop before after : Int) : Bool :=
  stop ≤ since || after % 60 == 0 &&
    ((stop + after) / 86400 == (stop - 1 + before) / 86400 ||
      (stop + after) / 86400 == (stop - 1 + before) / 86400 + 1 && (stop + after) % 86400 == 0)

/-- From a second on the offset is in whole minutes and no change splits a day or takes
its midnight away. -/
def isSteadySince (zone : Zone) (since : Int) : Bool :=
  offsetFrom zone.initial zone.changes since % 60 == 0 &&
    changesFollow (steadyChange since) none zone.initial zone.changes

variable {since : Int}

/-- In a second clocks stay on the day or reach the midnight of the next. -/
theorem dayAt_succ (hsteady : zone.isSteadySince since = true) {seconds : Int}
    (hsince : since ≤ seconds) :
    zone.dayAt (seconds + 1) = zone.dayAt seconds ∨
      zone.dayAt (seconds + 1) = zone.dayAt seconds + 1 ∧
        zone.localAt (seconds + 1) % 86400 = 0 := by
  obtain ⟨-, hchanges⟩ := Bool.and_eq_true_iff.mp hsteady
  obtain hsame | hrule := offsetFrom_succ hchanges seconds
  · simp only [dayAt, localAt, hsame, Reading.secondsPerDay]
    omega
  · simp only [steadyChange, Bool.or_eq_true, Bool.and_eq_true, decide_eq_true_eq,
      beq_iff_eq] at hrule
    simp only [dayAt, localAt, Reading.secondsPerDay]
    omega

theorem dayAt_le (hsteady : zone.isSteadySince since = true) {first last : Int}
    (hsince : since ≤ first) (hle : first ≤ last) : zone.dayAt first ≤ zone.dayAt last := by
  obtain ⟨count, rfl⟩ := Int.le.dest hle
  induction count with
  | zero => simp
  | succ count ih =>
      have hprevious := ih (by omega)
      have hnext := dayAt_succ hsteady (show since ≤ first + count by omega)
      rw [show first + ((count + 1 : Nat) : Int) = first + count + 1 by omega]
      omega

theorem offsetFrom_wholeMinutes (hsteady : zone.isSteadySince since = true) {seconds : Int}
    (hsince : since ≤ seconds) : offsetFrom zone.initial zone.changes seconds % 60 = 0 := by
  obtain ⟨hfirst, hchanges⟩ := Bool.and_eq_true_iff.mp hsteady
  obtain ⟨count, rfl⟩ := Int.le.dest hsince
  induction count with
  | zero => simpa using hfirst
  | succ count ih =>
      have hprevious := ih (by omega)
      rw [show since + ((count + 1 : Nat) : Int) = since + count + 1 by omega]
      obtain hsame | hrule := offsetFrom_succ hchanges (since + count)
      · rw [hsame]
        exact hprevious
      · simp only [steadyChange, Bool.or_eq_true, Bool.and_eq_true, decide_eq_true_eq,
          beq_iff_eq] at hrule
        omega

/-- Clocks that are behind a day and reach it later do so at its midnight. -/
theorem exists_midnight (hsteady : zone.isSteadySince since = true) {n : Int} (count : Nat)
    (hbehind : zone.dayAt since < n) (hreached : n ≤ zone.dayAt (since + count)) :
    ∃ seconds, since ≤ seconds ∧ zone.dayAt seconds < n ∧
      zone.localAt (seconds + 1) = n * 86400 := by
  induction count with
  | zero =>
      simp only [Int.natCast_zero, Int.add_zero] at hreached
      omega
  | succ count ih =>
      by_cases hearlier : n ≤ zone.dayAt (since + count)
      · exact ih hearlier
      · rw [show since + ((count + 1 : Nat) : Int) = since + count + 1 by omega] at hreached
        refine ⟨since + count, by omega, by omega, ?_⟩
        have hnext := dayAt_succ hsteady (show since ≤ since + count by omega)
        have hday : zone.dayAt (since + count + 1) = zone.localAt (since + count + 1) / 86400 := rfl
        omega

/-- The days of a steady zone are whole. -/
theorem wholeDay_of_isSteadySince (hsteady : zone.isSteadySince since = true) {n : Int}
    (hn : since / 86400 + 2 ≤ n) : zone.WholeDay n := by
  have hbounds : ∀ seconds, seconds - 86400 < zone.localAt seconds ∧
      zone.localAt seconds < seconds + 86400 := by
    intro seconds
    have hoffset := zone.offsetAt_bounds ⟨⟨seconds, 0⟩⟩
    change ((offsetFrom zone.initial zone.changes seconds).natAbs + 30) / 60 < 1440 at hoffset
    unfold localAt
    omega
  have hbehind : ∀ seconds, seconds ≤ since → zone.dayAt seconds < n := by
    intro seconds hle
    have := hbounds seconds
    rw [dayAt, Reading.secondsPerDay]
    omega
  have hlate : ∀ {x : Instant}, (zone.reading x).dayNumber = n → since ≤ x.utc.seconds := by
    intro x hx
    rw [dayNumber_reading] at hx
    have := hbehind x.utc.seconds
    omega
  obtain ⟨count, hcount⟩ := Int.le.dest (show since ≤ (n + 1) * 86400 by omega)
  have hreached : n ≤ zone.dayAt (since + count) := by
    have := hbounds (since + count)
    rw [dayAt, Reading.secondsPerDay]
    omega
  obtain ⟨seconds, hsince, hless, hmidnight⟩ :=
    exists_midnight hsteady count (hbehind since (Int.le_refl since)) hreached
  refine ⟨⟨⟨⟨seconds + 1, 0⟩⟩, ?_, ?_⟩, ?_, ?_⟩
  · show (⟨zone.localAt (seconds + 1), 0⟩ : Reading) = _
    rw [hmidnight]
    rfl
  · intro x hx
    rw [Instant.le_iff_of_nanos rfl]
    show seconds + 1 ≤ x.utc.seconds
    by_cases hearlier : x.utc.seconds ≤ seconds
    · have := dayAt_le hsteady (hlate hx) hearlier
      rw [dayNumber_reading] at hx
      omega
    · omega
  · intro x y z hxy hyz hx hz
    have hsincex := hlate hx
    have hfirst := dayAt_le hsteady hsincex (Instant.seconds_le hxy)
    have hlast := dayAt_le hsteady (Int.le_trans hsincex (Instant.seconds_le hxy))
      (Instant.seconds_le hyz)
    rw [dayNumber_reading] at hx hz ⊢
    omega
  · intro x hx
    exact offsetFrom_wholeMinutes hsteady (hlate hx)

end Zone

end TrackerQuery.Calendar
