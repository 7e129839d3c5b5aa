import TrackerQuery.Calendar.KnownZone
import TrackerQuery.Proofs.DateText

/-!
# Dates that are read back as they were

Whatever a text denotes is a reading that a clock shows: its second is an ordinary one
or the leap second that ends a minute.  So an instant is read back from its printed form
exactly if it has such a second.  A leap second within a minute, which a clock with
seconds in its offset makes of one at the end of a minute, is printed as the second
after it.
-/

namespace TrackerQuery

open Decimal (isDigit)

/-! ## Values of digits -/

namespace Decimal

theorem digitValue_le {c : Char} (hc : isDigit c = true) : digitValue c ≤ 9 := by
  simp only [isDigit, Bool.and_eq_true, decide_eq_true_eq] at hc
  have hhigh : c.toNat ≤ '9'.toNat := hc.2
  have hwidth : '9'.toNat = '0'.toNat + 9 := rfl
  unfold digitValue
  omega

theorem extend_lt (value : Nat) {cs : List Char} (hcs : ∀ c ∈ cs, isDigit c = true) :
    extend value cs < (value + 1) * Nat.pow 10 cs.length := by
  induction cs generalizing value with
  | nil => simp [extend]
  | cons c cs ih =>
      obtain ⟨hc, hcs⟩ := List.forall_mem_cons.mp hcs
      have hdigit := digitValue_le hc
      have hstep : extend value (c :: cs) = extend (10 * value + digitValue c) cs := rfl
      calc extend value (c :: cs)
          < (10 * value + digitValue c + 1) * Nat.pow 10 cs.length := hstep ▸ ih _ hcs
        _ ≤ (value + 1) * 10 * Nat.pow 10 cs.length := Nat.mul_le_mul_right _ (by omega)
        _ = (value + 1) * Nat.pow 10 (c :: cs).length := by
          rw [List.length_cons, Nat.mul_assoc, Nat.mul_comm 10]
          rfl

theorem lt_of_natOfDigits? {cs : List Char} {n : Nat} (hn : natOfDigits? cs = some n) :
    n < Nat.pow 10 cs.length := by
  unfold natOfDigits? at hn
  split at hn
  · rename_i hcs
    cases hn
    have hdigits := List.all_eq_true.mp (Bool.and_eq_true_iff.mp hcs).2
    simpa using extend_lt 0 hdigits
  · cases hn

end Decimal

namespace Calendar

/-! ## What a clock shows -/

theorem small?_bounds {low high n : Nat} {cs rest : List Char}
    (hn : small? low high cs = some (n, rest)) : low ≤ n ∧ n ≤ high := by
  have hbounds := (Option.filter_eq_some_iff.mp hn).2
  simpa using hbounds

theorem fraction?_lt {cs rest : List Char} {n : Nat} (hn : fraction? cs = some (n, rest)) :
    n < Reading.nanosPerSecond := by
  obtain ⟨digits, hdigits, heq⟩ := Option.map_eq_some_iff.mp hn
  cases heq
  have hlength : ((cs.take 9).takeWhile isDigit).length ≤ 9 :=
    Nat.le_trans (List.takeWhile_prefix isDigit).length_le (List.length_take_le 9 cs)
  generalize (cs.take 9).takeWhile isDigit = shown at hdigits hlength ⊢
  calc digits * Nat.pow 10 (9 - shown.length)
      < Nat.pow 10 shown.length * Nat.pow 10 (9 - shown.length) :=
        Nat.mul_lt_mul_of_pos_right (Decimal.lt_of_natOfDigits? hdigits) (Nat.pow_pos (by decide))
    _ = Nat.pow 10 9 := by
      have hsum : shown.length + (9 - shown.length) = 9 := by omega
      show 10 ^ shown.length * 10 ^ (9 - shown.length) = 10 ^ 9
      rw [← Nat.pow_add, hsum]

/-- The time of day is one that a clock shows, with second 60 for a leap second. -/
structure Fields.ShownByClock (f : Fields) : Prop where
  hour : f.hour ≤ 23
  minute : f.minute ≤ 59
  second : f.second ≤ 60
  nanos : f.nanos < Reading.nanosPerSecond

/-- No part of a date is read beyond what a clock shows. -/
theorem Fields.ShownByClock.read? {part : Part} {f f' : Fields} {cs rest : List Char}
    (hf : f.ShownByClock) (hread : part.read? f cs = some (f', rest)) : f'.ShownByClock := by
  obtain ⟨hhour, hminute, hsecond, hnanos⟩ := hf
  cases part with
  | year | month | day =>
      obtain ⟨_, -, heq⟩ := Option.map_eq_some_iff.mp hread
      cases heq
      exact ⟨hhour, hminute, hsecond, hnanos⟩
  | hour =>
      obtain ⟨_, hn, heq⟩ := Option.map_eq_some_iff.mp hread
      cases heq
      exact ⟨(small?_bounds hn).2, hminute, hsecond, hnanos⟩
  | minute =>
      obtain ⟨_, hn, heq⟩ := Option.map_eq_some_iff.mp hread
      cases heq
      exact ⟨hhour, (small?_bounds hn).2, hsecond, hnanos⟩
  | second =>
      obtain ⟨_, hn, heq⟩ := Option.map_eq_some_iff.mp hread
      cases heq
      exact ⟨hhour, hminute, (small?_bounds hn).2, hnanos⟩
  | fraction =>
      simp only [Part.read?] at hread
      split at hread
      · obtain ⟨_, hn, heq⟩ := Option.map_eq_some_iff.mp hread
        cases heq
        exact ⟨hhour, hminute, hsecond, fraction?_lt hn⟩
      · cases hread
        exact ⟨hhour, hminute, hsecond, hnanos⟩
  | char c =>
      simp only [Part.read?] at hread
      split at hread
      · split at hread
        · cases hread
          exact ⟨hhour, hminute, hsecond, hnanos⟩
        · cases hread
      · cases hread
  | blanks =>
      cases hread
      exact ⟨hhour, hminute, hsecond, hnanos⟩

theorem Fields.ShownByClock.readParts? {parts : List Part} {f f' : Fields} {cs : List Char}
    (hf : f.ShownByClock) (hread : Calendar.readParts? f parts cs = some f') :
    f'.ShownByClock := by
  induction parts generalizing f cs with
  | nil =>
      cases cs with
      | nil =>
          cases hread
          exact hf
      | cons c cs => cases hread
  | cons part parts ih =>
      unfold Calendar.readParts? at hread
      split at hread
      · rename_i next rest hpart
        exact ih (hf.read? hpart) hread
      · cases hread

theorem Fields.ShownByClock.isPrintable {f : Fields} {r : Reading} (hf : f.ShownByClock)
    (hr : f.reading? = some r) : r.IsPrintable := by
  obtain ⟨hhour, hminute, hsecond, hnanos⟩ := hf
  unfold reading? at hr
  obtain ⟨date, -, hr⟩ := Option.bind_eq_some_iff.mp hr
  split at hr
  · cases hr
    right
    simp only [Reading.ofParts, Reading.second, Reading.secondOfDay, Reading.secondsPerDay,
      Reading.nanosPerSecond] at hnanos ⊢
    omega
  · cases hr
    exact .inl hnanos

/-- What a fixed form denotes can be printed. -/
theorem isPrintable_of_fixed? {cs : List Char} {r : Reading} (hr : fixed? cs = some r) :
    r.IsPrintable := by
  obtain ⟨parts, -, hr⟩ := List.exists_of_findSome?_eq_some hr
  obtain ⟨f, hf, hr⟩ := Option.bind_eq_some_iff.mp hr
  have hstart : ({} : Fields).ShownByClock :=
    ⟨Nat.zero_le _, Nat.zero_le _, Nat.zero_le _, Nat.zero_lt_succ _⟩
  exact (hstart.readParts? hf).isPrintable hr

/-! ## Clocks that are whole minutes apart -/

theorem Reading.isPrintable_ahead_iff {r : Reading} {offset : Int} (hminutes : offset % 60 = 0) :
    (r.ahead offset).IsPrintable ↔ r.IsPrintable := by
  have hsecond : (r.ahead offset).second = r.second := by
    simp only [second, secondOfDay, ahead, secondsPerDay]
    omega
  unfold IsPrintable
  rw [hsecond]
  rfl

theorem Reading.toMillis_eq_self {r : Reading} (hmillis : r.nanos % 1000000 = 0) :
    r.toMillis = r := by
  obtain ⟨seconds, nanos⟩ := r
  simp only [toMillis, mk.injEq, true_and] at hmillis ⊢
  omega

/-! ## Printed instants -/

theorem toList_renderUniversal (t : Instant) :
    t.renderUniversal.toList = t.utc.render.toList ++ ['Z'] := by
  simp [Instant.renderUniversal]

/-- An instant that is printed in UTC is read as what its reading is read as. -/
theorem instant?_renderUniversal (locale : String) (reader : Zone) (t : Instant) :
    instant? locale reader t.renderUniversal =
      (fixed? t.utc.render.toList).map Instant.mk := by
  have htext := toList_renderUniversal t
  have htrim : Text.trim t.renderUniversal = t.renderUniversal := by
    apply trim_eq_self
    · rw [htext, Reading.toList_render]
      simp only [List.append_assoc]
      exact halts_renderYear _ _
    · rw [htext, List.reverse_append]
      exact Scan.halts_cons.mpr (by decide)
  have hempty : t.renderUniversal.toList.isEmpty = false := by
    rw [htext]
    simp
  have hlast : t.renderUniversal.toList.getLast? = some 'Z' := by
    rw [htext, List.getLast?_concat]
  have hbody : t.renderUniversal.toList.dropLast = t.utc.render.toList := by
    rw [htext, List.dropLast_concat]
  have hform : LiteralForm.ofText? t.renderUniversal = some (.universal t.utc.render.toList) := by
    simp only [LiteralForm.ofText?, htrim, hempty, hlast, hbody, beq_self_eq_true, Bool.true_or,
      Bool.false_eq_true, if_false, if_true]
  rw [instant?, instant, hform]
  rfl

/-- An instant to the millisecond, printed in UTC or in a zone with an offset in whole
minutes, is read back in every locale and zone exactly if its second is an ordinary one
or the leap second at the end of a minute. -/
theorem instant?_render_eq_some_iff {t : Instant} {zone : Zone}
    (hmillis : t.utc.nanos % 1000000 = 0)
    (hutc : 0 ≤ t.utc.date.year ∧ t.utc.date.year ≤ 9999)
    (hlocal : 0 ≤ (zone.reading t).date.year ∧ (zone.reading t).date.year ≤ 9999)
    (hminutes : zone.offsetAt t % 60 = 0)
    (hoffset : -86400 < zone.offsetAt t ∧ zone.offsetAt t < 86400)
    (locale : String) (reader : Zone) :
    (instant? locale reader t.renderUniversal = some t ↔ t.utc.IsPrintable) ∧
      (instant? locale reader (t.renderLocal zone) = some t ↔ t.utc.IsPrintable) := by
  have hsupported : ∀ {year : Int}, 0 ≤ year ∧ year ≤ 9999 →
      Date.firstYear ≤ year ∧ year ≤ Date.lastYear := by
    unfold Date.firstYear Date.lastYear
    omega
  have hreading : (zone.reading t).IsPrintable ↔ t.utc.IsPrintable :=
    Reading.isPrintable_ahead_iff hminutes
  have hback : (zone.reading t).ahead (-zone.offsetAt t) = t.utc := by
    have hback := Reading.ahead_neg_ahead t.utc (-zone.offsetAt t)
    rwa [Int.neg_neg] at hback
  constructor
  · rw [instant?_renderUniversal]
    constructor
    · intro hread
      obtain ⟨r, hr, heq⟩ := Option.map_eq_some_iff.mp hread
      cases heq
      exact isPrintable_of_fixed? hr
    · intro hprintable
      obtain ⟨hfirst, hlast⟩ := hsupported hutc
      rw [Reading.fixed?_render hprintable (Date.isValid_ofDayNumber hfirst hlast),
        Reading.toMillis_eq_self hmillis]
      rfl
  · have hbound : ((zone.offsetAt t).natAbs + 30) / 60 < 1440 := by omega
    constructor
    · intro hread
      rw [instant?_renderLocal_eq_bind locale reader hbound,
        roundedOffset_eq_self hminutes] at hread
      obtain ⟨r, hr, hread⟩ := Option.bind_eq_some_iff.mp hread
      obtain ⟨utc, hahead, heq⟩ := Option.map_eq_some_iff.mp hread
      obtain ⟨hahead, -⟩ := Option.filter_eq_some_iff.mp hahead
      have hutc : r.ahead (-zone.offsetAt t) = t.utc := by rw [Option.some.inj hahead, ← heq]
      rw [← hutc]
      exact (Reading.isPrintable_ahead_iff (by omega)).mpr (isPrintable_of_fixed? hr)
    · intro hprintable
      obtain ⟨hfirst, hlast⟩ := hsupported hlocal
      have hrange : t.utc.inRange = true := by
        obtain ⟨hlower, hupper⟩ := Date.year_bounds_iff.mp (hsupported hutc)
        exact Bool.and_eq_true_iff.mpr ⟨decide_eq_true hlower, decide_eq_true hupper⟩
      have hmillis : (zone.reading t).nanos % 1000000 = 0 := hmillis
      rw [instant?_renderLocal locale reader (hreading.mpr hprintable)
        (Date.isValid_ofDayNumber hfirst hlast) hbound, roundedOffset_eq_self hminutes,
        Reading.toMillis_eq_self hmillis, Reading.ahead?, hback, Option.filter_some,
        if_pos hrange]
      rfl

/-- The leap second at the end of 2016, in UTC and as clocks half an hour off show it. -/
theorem instant?_render_leap_second :
    instant? "de-DE" .kathmandu (Instant.renderUniversal ⟨⟨1483228799, 1000000000⟩⟩) =
        some ⟨⟨1483228799, 1000000000⟩⟩ ∧
      instant? "de-DE" .kathmandu (Instant.renderLocal ⟨⟨1483228799, 1000000000⟩⟩ .kolkata) =
        some ⟨⟨1483228799, 1000000000⟩⟩ := by
  have hprintable : Reading.IsPrintable ⟨1483228799, 1000000000⟩ :=
    .inr ⟨by decide, by decide⟩
  have hround := @instant?_render_eq_some_iff ⟨⟨1483228799, 1000000000⟩⟩ .kolkata
    (by decide) (by decide) (by decide) (by decide) (by decide) "de-DE" .kathmandu
  exact ⟨hround.1.mpr hprintable, hround.2.mpr hprintable⟩

/-- Clocks in New York were 4:56:02 behind UTC, so the leap second that they show at the
end of a minute lies within a minute of UTC.  Printed, it is the second after it. -/
theorem instant?_render_leap_second_of_local_mean_time :
    instant? "en-US" .newYork "1880-01-01T12:00:60" = some ⟨⟨-2840079779, 1000000000⟩⟩ ∧
      (Reading.date ⟨-2840079779, 1000000000⟩).year = 1880 ∧
      instant? "en-US" .utc (Instant.renderUniversal ⟨⟨-2840079779, 1000000000⟩⟩) ≠
        some ⟨⟨-2840079779, 1000000000⟩⟩ ∧
      instant? "en-US" .utc (Instant.renderLocal ⟨⟨-2840079779, 1000000000⟩⟩ .utc) ≠
        some ⟨⟨-2840079779, 1000000000⟩⟩ := by
  decide +kernel

end Calendar

end TrackerQuery
