import TrackerQuery.Calendar.Literal
import TrackerQuery.Proofs.Outcome
import TrackerQuery.Proofs.PrintedText
import TrackerQuery.Proofs.ZoneReading

/-!
# Printed dates

A printed date is read back to the millisecond, whatever the locale and the zone it
is read in.  Reading takes the parts of the printed form one after the other; each
part is a padded number, which is taken whole because a separator follows it.
-/

namespace TrackerQuery

open Decimal (isDigit)
open Scan (Halts)

/-! ## Padded numbers -/

namespace Decimal

theorem toList_padded (width n : Nat) : (padded width n).toList =
    List.replicate (width - (Nat.toDigits 10 n).length) '0' ++ Nat.toDigits 10 n := by
  simp [padded, Nat.repr_eq_ofList_toDigits]

theorem isDigit_of_mem_padded {width n : Nat} :
    ∀ c ∈ (padded width n).toList, isDigit c = true := by
  intro c hc
  rw [toList_padded, List.mem_append] at hc
  obtain hc | hc := hc
  · rw [(List.mem_replicate.mp hc).2]
    decide
  · have hdigit := Nat.isDigit_of_mem_toDigits (by decide) (by decide) hc
    simpa [Char.isDigit, isDigit, Char.le_def, UInt32.le_iff_toNat_le] using hdigit

theorem padded_ne_nil (width n : Nat) : (padded width n).toList ≠ [] := by
  rw [toList_padded]
  simp [Nat.toDigits_ne_nil]

theorem length_padded {width n : Nat} (hwidth : 0 < width) (hn : n < Nat.pow 10 width) :
    (padded width n).toList.length = width := by
  have hlength := (Nat.length_toDigits_le_iff (by decide) hwidth).mpr hn
  rw [toList_padded, List.length_append, List.length_replicate]
  omega

theorem extend_padded (width n : Nat) : extend 0 (padded width n).toList = n := by
  have hextend : ∀ cs, extend 0 cs = Nat.ofDigitChars 10 cs 0 := by
    intro cs
    exact Nat.ofDigitChars_eq_foldl.symm
  rw [hextend, toList_padded, Nat.ofDigitChars_append, Nat.ofDigitChars_replicate_zero,
    Nat.mul_zero, Nat.ofDigitChars_ten_toDigits]

theorem natOfDigits?_padded (width n : Nat) : natOfDigits? (padded width n).toList = some n := by
  have hall : (padded width n).toList.all isDigit = true :=
    List.all_eq_true.mpr isDigit_of_mem_padded
  have hsome : (padded width n).toList.isEmpty = false :=
    List.isEmpty_eq_false_iff.mpr (padded_ne_nil width n)
  rw [natOfDigits?, hall, hsome, extend_padded]
  rfl

end Decimal

namespace Calendar

open Decimal (padded)

/-! ## Parts -/

theorem takeWhile_of_halts {p : Char → Bool} {cs : List Char} (hcs : Halts p cs) :
    cs.takeWhile p = [] := by
  cases cs with
  | nil => rfl
  | cons c cs => simp [hcs c rfl]

theorem dropWhile_of_halts {p : Char → Bool} {cs : List Char} (hcs : Halts p cs) :
    cs.dropWhile p = cs := by
  cases cs with
  | nil => rfl
  | cons c cs => simp [hcs c rfl]

/-- A padded number starts with a digit. -/
theorem padded_append (width n : Nat) (rest : List Char) :
    ∃ d ds, (padded width n).toList ++ rest = d :: ds ∧ isDigit d = true := by
  obtain ⟨d, ds, heq⟩ := List.exists_cons_of_ne_nil (Decimal.padded_ne_nil width n)
  refine ⟨d, ds ++ rest, by rw [heq, List.cons_append], ?_⟩
  exact Decimal.isDigit_of_mem_padded d (by rw [heq]; simp)

theorem dropWhile_isBlank_padded (width n : Nat) (rest : List Char) :
    ((padded width n).toList ++ rest).dropWhile Text.isBlank =
      (padded width n).toList ++ rest := by
  obtain ⟨d, ds, heq, hd⟩ := padded_append width n rest
  rw [heq]
  exact dropWhile_of_halts (Scan.halts_cons.mpr (Scan.isNameStart_of_isDigit hd).2)

/-- Digits are taken whole if they fill the width or are followed by something else. -/
theorem digits?_padded {width count n : Nat} {rest : List Char}
    (hwidth : (padded count n).toList.length ≤ width)
    (hrest : (padded count n).toList.length = width ∨ Halts isDigit rest) :
    digits? width ((padded count n).toList ++ rest) = some (n, rest) := by
  have htake : (((padded count n).toList ++ rest).take width).takeWhile isDigit =
      (padded count n).toList := by
    rw [List.take_append, List.take_of_length_le hwidth,
      List.takeWhile_append_of_pos Decimal.isDigit_of_mem_padded]
    obtain hfull | hhalts := hrest
    · rw [hfull, Nat.sub_self, List.take_zero, List.takeWhile_nil, List.append_nil]
    · rw [takeWhile_of_halts (hhalts.of_isPrefix (List.take_prefix _ rest)), List.append_nil]
  rw [digits?, htake, Decimal.natOfDigits?_padded, List.drop_left]
  rfl

theorem small?_padded {low high n : Nat} (hlow : low ≤ n) (hhigh : n ≤ high) (hn : n < 100)
    (rest : List Char) : small? low high ((padded 2 n).toList ++ rest) = some (n, rest) := by
  have hlength : (padded 2 n).toList.length = 2 := Decimal.length_padded (by decide) hn
  rw [small?, dropWhile_isBlank_padded, digits?_padded (Nat.le_of_eq hlength) (.inl hlength)]
  simp [Option.filter, hlow, hhigh]

theorem year?_minus (cs : List Char) :
    year? ('-' :: cs) = (digits? cs.length cs).map fun (n, rest) => (-(n : Int), rest) := by
  rw [year?, dropWhile_of_halts (Scan.halts_cons.mpr (by decide))]
  rfl

theorem year?_plus (cs : List Char) :
    year? ('+' :: cs) = (digits? cs.length cs).map fun (n, rest) => ((n : Int), rest) := by
  rw [year?, dropWhile_of_halts (Scan.halts_cons.mpr (by decide))]
  rfl

theorem year?_padded (width n : Nat) (rest : List Char) :
    year? ((padded width n).toList ++ rest) =
      (digits? 4 ((padded width n).toList ++ rest)).map fun (n, rest) => ((n : Int), rest) := by
  rw [year?, dropWhile_isBlank_padded]
  obtain ⟨d, ds, heq, hd⟩ := padded_append width n rest
  rw [heq]
  split
  · rename_i hcons
    exact absurd (List.cons.inj hcons).1 (Scan.ne_of_isDigit hd (by decide))
  · rename_i hcons
    exact absurd (List.cons.inj hcons).1 (Scan.ne_of_isDigit hd (by decide))
  · rfl

/-- A year is read back, with or without a sign. -/
theorem year?_renderYear (year : Int) {rest : List Char} (hrest : Halts isDigit rest) :
    year? ((renderYear year).toList ++ rest) = some (year, rest) := by
  have hsigned : digits? ((padded 4 year.natAbs).toList ++ rest).length
      ((padded 4 year.natAbs).toList ++ rest) = some (year.natAbs, rest) :=
    digits?_padded (by simp) (.inr hrest)
  rw [renderYear]
  by_cases hnegative : year < 0
  · have hvalue : -(year.natAbs : Int) = year := by omega
    rw [if_pos hnegative, String.toList_append, show "-".toList = ['-'] from rfl,
      List.singleton_append, List.cons_append, year?_minus, hsigned, Option.map_some]
    show some (-(year.natAbs : Int), rest) = some (year, rest)
    rw [hvalue]
  rw [if_neg hnegative]
  have hvalue : (year.natAbs : Int) = year := by omega
  by_cases hlong : 9999 < year
  · rw [if_pos hlong, String.toList_append, show "+".toList = ['+'] from rfl,
      List.singleton_append, List.cons_append, year?_plus, hsigned, Option.map_some]
    show some ((year.natAbs : Int), rest) = some (year, rest)
    rw [hvalue]
  have hfour : year.natAbs < 10000 := by omega
  have hlength : (padded 4 year.natAbs).toList.length = 4 :=
    Decimal.length_padded (by decide) hfour
  rw [if_neg hlong, year?_padded, digits?_padded (Nat.le_of_eq hlength) (.inr hrest),
    Option.map_some]
  show some ((year.natAbs : Int), rest) = some (year, rest)
  rw [hvalue]

theorem fraction?_padded {n : Nat} (hn : n < 1000) :
    fraction? (padded 3 n).toList = some (n * 1000000, []) := by
  have hlength : (padded 3 n).toList.length = 3 := Decimal.length_padded (by decide) hn
  have htake : ((padded 3 n).toList.take 9).takeWhile isDigit = (padded 3 n).toList := by
    rw [List.take_of_length_le (by omega), ← List.append_nil (padded 3 n).toList,
      List.takeWhile_append_of_pos Decimal.isDigit_of_mem_padded, List.takeWhile_nil]
  rw [fraction?, htake, Decimal.natOfDigits?_padded, hlength, List.drop_eq_nil_of_le (by omega)]
  rfl

/-! ## Printed readings -/

theorem Date.daysInMonth_le (year : Int) (month : Nat) : daysInMonth year month ≤ 31 := by
  fun_cases daysInMonth <;> decide

theorem Date.bounds_of_isValid {date : Date} (hdate : date.isValid = true) :
    (1 ≤ date.month ∧ date.month ≤ 12) ∧ (1 ≤ date.day ∧ date.day ≤ 31) := by
  simp only [isValid, Bool.and_eq_true, decide_eq_true_eq] at hdate
  obtain ⟨⟨⟨⟨⟨-, -⟩, hmonth⟩, hmonth'⟩, hday⟩, hday'⟩ := hdate
  exact ⟨⟨hmonth, hmonth'⟩, hday, Nat.le_trans hday' (daysInMonth_le ..)⟩

namespace Reading

theorem toList_render (r : Reading) : r.render.toList =
    (renderYear r.date.year).toList ++ '-' :: ((padded 2 r.date.month).toList ++
      '-' :: ((padded 2 r.date.day).toList ++ 'T' :: ((padded 2 r.hour).toList ++
      ':' :: ((padded 2 r.minute).toList ++
      ':' :: ((padded 2 (r.second + r.nanos / nanosPerSecond)).toList ++
      '.' :: (padded 3 (r.nanos % nanosPerSecond / 1000000)).toList))))) := by
  simp [render, toString]

/-- A printed second is a second of the clock, or the leap second after the last one
of a minute. -/
def IsPrintable (r : Reading) : Prop :=
  r.nanos < nanosPerSecond ∨ r.nanos < 2 * nanosPerSecond ∧ r.second = 59

/-- The values that a printed reading is read as. -/
def printed (r : Reading) : Fields where
  year := r.date.year
  month := r.date.month
  day := r.date.day
  hour := r.hour
  minute := r.minute
  second := r.second + r.nanos / nanosPerSecond
  nanos := r.nanos % nanosPerSecond / 1000000 * 1000000

theorem printed_bounds {r : Reading} (hr : r.IsPrintable) :
    r.hour ≤ 23 ∧ r.minute ≤ 59 ∧ r.second + r.nanos / nanosPerSecond ≤ 60 ∧
      r.nanos % nanosPerSecond / 1000000 < 1000 := by
  unfold IsPrintable hour minute second secondOfDay nanosPerSecond secondsPerDay at *
  omega

/-- The parts of a printed reading are read one after the other. -/
theorem readParts?_render {r : Reading} (hr : r.IsPrintable) (hdate : r.date.isValid = true) :
    readParts? {} (dateParts ++ [Part.char 'T', .hour, .char ':', .minute, .char ':', .second,
      .fraction]) r.render.toList = some r.printed := by
  obtain ⟨hhour, hminute, hsecond, hfraction⟩ := printed_bounds hr
  obtain ⟨⟨hmonth, hmonth'⟩, hday, hday'⟩ := Date.bounds_of_isValid hdate
  have hyear : ∀ rest, year? ((renderYear r.date.year).toList ++ '-' :: rest) =
      some (r.date.year, '-' :: rest) := by
    intro rest
    exact year?_renderYear r.date.year (Scan.halts_cons.mpr (by decide))
  rw [toList_render, dateParts]
  simp only [List.cons_append, List.nil_append, readParts?, Part.read?, hyear, if_true,
    Option.map_some, small?_padded hmonth hmonth' (by omega), small?_padded hday hday' (by omega),
    small?_padded (Nat.zero_le _) hhour (by omega),
    small?_padded (Nat.zero_le _) hminute (by omega),
    small?_padded (Nat.zero_le _) hsecond (by omega), fraction?_padded hfraction]
  rfl

def toMillis (r : Reading) : Reading :=
  { r with nanos := r.nanos / 1000000 * 1000000 }

/-- A printed reading is read back to the millisecond. -/
theorem reading?_printed {r : Reading} (hr : r.IsPrintable) (hdate : r.date.isValid = true) :
    r.printed.reading? = some r.toMillis := by
  have hday : r.date.dayNumber = r.seconds / secondsPerDay := Date.dayNumber_ofDayNumber _
  have hparts : Date.ofParts? r.printed.year r.printed.month r.printed.day = some r.date :=
    if_pos hdate
  rw [Fields.reading?, hparts, Option.bind_eq_bind, Option.bind_some]
  by_cases hleap : r.printed.second = 60
  · rw [if_pos hleap]
    simp only [printed, ofParts, toMillis, Option.pure_def, Option.some.injEq, mk.injEq, hday]
      at hleap ⊢
    unfold IsPrintable hour minute second secondOfDay nanosPerSecond secondsPerDay at *
    omega
  · rw [if_neg hleap]
    simp only [printed, ofParts, toMillis, Option.pure_def, Option.some.injEq, mk.injEq, hday]
      at hleap ⊢
    unfold IsPrintable hour minute second secondOfDay nanosPerSecond secondsPerDay at *
    omega

/-- A printed reading is read back to the millisecond. -/
theorem fixed?_render {r : Reading} (hr : r.IsPrintable) (hdate : r.date.isValid = true) :
    fixed? r.render.toList = some r.toMillis := by
  rw [fixed?, fixedForms, List.findSome?_cons, readParts?_render hr hdate, Option.bind_some,
    reading?_printed hr hdate]

end Reading

/-! ## Printed offsets -/

def roundedOffset (seconds : Int) : Int :=
  (if seconds < 0 then -1 else 1) * ((seconds.natAbs + 30) / 60 * 60 : Nat)

theorem int32?_padded (width : Nat) {n : Nat} (hn : n < 100) :
    Decimal.int32? (padded width n) = some (n : Int) := by
  have hint : Decimal.int? (padded width n).toList = some (n : Int) := by
    obtain ⟨d, ds, heq, hd⟩ := padded_append width n []
    rw [List.append_nil] at heq
    have hnat := Decimal.natOfDigits?_padded width n
    rw [heq] at hnat ⊢
    rw [Decimal.int?]
    · rw [hnat]
      rfl
    · intro digits hcons
      exact Scan.ne_of_isDigit hd (by decide) (List.cons.inj hcons).1
    · intro digits hcons
      exact Scan.ne_of_isDigit hd (by decide) (List.cons.inj hcons).1
  rw [Decimal.int32?, Decimal.boundedInt?, hint]
  exact Option.filter_eq_some_iff.mpr ⟨rfl, decide_eq_true (by omega)⟩

def offsetSign (seconds : Int) : Char :=
  if seconds < 0 then '-' else '+'

theorem toList_renderOffset (seconds : Int) : (renderOffset seconds).toList =
    offsetSign seconds :: ((padded 2 ((seconds.natAbs + 30) / 60 / 60)).toList ++
      ':' :: (padded 2 ((seconds.natAbs + 30) / 60 % 60)).toList) := by
  by_cases hsign : seconds < 0
  · simp [renderOffset, offsetSign, hsign, toString]
  · simp [renderOffset, offsetSign, hsign, toString]

theorem cut?_append {p : Char → Bool} {before : List Char} {c : Char} (after : List Char)
    (hbefore : ∀ d ∈ before, p d = false) (hc : p c = true) :
    Text.cut? p (before ++ c :: after) = some (before, after) := by
  have hpass : ∀ d ∈ before, (!p d) = true := by
    intro d hd
    rw [hbefore d hd]
    rfl
  rw [Text.cut?, List.dropWhile_append_of_pos hpass, List.takeWhile_append_of_pos hpass]
  simp [hc]

theorem cut?_padded (width n : Nat) (after : List Char) :
    Text.cut? (· == ':') ((padded width n).toList ++ ':' :: after) =
      some ((padded width n).toList, after) := by
  apply cut?_append
  · intro d hd
    exact beq_false_of_ne (Scan.ne_of_isDigit (Decimal.isDigit_of_mem_padded d hd) (by decide))
  · rfl

/-- A padded number ends with a digit. -/
theorem reverse_padded (width n : Nat) :
    ∃ d ds, (padded width n).toList.reverse = d :: ds ∧ isDigit d = true := by
  have hne : (padded width n).toList.reverse ≠ [] := by
    simpa using Decimal.padded_ne_nil width n
  obtain ⟨d, ds, heq⟩ := List.exists_cons_of_ne_nil hne
  have hmem : d ∈ (padded width n).toList := by
    rw [← List.mem_reverse, heq]
    simp
  exact ⟨d, ds, heq, Decimal.isDigit_of_mem_padded d hmem⟩

/-- A printed offset ends with a digit. -/
theorem reverse_renderOffset (seconds : Int) :
    ∃ d ds, (renderOffset seconds).toList.reverse = d :: ds ∧ isDigit d = true := by
  obtain ⟨d, ds, heq, hd⟩ := reverse_padded 2 ((seconds.natAbs + 30) / 60 % 60)
  rw [toList_renderOffset]
  simp only [List.reverse_append, List.reverse_cons, List.append_assoc, heq, List.cons_append]
  exact ⟨d, _, rfl, hd⟩

theorem trim_eq_self {text : String} (hhead : Halts Text.isBlank text.toList)
    (hlast : Halts Text.isBlank text.toList.reverse) : Text.trim text = text := by
  rw [Text.trim, Scan.trimChars_eq_self hhead hlast, String.ofList_toList]

theorem isBlank_offsetSign (seconds : Int) : Text.isBlank (offsetSign seconds) = false := by
  unfold offsetSign
  split <;> decide

theorem checked32_eq_ok_iff {n value : Int} :
    Decimal.checked32 n = .ok value ↔ Decimal.Fits32 n ∧ n = value := by
  unfold Decimal.checked32
  split
  · simp_all
  · simp_all

/-- An offset has seconds exactly if every step of computing them fits into a word. -/
theorem offsetSeconds_eq_ok_iff {sign hours minutes seconds : Int} :
    offsetSeconds sign hours minutes = .ok seconds ↔
      Decimal.Fits32 (hours * 3600) ∧ Decimal.Fits32 (minutes * 60) ∧
        Decimal.Fits32 (hours * 3600 + minutes * 60) ∧
        Decimal.Fits32 (sign * (hours * 3600 + minutes * 60)) ∧
        sign * (hours * 3600 + minutes * 60) = seconds := by
  simp only [offsetSeconds, bind_eq_ok_iff, checked32_eq_ok_iff]
  constructor
  · rintro ⟨_, ⟨hhours, rfl⟩, _, ⟨hminutes, rfl⟩, _, ⟨hsum, rfl⟩, hsigned, rfl⟩
    exact ⟨hhours, hminutes, hsum, hsigned, rfl⟩
  · rintro ⟨hhours, hminutes, hsum, hsigned, rfl⟩
    exact ⟨_, ⟨hhours, rfl⟩, _, ⟨hminutes, rfl⟩, _, ⟨hsum, rfl⟩, hsigned, rfl⟩

theorem offsetSeconds_roundedOffset {seconds : Int}
    (hseconds : (seconds.natAbs + 30) / 60 < 1440) :
    offsetSeconds (if seconds < 0 then -1 else 1) ((seconds.natAbs + 30) / 60 / 60 : Nat)
      ((seconds.natAbs + 30) / 60 % 60 : Nat) = .ok (roundedOffset seconds) := by
  rw [offsetSeconds_eq_ok_iff, roundedOffset]
  unfold Decimal.Fits32
  split <;> omega

theorem sign?_offsetSign (seconds : Int) :
    sign? (offsetSign seconds) = some (if seconds < 0 then -1 else 1) := by
  unfold offsetSign
  split <;> rfl

/-- A printed offset is read back to the minute. -/
theorem offset_renderOffset {seconds : Int} (hseconds : (seconds.natAbs + 30) / 60 < 1440) :
    offset (renderOffset seconds) = .ok (some (roundedOffset seconds)) := by
  have htext := toList_renderOffset seconds
  have hlast : Halts Text.isBlank (renderOffset seconds).toList.reverse := by
    obtain ⟨d, ds, heq, hd⟩ := reverse_renderOffset seconds
    rw [heq]
    exact Scan.halts_cons.mpr (Scan.isNameStart_of_isDigit hd).2
  have hhead : Halts Text.isBlank (renderOffset seconds).toList := by
    rw [htext]
    exact Scan.halts_cons.mpr (isBlank_offsetSign seconds)
  have hclock : clock? ((padded 2 ((seconds.natAbs + 30) / 60 / 60)).toList ++
      ':' :: (padded 2 ((seconds.natAbs + 30) / 60 % 60)).toList) =
      some ((((seconds.natAbs + 30) / 60 / 60 : Nat) : Int),
        (((seconds.natAbs + 30) / 60 % 60 : Nat) : Int)) := by
    have hhours := int32?_padded 2 (n := (seconds.natAbs + 30) / 60 / 60) (by omega)
    have hminutes := int32?_padded 2 (n := (seconds.natAbs + 30) / 60 % 60) (by omega)
    simp only [clock?, cut?_padded, String.ofList_toList, hhours, hminutes]
    refine Option.filter_eq_some_iff.mpr ⟨rfl, ?_⟩
    simp only [Bool.and_eq_true, decide_eq_true_eq]
    omega
  have hday : (-Reading.secondsPerDay < roundedOffset seconds &&
      roundedOffset seconds < Reading.secondsPerDay) = true := by
    rw [Bool.and_eq_true, decide_eq_true_eq, decide_eq_true_eq, roundedOffset,
      Reading.secondsPerDay]
    split <;> omega
  rw [offset, trim_eq_self hhead hlast, htext]
  simp only [sign?_offsetSign, hclock, offsetSeconds_roundedOffset hseconds]
  show Except.ok (if _ then _ else _) = _
  rw [if_pos hday]

/-! ## Printed instants -/

theorem dropStart?_append (pattern cs : List Char) :
    Text.dropStart? pattern (pattern ++ cs) = some cs := by
  induction pattern with
  | nil => rfl
  | cons c pattern ih => simp [Text.dropStart?, ih]

theorem cutLast?_eq_none {c : Char} (pattern : List Char) {cs : List Char} (hcs : c ∉ cs) :
    Text.cutLast? (c :: pattern) cs = none := by
  induction cs with
  | nil => rfl
  | cons d cs ih =>
      rw [List.mem_cons, not_or] at hcs
      simp [Text.cutLast?, ih hcs.2, Text.dropStart?, hcs.1]

/-- A text is cut at a pattern whose first character does not come again. -/
theorem cutLast?_append {c : Char} {pattern after : List Char} (before : List Char)
    (hpattern : c ∉ pattern) (hafter : c ∉ after) :
    Text.cutLast? (c :: pattern) (before ++ c :: pattern ++ after) = some (before, after) := by
  induction before with
  | nil =>
      have hnone : c ∉ pattern ++ after := by simp [hpattern, hafter]
      have hstart := dropStart?_append (c :: pattern) after
      rw [List.cons_append] at hstart
      simp only [List.nil_append, List.cons_append, Text.cutLast?, cutLast?_eq_none _ hnone, hstart,
        Option.map_some]
  | cons d before ih =>
      simp only [List.cons_append] at ih ⊢
      rw [Text.cutLast?, ih]

theorem markOffset_eq_self {text : String}
    (htext : Text.containsText " GMT".toList text.toList = true) : markOffset text = text := by
  unfold markOffset
  dsimp only
  split
  · rw [htext]
    rfl
  · rfl

theorem halts_renderYear (year : Int) (rest : List Char) :
    Halts Text.isBlank ((renderYear year).toList ++ rest) := by
  rw [renderYear]
  split
  · rw [String.toList_append]
    exact Scan.halts_cons.mpr (by decide)
  split
  · rw [String.toList_append]
    exact Scan.halts_cons.mpr (by decide)
  · obtain ⟨d, ds, heq, hd⟩ := padded_append 4 year.natAbs rest
    rw [heq]
    exact Scan.halts_cons.mpr (Scan.isNameStart_of_isDigit hd).2

theorem toList_renderLocal (t : Instant) (zone : Zone) : (t.renderLocal zone).toList =
    (zone.reading t).render.toList ++ " GMT".toList ++ (renderOffset (zone.offsetAt t)).toList := by
  simp [Instant.renderLocal, toString]

theorem renderLocal_ne_empty (t : Instant) (zone : Zone) : t.renderLocal zone ≠ "" := by
  intro hempty
  have htext := toList_renderLocal t zone
  rw [hempty] at htext
  simp at htext

theorem trimChars_render (r : Reading) : Text.trimChars r.render.toList = r.render.toList := by
  apply Scan.trimChars_eq_self
  · rw [Reading.toList_render]
    exact halts_renderYear _ _
  · obtain ⟨d, ds, heq, hd⟩ := reverse_padded 3 (r.nanos % Reading.nanosPerSecond / 1000000)
    rw [Reading.toList_render]
    simp only [List.reverse_append, List.reverse_cons, List.append_assoc, heq, List.cons_append]
    exact Scan.halts_cons.mpr (Scan.isNameStart_of_isDigit hd).2

theorem blank_not_mem_renderOffset (seconds : Int) : ' ' ∉ (renderOffset seconds).toList := by
  have hpadded : ∀ width n, ' ' ∉ (padded width n).toList := by
    intro width n hmem
    exact absurd (Decimal.isDigit_of_mem_padded _ hmem) (by decide)
  have hsign : ' ' ≠ offsetSign seconds := by
    unfold offsetSign
    split <;> decide
  rw [toList_renderOffset]
  simp [hpadded, hsign]

theorem instant?_eq_some_iff {locale : String} {zone : Zone} {text : String} {t : Instant} :
    instant? locale zone text = some t ↔ instant locale zone text = .ok (some t) := by
  rw [instant?, Option.join_eq_some_iff, toOption_eq_some_iff]

/-- A date printed in a zone is read as its reading and its offset, wherever it is read. -/
theorem instant?_renderLocal_eq_bind {zone : Zone} {t : Instant} (locale : String) (reader : Zone)
    (hoffset : ((zone.offsetAt t).natAbs + 30) / 60 < 1440) :
    instant? locale reader (t.renderLocal zone) =
      (fixed? (zone.reading t).render.toList).bind fun r =>
        (r.ahead? (-roundedOffset (zone.offsetAt t))).map Instant.mk := by
  have htext := toList_renderLocal t zone
  obtain ⟨d, ds, hend, hd⟩ := reverse_renderOffset (zone.offsetAt t)
  have hreverse : ∃ ds, (t.renderLocal zone).toList.reverse = d :: ds := by
    rw [htext, List.reverse_append, hend, List.cons_append]
    exact ⟨_, rfl⟩
  obtain ⟨ds, hreverse⟩ := hreverse
  have htrim : Text.trim (t.renderLocal zone) = t.renderLocal zone := by
    apply trim_eq_self
    · rw [htext, Reading.toList_render]
      simp only [List.append_assoc]
      exact halts_renderYear _ _
    · rw [hreverse]
      exact Scan.halts_cons.mpr (Scan.isNameStart_of_isDigit hd).2
  have hempty : (t.renderLocal zone).toList.isEmpty = false := by
    rw [← List.isEmpty_reverse, hreverse]
    rfl
  have hzulu : ((t.renderLocal zone).toList.getLast? == some 'Z' ||
      (t.renderLocal zone).toList.getLast? == some 'z') = false := by
    rw [← List.head?_reverse, hreverse]
    simp [Scan.ne_of_isDigit hd (by decide : isDigit 'Z' = false),
      Scan.ne_of_isDigit hd (by decide : isDigit 'z' = false)]
  have hcut : Text.cutLast? " GMT".toList (t.renderLocal zone).toList =
      some ((zone.reading t).render.toList, (renderOffset (zone.offsetAt t)).toList) := by
    rw [htext]
    exact cutLast?_append _ (by decide) (blank_not_mem_renderOffset _)
  have hmark : markOffset (t.renderLocal zone) = t.renderLocal zone := by
    apply markOffset_eq_self
    rw [Text.containsText, hcut]
    rfl
  have hform : LiteralForm.ofText? (t.renderLocal zone) =
      some (.offset (zone.reading t).render.toList (renderOffset (zone.offsetAt t)).toList) := by
    simp only [LiteralForm.ofText?, htrim, hempty, hzulu, hmark, hcut, Bool.false_eq_true, if_false]
  rw [instant?, instant, hform]
  simp only [LiteralForm.instant, String.ofList_toList, offset_renderOffset hoffset,
    trimChars_render]
  rfl

/-- A date printed in a zone is read back to the millisecond and the minute of the
offset, wherever it is read. -/
theorem instant?_renderLocal {zone : Zone} {t : Instant} (locale : String) (reader : Zone)
    (hprintable : (zone.reading t).IsPrintable) (hdate : (zone.reading t).date.isValid = true)
    (hoffset : ((zone.offsetAt t).natAbs + 30) / 60 < 1440) :
    instant? locale reader (t.renderLocal zone) =
      ((zone.reading t).toMillis.ahead? (-roundedOffset (zone.offsetAt t))).map Instant.mk := by
  rw [instant?_renderLocal_eq_bind locale reader hoffset, Reading.fixed?_render hprintable hdate,
    Option.bind_some]

theorem toMillis_ofDay (n : Int) : (Reading.ofDay n).toMillis = .ofDay n := by
  simp [Reading.toMillis, Reading.ofDay]

theorem isPrintable_ofDay (n : Int) : (Reading.ofDay n).IsPrintable :=
  .inl (show 0 < Reading.nanosPerSecond by decide)

theorem roundedOffset_eq_self {seconds : Int} (hminutes : seconds % 60 = 0) :
    roundedOffset seconds = seconds := by
  unfold roundedOffset
  split <;> omega

/-- A midnight that is printed in a zone with an offset in whole minutes is read back,
wherever it is read. -/
theorem instant?_renderLocal_midnight {zone : Zone} {t : Instant} {n : Int} (locale : String)
    (reader : Zone) (ht : zone.reading t = .ofDay n)
    (hminutes : zone.offsetAt t % 60 = 0) (hfirst : Date.firstYear < (Date.ofDayNumber n).year)
    (hlast : (Date.ofDayNumber n).year ≤ Date.lastYear) :
    instant? locale reader (t.renderLocal zone) = some t := by
  have hoffset := zone.offsetAt_bounds t
  have hdate : (zone.reading t).date.isValid = true := by
    rw [ht, Reading.date_ofDay]
    exact Date.isValid_ofDayNumber (by omega) hlast
  have hprintable : (zone.reading t).IsPrintable := by
    rw [ht]
    exact isPrintable_ofDay n
  have hutc : (Reading.ofDay n).ahead (-zone.offsetAt t) = t.utc := by
    have hback := Reading.ahead_neg_ahead t.utc (-zone.offsetAt t)
    rw [Int.neg_neg] at hback
    rw [← ht]
    exact hback
  have hrange : t.utc.inRange = true := by
    rw [← hutc]
    exact Reading.inRange_ahead_ofDay hfirst hlast (by omega) (by omega)
  rw [instant?_renderLocal locale reader hprintable hdate (by omega),
    roundedOffset_eq_self hminutes, ht, toMillis_ofDay, Reading.ahead?, hutc, Option.filter_some,
    if_pos hrange]
  rfl

/-! ## Dates at the ends of the calendar -/

/-- The reading is not before the first day. -/
def Reading.IsLate (r : Reading) : Prop :=
  (Date.mk Date.firstYear 1 1).dayNumber * secondsPerDay ≤ r.seconds

theorem Reading.isLate_of_inRange {r : Reading} (hr : r.inRange = true) : r.IsLate := by
  have hday := of_decide_eq_true (Bool.and_eq_true_iff.mp hr).1
  unfold dayNumber at hday
  exact (Int.le_ediv_iff_mul_le (by decide)).mp hday

theorem Reading.isLate_of_ahead? {r utc : Reading} {seconds : Int}
    (hutc : r.ahead? seconds = some utc) : utc.IsLate :=
  isLate_of_inRange (Option.filter_eq_some_iff.mp hutc).2

theorem isLate_of_reading? {f : Fields} {r : Reading} (hr : f.reading? = some r) : r.IsLate := by
  unfold Fields.reading? at hr
  obtain ⟨date, hdate, hr⟩ := Option.bind_eq_some_iff.mp hr
  have hvalid : date.isValid = true := by
    unfold Date.ofParts? at hdate
    dsimp only at hdate
    split at hdate
    · cases hdate
      assumption
    · cases hdate
  have hfirst := Date.first_le_dayNumber hvalid
  unfold Reading.IsLate Reading.secondsPerDay
  split at hr
  all_goals
    cases hr
    simp only [Reading.ofParts, Reading.secondsPerDay]
    omega

theorem isLate_of_fixed? {cs : List Char} {r : Reading} (hr : fixed? cs = some r) : r.IsLate := by
  obtain ⟨parts, -, hr⟩ := List.exists_of_findSome?_eq_some hr
  obtain ⟨f, -, hr⟩ := Option.bind_eq_some_iff.mp hr
  exact isLate_of_reading? hr

theorem isLate_of_earliest? {zone : Zone} {r : Reading} {t : Instant}
    (ht : zone.earliest? r = some t) : t.utc.IsLate := by
  obtain ⟨offset, -, ht⟩ := Option.bind_eq_some_iff.mp ht
  obtain ⟨utc, hutc, ht⟩ := Option.bind_eq_some_iff.mp ht
  cases ht
  exact Reading.isLate_of_ahead? hutc

/-- No literal denotes an instant before the first day. -/
theorem isLate_of_instant? {locale : String} {zone : Zone} {text : String} {t : Instant}
    (ht : instant? locale zone text = some t) : t.utc.IsLate := by
  rw [instant?_eq_some_iff, instant] at ht
  split at ht
  · rename_i form _
    cases form with
    | universal body =>
        obtain ⟨utc, hutc, rfl⟩ := Option.map_eq_some_iff.mp (Except.ok.inj ht)
        exact isLate_of_fixed? hutc
    | offset body suffix =>
        obtain ⟨offset, -, ht⟩ := bind_eq_ok_iff.mp ht
        obtain ⟨reading, -, ht⟩ := Option.bind_eq_some_iff.mp (Except.ok.inj ht)
        obtain ⟨offset, -, ht⟩ := Option.bind_eq_some_iff.mp ht
        obtain ⟨utc, hutc, rfl⟩ := Option.map_eq_some_iff.mp ht
        exact Reading.isLate_of_ahead? hutc
    | plain text =>
        obtain ⟨reading, -, ht⟩ := Option.bind_eq_some_iff.mp (Except.ok.inj ht)
        exact isLate_of_earliest? ht
  · cases ht

/-- A printed midnight of the calendar can be read, though perhaps as another instant
where the offset is not in whole minutes. -/
theorem isSome_instant?_renderLocal {zone : Zone} {t : Instant} {n : Int} (locale : String)
    (reader : Zone) (ht : zone.reading t = .ofDay n)
    (hlate : t.utc.IsLate) (hlast : n ≤ (Date.mk Date.lastYear 12 31).dayNumber) :
    (instant? locale reader (t.renderLocal zone)).isSome = true := by
  have hoffset := zone.offsetAt_bounds t
  have hseconds : t.utc.seconds + zone.offsetAt t = n * 86400 := congrArg Reading.seconds ht
  unfold Reading.IsLate Reading.secondsPerDay at hlate
  have hfirst : (Date.mk Date.firstYear 1 1).dayNumber ≤ n := by omega
  have hdate : (zone.reading t).date.isValid = true := by
    obtain ⟨hlower, hupper⟩ := Date.year_bounds_iff.mpr ⟨hfirst, hlast⟩
    rw [ht, Reading.date_ofDay]
    exact Date.isValid_ofDayNumber hlower hupper
  have hprintable : (zone.reading t).IsPrintable := by
    rw [ht]
    exact isPrintable_ofDay n
  have hrange : ((Reading.ofDay n).ahead (-roundedOffset (zone.offsetAt t))).inRange = true := by
    have hbounds : (Date.mk Date.firstYear 1 1).dayNumber ≤
        (n * 86400 + -roundedOffset (zone.offsetAt t)) / 86400 ∧
        (n * 86400 + -roundedOffset (zone.offsetAt t)) / 86400 ≤
          (Date.mk Date.lastYear 12 31).dayNumber := by
      unfold roundedOffset
      split <;> omega
    exact Bool.and_eq_true_iff.mpr ⟨decide_eq_true hbounds.1, decide_eq_true hbounds.2⟩
  rw [instant?_renderLocal locale reader hprintable hdate hoffset, ht, toMillis_ofDay,
    Reading.ahead?, Option.filter_some, if_pos hrange]
  rfl

end Calendar

end TrackerQuery
