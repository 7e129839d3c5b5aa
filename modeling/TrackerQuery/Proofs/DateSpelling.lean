import TrackerQuery.Proofs.DateText

/-!
# What date literals spell

The numbers of an offset and of a short date are those that its digits spell.  The hours and
minutes of an offset may carry signs of their own; where their seconds do not fit into a word
of 32 bits reading ends with an overflow.  The year of a short date is put into such a word
too, and there it wraps around.
-/

namespace TrackerQuery

namespace Decimal

/-- The characters are decimal digits and spell the number. -/
inductive Digits : List Char → Nat → Prop
  | one {c : Char} (hc : isDigit c = true) : Digits [c] (digitValue c)
  | more {cs : List Char} {n : Nat} {c : Char} (hcs : Digits cs n) (hc : isDigit c = true) :
      Digits (cs ++ [c]) (10 * n + digitValue c)

/-- Digits with or without a sign. -/
inductive Signed : List Char → Int → Prop
  | plain {cs : List Char} {n : Nat} (hcs : Digits cs n) : Signed cs n
  | plus {cs : List Char} {n : Nat} (hcs : Digits cs n) : Signed ('+' :: cs) n
  | minus {cs : List Char} {n : Nat} (hcs : Digits cs n) : Signed ('-' :: cs) (-n)

theorem Digits.extend {ds cs : List Char} {n : Nat} (hds : Digits ds n)
    (hcs : ∀ c ∈ cs, isDigit c = true) : Digits (ds ++ cs) (extend n cs) := by
  induction cs generalizing ds n with
  | nil =>
      rw [List.append_nil]
      exact hds
  | cons c cs ih =>
      obtain ⟨hc, hcs⟩ := List.forall_mem_cons.mp hcs
      rw [List.append_cons]
      exact ih (hds.more hc) hcs

theorem digits_of_natOfDigits? {cs : List Char} {n : Nat} (hn : natOfDigits? cs = some n) :
    Digits cs n := by
  obtain ⟨hcs, hn⟩ := Option.ite_none_right_eq_some.mp hn
  cases hn
  rw [Bool.and_eq_true, List.all_eq_true] at hcs
  cases cs with
  | nil => cases hcs.1
  | cons c cs =>
      obtain ⟨hc, hcs⟩ := List.forall_mem_cons.mp hcs.2
      have hfirst := Digits.one hc
      have hall := hfirst.extend hcs
      rw [← Nat.zero_add (digitValue c)] at hall
      exact hall

theorem Digits.isDigit_of_mem {cs : List Char} {n : Nat} (hcs : Digits cs n) :
    ∀ c ∈ cs, isDigit c = true := by
  induction hcs with
  | one hc => simpa using hc
  | more _ hc ih => simpa using fun c hmem => hmem.elim (ih c) fun h => h ▸ hc

theorem Digits.extend_zero {cs : List Char} {n : Nat} (hcs : Digits cs n) :
    Decimal.extend 0 cs = n := by
  induction hcs with
  | one hc => simp [Decimal.extend]
  | more _ hc ih =>
      rw [Decimal.extend] at ih ⊢
      rw [List.foldl_append, ih]
      rfl

theorem natOfDigits?_eq_some_iff {cs : List Char} {n : Nat} :
    natOfDigits? cs = some n ↔ Digits cs n := by
  refine ⟨digits_of_natOfDigits?, fun hcs => ?_⟩
  have hall : (!cs.isEmpty && cs.all isDigit) = true := by
    rw [Bool.and_eq_true, List.all_eq_true]
    refine ⟨?_, hcs.isDigit_of_mem⟩
    cases hcs <;> simp
  rw [natOfDigits?, if_pos hall, hcs.extend_zero]

/-- An integer is read exactly from its digits with or without a sign. -/
theorem int?_eq_some_iff {cs : List Char} {n : Int} : int? cs = some n ↔ Signed cs n := by
  constructor
  · intro hn
    unfold int? at hn
    split at hn
    all_goals
      obtain ⟨m, hm, rfl⟩ := Option.map_eq_some_iff.mp hn
      have hdigits := natOfDigits?_eq_some_iff.mp hm
    · exact .minus hdigits
    · exact .plus hdigits
    · exact .plain hdigits
  · intro hcs
    cases hcs with
    | minus hdigits => exact Option.map_eq_some_iff.mpr ⟨_, natOfDigits?_eq_some_iff.mpr hdigits, rfl⟩
    | plus hdigits => exact Option.map_eq_some_iff.mpr ⟨_, natOfDigits?_eq_some_iff.mpr hdigits, rfl⟩
    | plain hdigits =>
        have hsigns : ∀ ds : List Char, cs ≠ '-' :: ds ∧ cs ≠ '+' :: ds := by
          intro ds
          constructor <;>
          · rintro rfl
            exact absurd (hdigits.isDigit_of_mem _ List.mem_cons_self) (by decide)
        unfold int?
        split
        · exact absurd rfl (hsigns _).1
        · exact absurd rfl (hsigns _).2
        · exact Option.map_eq_some_iff.mpr ⟨_, natOfDigits?_eq_some_iff.mpr hdigits, rfl⟩

theorem int32?_eq_some_iff {cs : List Char} {n : Int} :
    int32? (String.ofList cs) = some n ↔ Signed cs n ∧ Fits32 n := by
  rw [int32?, boundedInt?, Option.filter_eq_some_iff, int?_eq_some_iff, String.toList_ofList,
    decide_eq_true_iff, Fits32]

theorem Digits.ne_nil {cs : List Char} {n : Nat} (hcs : Digits cs n) : cs ≠ [] := by
  cases hcs <;> simp

theorem digits_of_nat32? {text : String} {n : Nat} (hdigits : text.toList.all isDigit = true)
    (hn : nat32? text = some n) : Digits text.toList n ∧ n < 0x100000000 := by
  obtain ⟨hn, hlt⟩ := Option.filter_eq_some_iff.mp hn
  have hlt : n < 0x100000000 := of_decide_eq_true hlt
  split at hn
  · rename_i digits hplus
    rw [hplus] at hdigits
    cases hdigits
  · exact ⟨digits_of_natOfDigits? hn, hlt⟩

/-- A word holds a number just if it is in range. -/
theorem wrap32_eq_self_iff {n : Int} : wrap32 n = n ↔ Fits32 n := by
  unfold wrap32 Fits32
  rw [Int.bmod_def]
  split <;> omega

end Decimal

namespace Text

variable {p : Char → Bool}

theorem eq_append_of_cut? {cs before after : List Char} (hcut : cut? p cs = some (before, after)) :
    ∃ c, p c = true ∧ cs = before ++ c :: after := by
  unfold cut? at hcut
  split at hcut
  · cases hcut
  · rename_i c rest hrest
    cases hcut
    refine ⟨c, ?_, ?_⟩
    · have hc := List.head?_dropWhile_not (!p ·) cs
      rw [hrest] at hc
      simpa using hc
    · rw [← hrest, List.takeWhile_append_dropWhile]

/-- The first part of a split, and what the others are split from. -/
theorem splitChars_cases (p : Char → Bool) (cs : List Char) :
    ∃ part parts rest, splitChars p cs = part :: parts ∧ cs = part ++ rest ∧
      (∀ c ∈ part, p c = false) ∧
      (rest = [] ∧ parts = [] ∨
        ∃ c after, rest = c :: after ∧ p c = true ∧ parts = splitChars p after) := by
  induction cs with
  | nil => exact ⟨[], [], [], rfl, rfl, by simp, .inl ⟨rfl, rfl⟩⟩
  | cons c cs ih =>
      by_cases hc : p c = true
      · exact ⟨[], splitChars p cs, c :: cs, by simp [splitChars, hc], rfl, by simp,
          .inr ⟨c, cs, rfl, hc, rfl⟩⟩
      · obtain ⟨part, parts, rest, hsplit, hcs, hpart, hrest⟩ := ih
        refine ⟨c :: part, parts, rest, by simp [splitChars, hc, hsplit], by rw [hcs]; rfl, ?_,
          hrest⟩
        exact List.forall_mem_cons.mpr ⟨by simpa using hc, hpart⟩

def runs (p : Char → Bool) (cs : List Char) : List (List Char) :=
  (splitChars p cs).filter fun part => !part.isEmpty

theorem runs_cons_of_separator {c : Char} (hc : p c = true) (cs : List Char) :
    runs p (c :: cs) = runs p cs := by
  simp [runs, splitChars, hc]

/-- A run goes up to the first separator. -/
theorem runs_cons_of_not_separator {c : Char} (hc : p c = false) (cs : List Char) :
    ∃ run rest, c :: cs = run ++ rest ∧ (∀ x ∈ run, p x = false) ∧
      (∀ x ∈ rest.head?, p x = true) ∧ runs p (c :: cs) = run :: runs p rest := by
  obtain ⟨run, parts, rest, hsplit, hcs, hrun, hrest⟩ := splitChars_cases p (c :: cs)
  have hhead : ∀ x ∈ rest.head?, p x = true := by
    rcases hrest with ⟨rfl, -⟩ | ⟨x, after, rfl, hx, -⟩
    · simp
    · simpa using hx
  have hparts : runs p rest = parts.filter fun part => !part.isEmpty := by
    rcases hrest with ⟨rfl, rfl⟩ | ⟨x, after, rfl, hx, rfl⟩
    · rfl
    · exact runs_cons_of_separator hx after
  refine ⟨run, rest, hcs, hrun, hhead, ?_⟩
  cases run with
  | nil =>
      rw [List.nil_append] at hcs
      have hseparator : p c = true := hhead c (by simp [← hcs])
      rw [hseparator] at hc
      cases hc
  | cons first others => rw [hparts, runs, hsplit, List.filter_cons_of_pos (by simp)]

/-- The first run comes after separators and ends at one. -/
theorem runs_eq_cons {cs run : List Char} {others : List (List Char)}
    (hruns : runs p cs = run :: others) :
    ∃ separators rest, cs = separators ++ (run ++ rest) ∧ (∀ c ∈ separators, p c = true) ∧
      (∀ c ∈ run, p c = false) ∧ (∀ c ∈ rest.head?, p c = true) ∧ runs p rest = others := by
  induction cs with
  | nil => cases hruns
  | cons c cs ih =>
      cases hc : p c with
      | true =>
          rw [runs_cons_of_separator hc] at hruns
          obtain ⟨separators, rest, rfl, hseparators, hrest⟩ := ih hruns
          exact ⟨c :: separators, rest, rfl, List.forall_mem_cons.mpr ⟨hc, hseparators⟩, hrest⟩
      | false =>
          obtain ⟨first, rest, hcs, hfirst, hhead, heq⟩ := runs_cons_of_not_separator hc cs
          rw [heq] at hruns
          obtain ⟨rfl, hothers⟩ := List.cons.inj hruns
          exact ⟨[], rest, hcs, by simp, hfirst, hhead, hothers⟩

theorem isSeparator_of_runs_eq_nil {cs : List Char} (hruns : runs p cs = []) :
    ∀ c ∈ cs, p c = true := by
  induction cs with
  | nil => simp
  | cons c cs ih =>
      cases hc : p c with
      | true =>
          rw [runs_cons_of_separator hc] at hruns
          exact List.forall_mem_cons.mpr ⟨hc, ih hruns⟩
      | false =>
          obtain ⟨first, rest, -, -, -, heq⟩ := runs_cons_of_not_separator hc cs
          rw [heq] at hruns
          cases hruns

end Text

namespace Calendar

open TrackerQuery.Decimal (Digits Signed wrap32)

/-! ## Offsets -/

inductive SignChar : Char → Int → Prop
  | plus : SignChar '+' 1
  | minus : SignChar '-' (-1)

/-- A sign, hours and possibly minutes. -/
inductive OffsetText : List Char → (sign hours minutes : Int) → Prop
  | hours {c : Char} {hs : List Char} {sign hours : Int} (hsign : SignChar c sign)
      (hhours : Signed hs hours) : OffsetText (c :: hs) sign hours 0
  | minutes {c : Char} {hs ms : List Char} {sign hours minutes : Int} (hsign : SignChar c sign)
      (hhours : Signed hs hours) (hminutes : Signed ms minutes) :
      OffsetText (c :: (hs ++ ':' :: ms)) sign hours minutes

theorem sign?_eq_some_iff {c : Char} {sign : Int} : sign? c = some sign ↔ SignChar c sign := by
  constructor
  · intro hsign
    unfold sign? at hsign
    split at hsign
    · rename_i hc
      cases hsign
      rw [eq_of_beq hc]
      exact .plus
    · obtain ⟨hc, hsign⟩ := Option.ite_none_right_eq_some.mp hsign
      cases hsign
      rw [eq_of_beq hc]
      exact .minus
  · intro hsign
    cases hsign <;> rfl

theorem colon_not_mem_of_signed {cs : List Char} {n : Int} (hcs : Signed cs n) : ':' ∉ cs := by
  have hdigits : ∀ {ds : List Char} {m : Nat}, Digits ds m → ':' ∉ ds := by
    intro ds m hds hmem
    exact absurd (hds.isDigit_of_mem _ hmem) (by decide)
  cases hcs with
  | plain hds => exact hdigits hds
  | plus hds => simpa using hdigits hds
  | minus hds => simpa using hdigits hds

/-- The numbers of an offset: each fits into a word, and neither is too large. -/
structure ClockFits (hours minutes : Int) : Prop where
  hours_fit : Decimal.Fits32 hours
  minutes_fit : Decimal.Fits32 minutes
  hours_le : hours ≤ 23
  minutes_le : minutes ≤ 59

/-- What is read after the sign of an offset is what it spells, as far as it fits. -/
theorem clock?_eq_some_iff {c : Char} {rest : List Char} {sign hours minutes : Int}
    (hsign : SignChar c sign) :
    clock? rest = some (hours, minutes) ↔
      OffsetText (c :: rest) sign hours minutes ∧ ClockFits hours minutes := by
  rw [clock?, Option.filter_eq_some_iff, Bool.and_eq_true, decide_eq_true_eq, decide_eq_true_eq]
  constructor
  · rintro ⟨hclock, hhoursLe, hminutesLe⟩
    split at hclock
    · rename_i hs ms hcut
      obtain ⟨h, hhours, hclock⟩ := Option.bind_eq_some_iff.mp hclock
      obtain ⟨m, hminutes, hclock⟩ := Option.bind_eq_some_iff.mp hclock
      cases hclock
      obtain ⟨colon, hcolon, rfl⟩ := Text.eq_append_of_cut? hcut
      obtain ⟨hhours, hhoursFit⟩ := Decimal.int32?_eq_some_iff.mp hhours
      obtain ⟨hminutes, hminutesFit⟩ := Decimal.int32?_eq_some_iff.mp hminutes
      rw [eq_of_beq hcolon]
      exact ⟨.minutes hsign hhours hminutes, hhoursFit, hminutesFit, hhoursLe, hminutesLe⟩
    · obtain ⟨h, hhours, hclock⟩ := Option.bind_eq_some_iff.mp hclock
      cases hclock
      obtain ⟨hhours, hhoursFit⟩ := Decimal.int32?_eq_some_iff.mp hhours
      exact ⟨.hours hsign hhours, hhoursFit, by decide, hhoursLe, hminutesLe⟩
  · rintro ⟨htext, hhoursFit, hminutesFit, hhoursLe, hminutesLe⟩
    refine ⟨?_, hhoursLe, hminutesLe⟩
    cases htext with
    | hours _ hhours =>
        split
        · rename_i hs ms hcut
          obtain ⟨colon, hcolon, rfl⟩ := Text.eq_append_of_cut? hcut
          rw [eq_of_beq hcolon] at hhours
          exact absurd (by simp) (colon_not_mem_of_signed hhours)
        · simp [Decimal.int32?_eq_some_iff.mpr ⟨hhours, hhoursFit⟩]
    | @minutes _ hs ms _ _ _ _ hhours hminutes =>
        have hcut : Text.cut? (· == ':') (hs ++ ':' :: ms) = some (hs, ms) := by
          refine cut?_append ms (fun d hd => ?_) rfl
          have hne : d ≠ ':' := fun heq => colon_not_mem_of_signed hhours (heq ▸ hd)
          simpa using hne
        rw [hcut]
        simp [Decimal.int32?_eq_some_iff.mpr ⟨hhours, hhoursFit⟩,
          Decimal.int32?_eq_some_iff.mpr ⟨hminutes, hminutesFit⟩]

theorem ofList_trimChars_eq (cs : List Char) :
    (Text.trim (String.ofList cs)).toList = Text.trimChars cs := by
  simp [Text.trim]

/-- An offset after a sign: what is read of it are the numbers that it spells. -/
theorem offset_of_clock {cs : List Char} {sign hours minutes : Int}
    (htext : OffsetText (Text.trimChars cs) sign hours minutes) (hfits : ClockFits hours minutes) :
    offset (String.ofList cs) = (offsetSeconds sign hours minutes).map fun seconds =>
      if -Reading.secondsPerDay < seconds && seconds < Reading.secondsPerDay then some seconds
      else none := by
  obtain ⟨c, rest, hchars, hsign⟩ : ∃ c rest, Text.trimChars cs = c :: rest ∧ SignChar c sign := by
    generalize Text.trimChars cs = chars at htext
    cases htext with
    | hours hsign _ => exact ⟨_, _, rfl, hsign⟩
    | minutes hsign _ _ => exact ⟨_, _, rfl, hsign⟩
  rw [hchars] at htext
  rw [offset, ofList_trimChars_eq, hchars]
  simp only [sign?_eq_some_iff.mpr hsign, (clock?_eq_some_iff hsign).mpr ⟨htext, hfits⟩]
  cases offsetSeconds sign hours minutes <;> rfl

/-- Whatever is read of an offset is read of the numbers that it spells. -/
theorem offsetText_of_offset {cs : List Char} (hcs : Text.trimChars cs ≠ [])
    (hoffset : offset (String.ofList cs) ≠ .ok none) :
    ∃ sign hours minutes, OffsetText (Text.trimChars cs) sign hours minutes ∧
      ClockFits hours minutes := by
  obtain ⟨c, rest, hchars⟩ := List.exists_cons_of_ne_nil hcs
  rw [offset, ofList_trimChars_eq, hchars] at hoffset
  dsimp only at hoffset
  split at hoffset
  · rename_i sign hours minutes hsign hclock
    rw [hchars]
    exact ⟨sign, hours, minutes, (clock?_eq_some_iff (sign?_eq_some_iff.mp hsign)).mp hclock⟩
  · exact absurd rfl hoffset

/-- What a reading ahead of UTC spells and how far it moves the reading `naive`. -/
structure SpellsOffset (suffix : List Char) (naive utc : Reading) (sign hours minutes : Int) :
    Prop where
  spelled : OffsetText suffix sign hours minutes
  clock : ClockFits hours minutes
  lessThanDay : -1440 < 60 * hours + minutes ∧ 60 * hours + minutes < 1440
  moved : utc = naive.ahead (-(sign * (60 * hours + minutes) * 60))

theorem SignChar.eq_or_eq {c : Char} {sign : Int} (hsign : SignChar c sign) :
    sign = 1 ∨ sign = -1 := by
  cases hsign <;> simp

theorem OffsetText.sign_eq {cs : List Char} {sign hours minutes : Int}
    (htext : OffsetText cs sign hours minutes) : sign = 1 ∨ sign = -1 := by
  cases htext with
  | hours hsign _ => exact hsign.eq_or_eq
  | minutes hsign _ _ => exact hsign.eq_or_eq

/-- An offset that is read is one that the text spells. -/
theorem spellsOffset_of_offset {suffix : List Char} {naive utc : Reading} {offset : Int}
    (hsuffix : Text.trimChars suffix ≠ [])
    (hoffset : Calendar.offset (String.ofList suffix) = .ok (some offset))
    (hutc : naive.ahead? (-offset) = some utc) :
    ∃ sign hours minutes,
      SpellsOffset (Text.trimChars suffix) naive utc sign hours minutes := by
  obtain ⟨sign, hours, minutes, htext, hclock⟩ :=
    offsetText_of_offset hsuffix (by rw [hoffset]; simp)
  rw [offset_of_clock htext hclock] at hoffset
  obtain ⟨seconds, hseconds, hoffset⟩ := map_eq_ok_iff.mp hoffset
  obtain ⟨-, -, -, -, rfl⟩ := offsetSeconds_eq_ok_iff.mp hseconds
  obtain ⟨hday, hoffset⟩ := Option.ite_none_right_eq_some.mp hoffset
  cases hoffset
  rw [Bool.and_eq_true, decide_eq_true_eq, decide_eq_true_eq, Reading.secondsPerDay] at hday
  obtain ⟨hutc, -⟩ := Option.filter_eq_some_iff.mp hutc
  cases hutc
  refine ⟨sign, hours, minutes, htext, hclock, ?_, ?_⟩
  · obtain rfl | rfl := htext.sign_eq <;> omega
  · obtain rfl | rfl := htext.sign_eq
    all_goals
      congr 1
      omega

/-- The seconds of an offset leave a word if and only if its hours or minutes lie far below
zero. -/
theorem offsetSeconds_eq_error_iff {sign hours minutes : Int} (hsign : sign = 1 ∨ sign = -1)
    (hclock : ClockFits hours minutes) :
    offsetSeconds sign hours minutes = .error {} ↔
      hours < -596523 ∨ minutes < -35791394 ∨ 60 * hours + minutes < -35791394 := by
  obtain ⟨-, -, hhours, hminutes⟩ := hclock
  have hok := @offsetSeconds_eq_ok_iff sign hours minutes (sign * (hours * 3600 + minutes * 60))
  simp only [and_true, Decimal.Fits32] at hok
  cases hresult : offsetSeconds sign hours minutes with
  | ok seconds =>
      obtain ⟨-, -, -, -, rfl⟩ := offsetSeconds_eq_ok_iff.mp hresult
      have hfits := hok.mp hresult
      simp only [reduceCtorEq, false_iff]
      omega
  | error overflow =>
      simp only [hresult, reduceCtorEq, false_iff] at hok
      simp only [true_iff]
      obtain rfl | rfl := hsign <;> omega

/-- Reading an offset overflows exactly if it spells hours and minutes that fit into words
themselves and whose seconds do not. -/
theorem offset_eq_error_iff {suffix : List Char} :
    offset (String.ofList suffix) = .error {} ↔
      ∃ sign hours minutes, OffsetText (Text.trimChars suffix) sign hours minutes ∧
        ClockFits hours minutes ∧
        (hours < -596523 ∨ minutes < -35791394 ∨ 60 * hours + minutes < -35791394) := by
  constructor
  · intro herror
    have hsuffix : Text.trimChars suffix ≠ [] := by
      intro hnil
      rw [offset, ofList_trimChars_eq, hnil] at herror
      cases herror
    obtain ⟨sign, hours, minutes, htext, hclock⟩ :=
      offsetText_of_offset hsuffix (by rw [herror]; simp)
    refine ⟨sign, hours, minutes, htext, hclock, ?_⟩
    rw [offset_of_clock htext hclock] at herror
    rw [← offsetSeconds_eq_error_iff htext.sign_eq hclock]
    cases hresult : offsetSeconds sign hours minutes with
    | ok seconds =>
        rw [hresult] at herror
        cases herror
    | error overflow => rfl
  · rintro ⟨sign, hours, minutes, htext, hclock, hfar⟩
    rw [offset_of_clock htext hclock,
      (offsetSeconds_eq_error_iff htext.sign_eq hclock).mpr hfar]
    rfl

/-! ## Short dates -/

def isSeparator (c : Char) : Bool :=
  c == '/' || c == '.' || c == '-'

def DateOrder.arranged (first second third : Nat) : DateOrder → Nat × Nat × Nat
  | .monthDayYear => (third, first, second)
  | .dayMonthYear => (third, second, first)
  | .yearMonthDay => (first, second, third)

/-- Three numbers with separators between them and perhaps around them.  They stand in the
order given, unless the first has four digits. -/
inductive SpellsDate (order : DateOrder) : List Char → (year month day : Nat) → Prop
  | mk {a b c before between between' after : List Char}
      {first second third year month day : Nat} (ha : Digits a first) (hb : Digits b second)
      (hc : Digits c third) (hbetween : between ≠ [] ∧ between' ≠ [])
      (hseparators : ∀ x ∈ before ++ between ++ between' ++ after, isSeparator x = true)
      (horder : (if a.length = 4 then DateOrder.yearMonthDay else order).arranged
        first second third = (year, month, day)) :
      SpellsDate order (before ++ (a ++ (between ++ (b ++ (between' ++ (c ++ after))))))
        year month day

/-- The year that is meant by the digits of a short date. -/
def spelledYear (n : Nat) : Int :=
  if n < 50 then 2000 + n else if n < 100 then 1900 + n else n

theorem fullYear_of_lt {n : Nat} (hn : n < 0x80000000) : fullYear n = spelledYear n := by
  have hfits : wrap32 n = n := Decimal.wrap32_eq_self_iff.mpr ⟨by omega, by omega⟩
  rw [fullYear, spelledYear, hfits]

theorem fullYear_of_le {n : Nat} (hlow : 0x80000000 ≤ n) (hhigh : n < 0x100000000) :
    fullYear n = n - 0x100000000 := by
  rw [fullYear, if_neg (by omega), if_neg (by omega), wrap32, Int.bmod_def]
  split <;> omega

theorem runs_of_split {p : Char → Bool} {word : String} {parts : List String}
    (hparts : (Text.split p word).filter (fun part => !part.isEmpty) = parts) :
    Text.runs p word.toList = parts.map String.toList := by
  rw [← hparts, Text.split, List.filter_map, List.map_map]
  have hempty : (fun part : String => !part.isEmpty) ∘ String.ofList =
      fun part : List Char => !part.isEmpty := by
    funext part
    have hnil : String.ofList part = "" ↔ part = [] := by
      rw [← String.toList_inj, String.toList_ofList, String.toList_empty]
    rw [Function.comp_apply, Bool.eq_iff_iff]
    simp [hnil]
  have hchars : String.toList ∘ String.ofList = id := by
    funext part
    simp
  rw [hempty, hchars, List.map_id, Text.runs]

/-- A time of day is less than a day. -/
theorem timeOfDay?_lt {words : List String} {seconds : Nat}
    (hseconds : timeOfDay? words = some seconds) : seconds < 86400 := by
  cases words with
  | nil =>
      cases hseconds
      decide
  | cons clock half =>
      have hend : ∀ {hour minute second : Nat},
          (if (hour < 24 && minute < 60 && second < 60) = true then
            some (hour * 3600 + minute * 60 + second) else none) = some seconds →
          seconds < 86400 := by
        intro hour minute second hend
        obtain ⟨hbounds, hend⟩ := Option.ite_none_right_eq_some.mp hend
        cases hend
        simp only [Bool.and_eq_true, decide_eq_true_eq] at hbounds
        omega
      unfold timeOfDay? at hseconds
      dsimp only at hseconds
      obtain ⟨_, -, hseconds⟩ := Option.bind_eq_some_iff.mp hseconds
      obtain ⟨_, -, hseconds⟩ := Option.bind_eq_some_iff.mp hseconds
      obtain ⟨_, -, hseconds⟩ := Option.bind_eq_some_iff.mp hseconds
      obtain ⟨_, -, hseconds⟩ := Option.bind_eq_some_iff.mp hseconds
      split at hseconds
      all_goals
        obtain ⟨_, -, hseconds⟩ := Option.bind_eq_some_iff.mp hseconds
        split at hseconds
        · exact hend hseconds
        · split at hseconds
          · exact hend hseconds
          · split at hseconds
            · exact hend hseconds
            · cases hseconds
        · cases hseconds

theorem eq_of_ofParts? {year : Int} {month day : Nat} {date : Date}
    (hdate : Date.ofParts? year month day = some date) :
    date = ⟨year, month, day⟩ ∧ date.isValid = true := by
  obtain ⟨hvalid, hdate⟩ := Option.ite_none_right_eq_some.mp hdate
  cases hdate
  exact ⟨rfl, hvalid⟩

/-- A reading shows the date that it was made of. -/
theorem date_ofParts {date : Date} (hdate : date.isValid = true) {seconds : Nat}
    (hseconds : seconds < 86400) (nanos : Nat) :
    (Reading.ofParts date seconds nanos).date = date := by
  have hday : (Reading.ofParts date seconds nanos).dayNumber = date.dayNumber := by
    simp only [Reading.dayNumber, Reading.ofParts, Reading.secondsPerDay]
    omega
  rw [Reading.date, hday, Date.ofDayNumber_dayNumber hdate]

/-- Three runs of digits in a word have separators between them. -/
theorem spellsDate_of_runs {order : DateOrder} {word a b c : List Char}
    {first second third year month day : Nat} (hruns : Text.runs isSeparator word = [a, b, c])
    (ha : Digits a first) (hb : Digits b second) (hc : Digits c third)
    (horder : (if a.length = 4 then DateOrder.yearMonthDay else order).arranged
      first second third = (year, month, day)) : SpellsDate order word year month day := by
  obtain ⟨before, rest, rfl, hbefore, -, hhead, hruns⟩ := Text.runs_eq_cons hruns
  obtain ⟨between, rest', rfl, hbetween, hbs, hhead', hruns⟩ := Text.runs_eq_cons hruns
  obtain ⟨between', after, rfl, hbetween', hcs, -, hruns⟩ := Text.runs_eq_cons hruns
  have hafter := Text.isSeparator_of_runs_eq_nil hruns
  have hapart : ∀ {separators run others : List Char}, run ≠ [] →
      (∀ x ∈ run, isSeparator x = false) →
      (∀ x ∈ (separators ++ (run ++ others)).head?, isSeparator x = true) →
      separators ≠ [] := by
    rintro separators run others hrun hrunChars hfirst rfl
    obtain ⟨x, xs, rfl⟩ := List.exists_cons_of_ne_nil hrun
    have hyes := hfirst x (by simp)
    rw [hrunChars x List.mem_cons_self] at hyes
    cases hyes
  refine .mk ha hb hc ⟨hapart hb.ne_nil hbs hhead, hapart hc.ne_nil hcs hhead'⟩ ?_ horder
  simp only [List.forall_mem_append]
  exact ⟨⟨⟨hbefore, hbetween⟩, hbetween'⟩, hafter⟩

structure DenotesDate (date : Date) (year month day : Nat) : Prop where
  read : date = ⟨fullYear year, month, day⟩
  /-- The date is the one spelled if and only if a word of 32 bits holds the year. -/
  exact_iff : date = ⟨spelledYear year, month, day⟩ ↔ year < 0x80000000
  wrapped : 0x80000000 ≤ year → date.year = year - 0x100000000

theorem denotesDate_fullYear {year : Nat} (hyear : year < 0x100000000) (month day : Nat) :
    DenotesDate ⟨fullYear year, month, day⟩ year month day := by
  refine ⟨rfl, ⟨fun h => ?_, fun h => by rw [fullYear_of_lt h]⟩, fun h => fullYear_of_le h hyear⟩
  by_cases hlow : year < 0x80000000
  · exact hlow
  · have hsame : fullYear year = spelledYear year := congrArg Date.year h
    rw [fullYear_of_le (by omega) hyear, spelledYear, if_neg (by omega), if_neg (by omega)] at hsame
    omega

/-- A short date is the one that its three numbers make in their order. -/
theorem spellsDate_of_short? {order : DateOrder} {text : String} {r : Reading}
    (hr : short? order text = some r) :
    ∃ word year month day, (Text.words text).head? = some word ∧
      SpellsDate order word.toList year month day ∧ DenotesDate r.date year month day := by
  obtain ⟨word, hword, hr⟩ := Option.bind_eq_some_iff.mp hr
  dsimp only at hr
  split at hr
  · rename_i a b c hparts
    split at hr
    · cases hr
    · rename_i hdigits
      simp only [hparts, List.all_cons, List.all_nil, Bool.and_true, Bool.not_eq_true,
        Bool.not_eq_false', Bool.and_eq_true] at hdigits
      obtain ⟨first, hfirst, hr⟩ := Option.bind_eq_some_iff.mp hr
      obtain ⟨second, hsecond, hr⟩ := Option.bind_eq_some_iff.mp hr
      obtain ⟨third, hthird, hr⟩ := Option.bind_eq_some_iff.mp hr
      obtain ⟨ha, hfirst⟩ := Decimal.digits_of_nat32? hdigits.1 hfirst
      obtain ⟨hb, -⟩ := Decimal.digits_of_nat32? hdigits.2.1 hsecond
      obtain ⟨hc, hthird⟩ := Decimal.digits_of_nat32? hdigits.2.2 hthird
      have hspells : ∀ {year month day : Nat},
          (if a.toList.length = 4 then DateOrder.yearMonthDay else order).arranged
            first second third = (year, month, day) →
          SpellsDate order word.toList year month day :=
        spellsDate_of_runs (runs_of_split hparts) ha hb hc
      have hdate : ∀ {year month day : Nat}, year < 0x100000000 →
          (Date.ofParts? (fullYear year) month day >>= fun date => do
            let seconds ← timeOfDay? (Text.words text).tail
            pure (Reading.ofParts date seconds 0)) = some r →
          DenotesDate r.date year month day := by
        intro year month day hyear hr
        obtain ⟨date, hdate, hr⟩ := Option.bind_eq_some_iff.mp hr
        obtain ⟨seconds, hseconds, hr⟩ := Option.bind_eq_some_iff.mp hr
        cases hr
        obtain ⟨rfl, hvalid⟩ := eq_of_ofParts? hdate
        rw [date_ofParts hvalid (timeOfDay?_lt hseconds)]
        exact denotesDate_fullYear hyear month day
      rw [← String.length_toList] at hr
      generalize (if a.toList.length = 4 then DateOrder.yearMonthDay else order) = arrangement at *
      cases arrangement with
      | monthDayYear => exact ⟨word, third, first, second, hword, hspells rfl, hdate hthird hr⟩
      | dayMonthYear => exact ⟨word, third, second, first, hword, hspells rfl, hdate hthird hr⟩
      | yearMonthDay => exact ⟨word, first, second, third, hword, hspells rfl, hdate hfirst hr⟩
  · cases hr

/-! ## Literals -/

/-- What a literal that is read denotes, and when reading it overflows.  With a numeric offset
it is the date and time in front, moved back by the hours and minutes spelled, with all their
signs, which come to less than a day.  A short date is a day of that date in the zone: the
numbers spelled in the order of the locale, with the year within 32 bits.  An offset far below
zero, and nothing else, ends in an overflow. -/
theorem instant_spells (locale : String) (zone : Zone) (text : String) :
    (∀ t, instant locale zone text = .ok (some t) →
      (∀ body suffix, LiteralForm.ofText? text = some (.offset body suffix) →
        Text.trimChars suffix ≠ [] →
        ∃ naive sign hours minutes, fixed? (Text.trimChars body) = some naive ∧
          SpellsOffset (Text.trimChars suffix) naive t.utc sign hours minutes) ∧
      (∀ plain, LiteralForm.ofText? text = some (.plain plain) → fixed? plain.toList = none →
        ∃ word year month day, (Text.words plain).head? = some word ∧
          SpellsDate (.ofLocale locale) word.toList year month day ∧
          DenotesDate (zone.reading t).date year month day)) ∧
    (instant locale zone text = .error {} ↔
      ∃ body suffix, LiteralForm.ofText? text = some (.offset body suffix) ∧
        ∃ sign hours minutes, OffsetText (Text.trimChars suffix) sign hours minutes ∧
          ClockFits hours minutes ∧
          (hours < -596523 ∨ minutes < -35791394 ∨ 60 * hours + minutes < -35791394)) := by
  refine ⟨fun t ht => ⟨fun body suffix hform hsuffix => ?_, fun plain hform hfixed => ?_⟩, ?_⟩
  · rw [instant, hform] at ht
    obtain ⟨offset, hoffset, ht⟩ := bind_eq_ok_iff.mp ht
    obtain ⟨naive, hnaive, ht⟩ := Option.bind_eq_some_iff.mp (Except.ok.inj ht)
    obtain ⟨seconds, rfl, ht⟩ := Option.bind_eq_some_iff.mp ht
    obtain ⟨utc, hutc, rfl⟩ := Option.map_eq_some_iff.mp ht
    obtain ⟨sign, hours, minutes, hspells⟩ := spellsOffset_of_offset hsuffix hoffset hutc
    exact ⟨naive, sign, hours, minutes, hnaive, hspells⟩
  · rw [instant, hform] at ht
    have ht := Except.ok.inj ht
    rw [hfixed, Option.none_or] at ht
    obtain ⟨r, hr, ht⟩ := Option.bind_eq_some_iff.mp ht
    rw [Zone.reading_of_earliest? ht]
    exact spellsDate_of_short? hr
  · rw [instant]
    cases hform : LiteralForm.ofText? text with
    | none => simp
    | some form =>
        cases form with
        | universal body => simp [LiteralForm.instant]
        | plain text => simp [LiteralForm.instant]
        | offset body suffix =>
            simp only [Option.some.injEq, LiteralForm.offset.injEq, LiteralForm.instant]
            rw [bind_pure_eq_error_iff, offset_eq_error_iff]
            constructor
            · intro hfar
              exact ⟨body, suffix, ⟨rfl, rfl⟩, hfar⟩
            · rintro ⟨_, _, ⟨rfl, rfl⟩, hfar⟩
              exact hfar

/-- Hours with a sign of their own, a year above all words, and hours far below zero. -/
theorem instant_spells_signed :
    (∃ t, instant "en-US" .utc "2020-01-15T08:30:00 GMT+-5:30" = .ok (some t) ∧
      ∃ naive sign hours minutes, fixed? "2020-01-15T08:30:00".toList = some naive ∧
        SpellsOffset "+-5:30".toList naive t.utc sign hours minutes) ∧
    (∃ t, instant "de-DE" .utc "15.1.4294967295" = .ok (some t) ∧
      ∃ word year month day, (Text.words "15.1.4294967295").head? = some word ∧
        SpellsDate (.ofLocale "de-DE") word.toList year month day ∧
        DenotesDate (Zone.utc.reading t).date year month day) ∧
    instant "en-US" .utc "2020-01-15T08:30:00 GMT-00:-35791395" = .error {} := by
  have hsigned : (instant? "en-US" .utc "2020-01-15T08:30:00 GMT+-5:30").isSome = true := by
    decide +kernel
  have hshort : (instant? "de-DE" .utc "15.1.4294967295").isSome = true := by
    decide +kernel
  obtain ⟨t, ht⟩ := Option.isSome_iff_exists.mp hsigned
  obtain ⟨u, hu⟩ := Option.isSome_iff_exists.mp hshort
  rw [instant?_eq_some_iff] at ht hu
  refine ⟨⟨t, ht, ?_⟩, ⟨u, hu, ?_⟩, ?_⟩
  · exact ((instant_spells "en-US" .utc _).1 t ht).1 "2020-01-15T08:30:00".toList "+-5:30".toList
      (by decide +kernel) (by decide)
  · exact ((instant_spells "de-DE" .utc _).1 u hu).2 "15.1.4294967295" (by decide +kernel)
      (by decide +kernel)
  · refine (instant_spells "en-US" .utc _).2.mpr ⟨"2020-01-15T08:30:00".toList,
      "-00:-35791395".toList, by decide +kernel, -1, 0, -35791395, ?_, ?_, by decide⟩
    · have hhours : Signed "00".toList 0 := Decimal.int?_eq_some_iff.mp (by decide)
      have hminutes : Signed "-35791395".toList (-35791395) :=
        Decimal.int?_eq_some_iff.mp (by decide)
      exact .minutes .minus hhours hminutes
    · exact ⟨by decide, by decide, by decide, by decide⟩

/-- Five hours ahead with a minus sign are five hours behind, hours that do not fit end in an
overflow, and a year that does not fit is one before our era. -/
theorem instant_beyond_words :
    (instant? "en-US" .utc "2020-01-15T08:30:00 GMT+-5").map
        Instant.renderUniversal = some "2020-01-15T13:30:00.000Z" ∧
      (instant "en-US" .utc "2020-01-15T08:30:00 GMT+-1193046").toOption = none ∧
      (instant? "en-US" .utc "1/15/4294967295").map
        Instant.renderUniversal = some "-0001-01-15T00:00:00.000Z" := by
  decide +kernel

end Calendar

end TrackerQuery
