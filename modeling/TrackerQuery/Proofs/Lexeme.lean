import TrackerQuery.Token.Scan

/-!
# Lexemes

The texts that scanning takes for words, numbers, names in brackets and strings.
Each class is described by itself, and scanning is shown to take such a text whole,
provided the next character does not continue it.
-/

namespace TrackerQuery.Scan

open Decimal (isDigit)

/-! ## Characters -/

theorem isNameChar_of_isNameStart {c : Char} (hc : isNameStart c = true) :
    isNameChar c = true := by
  simp only [isNameStart, isNameChar, Text.isAlphanumeric, Bool.or_eq_true] at hc ⊢
  exact hc.imp_left .inl

/-- What does not tell capital letters from small ones does not look at case. -/
theorem apply_asciiLower {p : Char → Bool}
    (hall : ∀ code ∈ List.range' 'A'.toNat 26, p (Char.ofNat (code + 32)) = p (Char.ofNat code))
    (c : Char) : p (Text.asciiLower c) = p c := by
  rw [Text.asciiLower]
  split
  · rename_i hupper
    have hlow : 'A'.toNat ≤ c.toNat := hupper.1
    have hhigh : c.toNat ≤ 'Z'.toNat := hupper.2
    have hwidth : 'Z'.toNat = 'A'.toNat + 25 := rfl
    have hcode := hall c.toNat (List.mem_range'_1.mpr (by omega))
    rwa [Char.ofNat_toNat] at hcode
  · rfl

theorem isNameStart_asciiLower (c : Char) : isNameStart (Text.asciiLower c) = isNameStart c :=
  apply_asciiLower (by decide) c

theorem exists_range_of_coversCode {ranges : Text.Ranges} {code : Nat}
    (hcode : ranges.coversCode code = true) :
    ∃ range ∈ ranges, range.1 ≤ code ∧ code ≤ range.2 := by
  induction ranges with
  | nil => cases hcode
  | cons range ranges ih =>
      obtain ⟨first, last⟩ := range
      rw [Text.Ranges.coversCode] at hcode
      split at hcode
      · cases hcode
      · split at hcode
        · exact ⟨(first, last), by simp, by simp; omega⟩
        · obtain ⟨range, hrange, hbounds⟩ := ih hcode
          exact ⟨range, List.mem_cons_of_mem _ hrange, hbounds⟩

/-- No blank is a character of a name. -/
theorem isBlank_of_isNameChar {c : Char} (hc : isNameChar c = true) : Text.isBlank c = false := by
  have hnone : ∀ range ∈ Text.blankRanges, ∀ code ∈ List.range' range.1 (range.2 + 1 - range.1),
      Text.letterRanges.coversCode code = false ∧ Text.numeralRanges.coversCode code = false ∧
        code ≠ '_'.toNat := by
    decide +kernel
  rw [Bool.eq_false_iff]
  intro hblank
  obtain ⟨range, hrange, hlow, hhigh⟩ := exists_range_of_coversCode hblank
  obtain ⟨hletter, hnumeral, hother⟩ :=
    hnone range hrange c.toNat (List.mem_range'_1.mpr (by omega))
  have hunderscore : (c == '_') = false := by
    rw [beq_eq_false_iff_ne]
    rintro rfl
    exact hother rfl
  simp [isNameChar, Text.isAlphanumeric, Text.isLetter, Text.isNumeral, Text.Ranges.covers,
    hletter, hnumeral, hunderscore] at hc

/-! ## Runs -/

/-- The next character, if there is one, does not satisfy `p`. -/
def Halts (p : Char → Bool) (next : List Char) : Prop :=
  ∀ c ∈ next.head?, p c = false

theorem runLength_append {p : Char → Bool} {run next : List Char} (hrun : ∀ c ∈ run, p c = true)
    (hnext : Halts p next) : runLength p (run ++ next) = run.length := by
  have hend : next.takeWhile p = [] := by
    cases next with
    | nil => rfl
    | cons c cs => simp [hnext c rfl]
  rw [runLength, List.takeWhile_append_of_pos hrun, hend, List.append_nil]

theorem take_runLength (p : Char → Bool) (cs : List Char) :
    cs.take (runLength p cs) = cs.takeWhile p := by
  exact (List.prefix_iff_eq_take.mp (List.takeWhile_prefix p)).symm

/-! ## Words -/

/-- A word after its first character: characters of names, with dots between
them. -/
def IsWordTail (cs : List Char) : Prop :=
  nameTail cs = cs.length

theorem isWordTail_cons {c : Char} {cs : List Char} :
    IsWordTail (c :: cs) ↔
      (isNameChar c = true ∨ c = '.' ∧ cs.head?.any isNameChar = true) ∧ IsWordTail cs := by
  rw [IsWordTail, IsWordTail, nameTail, List.length_cons]
  by_cases hc : isNameChar c = true
  · simp [hc]
  · by_cases hdot : c = '.' ∧ cs.head?.any isNameChar = true
    · simp [hdot.1, hdot.2]
    · rw [if_neg hc, if_neg (by simpa using hdot)]
      simp [hc, hdot]

/-- A dot goes on with a name if a character of a name follows. -/
theorem head?_take_nameTail {cs : List Char} (hcs : cs.head?.any isNameChar = true) :
    (cs.take (nameTail cs)).head?.any isNameChar = true := by
  cases cs with
  | nil => cases hcs
  | cons c cs =>
      have hc : isNameChar c = true := hcs
      simp [nameTail, hc]

theorem isWordTail_take (cs : List Char) : IsWordTail (cs.take (nameTail cs)) := by
  induction cs with
  | nil => rfl
  | cons c cs ih =>
      rw [nameTail]
      split
      · rename_i hc
        exact isWordTail_cons.mpr ⟨.inl hc, ih⟩
      · split
        · rename_i hdot
          obtain ⟨hpoint, hnext⟩ := Bool.and_eq_true_iff.mp hdot
          exact isWordTail_cons.mpr ⟨.inr ⟨beq_iff_eq.mp hpoint, head?_take_nameTail hnext⟩, ih⟩
        · rfl

/-- A word is taken whole if what follows does not go on with it. -/
theorem nameTail_append {cs next : List Char} (hcs : IsWordTail cs) (hnext : nameTail next = 0) :
    nameTail (cs ++ next) = cs.length := by
  induction cs with
  | nil => exact hnext
  | cons c cs ih =>
      obtain ⟨hc, hcs⟩ := isWordTail_cons.mp hcs
      rw [List.cons_append, nameTail, ih hcs, List.length_cons]
      obtain hc | ⟨rfl, hhead⟩ := hc
      · rw [if_pos hc]
      · have hhead' : (cs ++ next).head?.any isNameChar = true := by
          cases cs with
          | nil => cases hhead
          | cons d cs => exact hhead
        rw [hhead']
        rfl

/-- The characters of a word are neither blank nor brackets. -/
theorem isNameChar_or_dot_of_mem {cs : List Char} (hcs : IsWordTail cs) {c : Char} (hc : c ∈ cs) :
    isNameChar c = true ∨ c = '.' := by
  induction cs with
  | nil => cases hc
  | cons d cs ih =>
      obtain ⟨hd, hcs⟩ := isWordTail_cons.mp hcs
      obtain rfl | hc := List.mem_cons.mp hc
      · exact hd.imp_right And.left
      · exact ih hcs hc

def IsWord (cs : List Char) : Prop :=
  ∃ c tail, cs = c :: tail ∧ isNameStart c = true ∧ IsWordTail tail

theorem isWord_cons {c : Char} {tail : List Char} :
    IsWord (c :: tail) ↔ isNameStart c = true ∧ IsWordTail tail := by
  constructor
  · rintro ⟨_, _, heq, hc, htail⟩
    cases heq
    exact ⟨hc, htail⟩
  · rintro ⟨hc, htail⟩
    exact ⟨c, tail, rfl, hc, htail⟩

instance : (cs : List Char) → Decidable (IsWord cs)
  | [] => isFalse fun ⟨_, _, heq, _⟩ => by cases heq
  | c :: tail =>
      decidable_of_iff (isNameStart c = true ∧ nameTail tail = tail.length) isWord_cons.symm

/-! ## Numbers -/

inductive IsFraction : List Char → Prop
  | none : IsFraction []
  | digits {d ds} (hdigits : ∀ c ∈ d :: ds, isDigit c = true) : IsFraction ('.' :: d :: ds)

inductive IsExponent : List Char → Prop
  | none : IsExponent []
  | digits {mark d ds} (hmark : mark = 'e' ∨ mark = 'E')
      (hdigits : ∀ c ∈ d :: ds, isDigit c = true) : IsExponent (mark :: d :: ds)
  | signed {mark sign d ds} (hmark : mark = 'e' ∨ mark = 'E') (hsign : sign = '+' ∨ sign = '-')
      (hdigits : ∀ c ∈ d :: ds, isDigit c = true) : IsExponent (mark :: sign :: d :: ds)

inductive IsUnsigned : List Char → Prop
  | mk {d ds fraction exponent} (hwhole : ∀ c ∈ d :: ds, isDigit c = true)
      (hfraction : IsFraction fraction) (hexponent : IsExponent exponent) :
      IsUnsigned (d :: ds ++ (fraction ++ exponent))

def continuesNumber (c : Char) : Bool :=
  isDigit c || c == '.' || c == 'e' || c == 'E'

theorem Halts.imp {p q : Char → Bool} {next : List Char} (hnext : Halts p next)
    (hpq : ∀ c, p c = false → q c = false) : Halts q next :=
  fun c hc => hpq c (hnext c hc)

theorem halts_cons {p : Char → Bool} {c : Char} {cs : List Char} :
    Halts p (c :: cs) ↔ p c = false := by
  simp [Halts]

theorem ne_of_isDigit {c d : Char} (hc : isDigit c = true) (hd : isDigit d = false) : c ≠ d := by
  rintro rfl
  rw [hc] at hd
  cases hd

theorem isDigit_of_continuesNumber {next : List Char} (hnext : Halts continuesNumber next) :
    Halts isDigit next :=
  hnext.imp fun c hc => by
    simp only [continuesNumber, Bool.or_eq_false_iff] at hc
    exact hc.1.1.1

/-- An exponent begins with its mark. -/
theorem IsExponent.halts {p : Char → Bool} {exponent next : List Char}
    (hexponent : IsExponent exponent) (hsmall : p 'e' = false) (hlarge : p 'E' = false)
    (hnext : Halts p next) : Halts p (exponent ++ next) := by
  cases hexponent with
  | none => exact hnext
  | digits hmark hdigits => obtain rfl | rfl := hmark <;> exact halts_cons.mpr (by assumption)
  | signed hmark hsign hdigits =>
      obtain rfl | rfl := hmark <;> exact halts_cons.mpr (by assumption)

/-- An exponent ends where no character goes on with a number. -/
theorem exponentTail_append {exponent next : List Char} (hexponent : IsExponent exponent)
    (hnext : Halts continuesNumber next) : exponentTail (exponent ++ next) = exponent.length := by
  cases hexponent with
  | none =>
      cases next with
      | nil => rfl
      | cons c cs =>
          have hc := halts_cons.mp hnext
          simp only [continuesNumber, Bool.or_eq_false_iff] at hc
          simp [exponentTail, hc.1.2, hc.2]
  | @digits mark d ds hmark hdigits =>
      have hrun := runLength_append hdigits (isDigit_of_continuesNumber hnext)
      have hd := hdigits d (by simp)
      have hplus : d ≠ '+' := ne_of_isDigit hd (by decide)
      have hminus : d ≠ '-' := ne_of_isDigit hd (by decide)
      simp only [List.cons_append] at hrun ⊢
      obtain rfl | rfl := hmark <;> simp [exponentTail, hplus, hminus, hd, hrun]
  | @signed mark sign d ds hmark hsign hdigits =>
      have hrun := runLength_append hdigits (isDigit_of_continuesNumber hnext)
      have hd : startsWithDigit (d :: (ds ++ next)) = true := hdigits d (by simp)
      simp only [List.cons_append] at hrun ⊢
      obtain rfl | rfl := hmark <;> obtain rfl | rfl := hsign <;> simp [exponentTail, hd, hrun]

theorem fractionTail_eq_zero {cs : List Char} (hcs : Halts (· == '.') cs) :
    fractionTail cs = 0 := by
  unfold fractionTail
  split
  · exact absurd (halts_cons.mp hcs) (by decide)
  · rfl

theorem fractionTail_append {fraction exponent next : List Char} (hfraction : IsFraction fraction)
    (hexponent : IsExponent exponent) (hnext : Halts continuesNumber next) :
    fractionTail (fraction ++ (exponent ++ next)) = fraction.length := by
  cases hfraction with
  | none =>
      refine fractionTail_eq_zero (hexponent.halts (by decide) (by decide) ?_)
      refine hnext.imp fun c hc => ?_
      simp only [continuesNumber, Bool.or_eq_false_iff] at hc
      exact hc.1.1.2
  | @digits d ds hdigits =>
      have hend := hexponent.halts (by decide) (by decide) (isDigit_of_continuesNumber hnext)
      have hrun := runLength_append hdigits hend
      have hd : startsWithDigit (d :: (ds ++ (exponent ++ next))) = true := hdigits d (by simp)
      simp only [List.cons_append] at hrun ⊢
      simp [fractionTail, hd, hrun]

/-- A number is taken whole if what follows does not go on with it. -/
theorem numberTail_append {cs next : List Char} (hcs : IsUnsigned cs)
    (hnext : Halts continuesNumber next) : numberTail (cs ++ next) = cs.length := by
  obtain @⟨d, ds, fraction, exponent, hwhole, hfraction, hexponent⟩ := hcs
  have hdigit : Halts isDigit (fraction ++ (exponent ++ next)) := by
    cases hfraction with
    | none => exact hexponent.halts (by decide) (by decide) (isDigit_of_continuesNumber hnext)
    | digits hdigits => exact halts_cons.mpr (by decide)
  have hrun := runLength_append hwhole hdigit
  have hpoint := fractionTail_append hfraction hexponent hnext
  have hmark := exponentTail_append hexponent hnext
  simp only [List.append_assoc, numberTail, hrun]
  rw [List.drop_left, hpoint, ← List.drop_drop, List.drop_left, List.drop_left, hmark]
  simp
  omega

/-- A run of digits that begins with one. -/
theorem exists_digits {cs : List Char} (hcs : startsWithDigit cs = true) :
    ∃ d ds, cs.take (runLength isDigit cs) = d :: ds ∧ ∀ c ∈ d :: ds, isDigit c = true := by
  cases cs with
  | nil => cases hcs
  | cons d cs =>
      have hd : isDigit d = true := hcs
      have hrun := List.all_eq_true.mp (List.all_takeWhile (p := isDigit) (l := d :: cs))
      rw [take_runLength]
      rw [List.takeWhile_cons_of_pos hd] at hrun ⊢
      exact ⟨d, _, rfl, hrun⟩

theorem isFraction_take (cs : List Char) : IsFraction (cs.take (fractionTail cs)) := by
  unfold fractionTail
  split
  · rename_i cs
    split
    · rename_i hcs
      obtain ⟨d, ds, heq, hdigits⟩ := exists_digits hcs
      rw [List.take_succ_cons, heq]
      exact .digits hdigits
    · exact .none
  · exact .none

/-- What is scanned as an exponent is one. -/
theorem isExponent_take (cs : List Char) : IsExponent (cs.take (exponentTail cs)) := by
  unfold exponentTail
  split
  · rename_i mark cs
    split
    · rename_i hmark
      have hmark : mark = 'e' ∨ mark = 'E' := by simpa using hmark
      split
      · rename_i sign rest
        split
        · rename_i hsign
          obtain ⟨hsign, hrest⟩ := Bool.and_eq_true_iff.mp hsign
          obtain ⟨d, ds, heq, hdigits⟩ := exists_digits hrest
          rw [List.take_succ_cons, List.take_succ_cons, heq]
          exact .signed hmark (by simpa using hsign) hdigits
        · split
          · rename_i hdigit
            have hstart : startsWithDigit (sign :: rest) = true := hdigit
            obtain ⟨d, ds, heq, hdigits⟩ := exists_digits hstart
            rw [List.take_succ_cons, heq]
            exact .digits hmark hdigits
          · exact .none
      · exact .none
    · exact .none
  · exact .none

/-- What scanning takes for a number is one. -/
theorem isUnsigned_take {cs : List Char} (hcs : startsWithDigit cs = true) :
    IsUnsigned (cs.take (numberTail cs)) := by
  obtain ⟨d, ds, heq, hdigits⟩ := exists_digits hcs
  rw [numberTail, List.take_add, List.take_add, heq, List.append_assoc]
  exact .mk hdigits (isFraction_take _) (isExponent_take _)

theorem IsUnsigned.startsWithDigit {cs : List Char} (hcs : IsUnsigned cs) (next : List Char) :
    startsWithDigit (cs ++ next) = true := by
  obtain ⟨hwhole, hfraction, hexponent⟩ := hcs
  exact hwhole _ (by simp)

inductive IsNumber : List Char → Prop
  | unsigned {cs} (hcs : IsUnsigned cs) : IsNumber cs
  | signed {sign cs} (hsign : sign = '+' ∨ sign = '-') (hcs : IsUnsigned cs) :
      IsNumber (sign :: cs)

/-! ## Names in brackets -/

/-- What may stand between brackets: something, without blanks around it, that
does not close them. -/
structure IsBracketable (cs : List Char) : Prop where
  nonempty : cs ≠ []
  closed : ∀ c ∈ cs, c ≠ ']'
  trimmed : Text.trimChars cs = cs

theorem bracketTail?_append {cs next : List Char} (hcs : ∀ c ∈ cs, c ≠ ']') :
    bracketTail? (cs ++ ']' :: next) = some (cs.length + 1) := by
  induction cs with
  | nil => rfl
  | cons c cs ih =>
      have hc : c ≠ ']' := hcs c (by simp)
      simp [bracketTail?, hc, ih fun d hd => hcs d (by simp [hd])]

theorem mem_take_of_bracketTail? {cs : List Char} {n : Nat} (hn : bracketTail? cs = some n) :
    ∀ c ∈ cs.take (n - 1), c ≠ ']' := by
  induction cs generalizing n with
  | nil => cases hn
  | cons d cs ih =>
      rw [bracketTail?] at hn
      split at hn
      · cases hn
        simp
      · rename_i hd
        obtain ⟨k, hk, rfl⟩ := Option.map_eq_some_iff.mp hn
        intro c hc
        cases k with
        | zero => simp at hc
        | succ k =>
            simp only [Nat.add_sub_cancel, List.take_succ_cons, List.mem_cons] at hc
            obtain rfl | hc := hc
            · simpa using hd
            · exact ih hk c hc

/-- A text is trimmed if neither its first nor its last character is blank. -/
theorem trimChars_eq_self {cs : List Char} (hhead : Halts Text.isBlank cs)
    (hlast : Halts Text.isBlank cs.reverse) : Text.trimChars cs = cs := by
  have hdrop : ∀ {cs}, Halts Text.isBlank cs → cs.dropWhile Text.isBlank = cs := by
    intro cs hcs
    cases cs with
    | nil => rfl
    | cons c cs => simp [halts_cons.mp hcs]
  rw [Text.trimChars, Text.dropEndWhile, hdrop hhead, hdrop hlast, List.reverse_reverse]

theorem halts_dropWhile (p : Char → Bool) (cs : List Char) : Halts p (cs.dropWhile p) := by
  intro c hc
  have hnot := List.head?_dropWhile_not p cs
  rw [Option.mem_def.mp hc] at hnot
  simpa using hnot

/-- The first character of a text is that of each of its beginnings. -/
theorem Halts.of_isPrefix {p : Char → Bool} {cs ds : List Char} (hds : Halts p ds)
    (hstart : cs <+: ds) : Halts p cs := by
  obtain ⟨rest, rfl⟩ := hstart
  cases cs with
  | nil => simp [Halts]
  | cons c cs => exact halts_cons.mpr (halts_cons.mp hds)

/-- Neither the first nor the last character is blank. -/
def IsTrimmed (cs : List Char) : Prop :=
  Halts Text.isBlank cs ∧ Halts Text.isBlank cs.reverse

theorem isTrimmed_trimChars (cs : List Char) : IsTrimmed (Text.trimChars cs) := by
  have hstart : Text.trimChars cs <+: cs.dropWhile Text.isBlank := by
    have hsuffix := List.dropWhile_suffix (l := (cs.dropWhile Text.isBlank).reverse) Text.isBlank
    rw [Text.trimChars, Text.dropEndWhile, ← List.reverse_suffix, List.reverse_reverse]
    exact hsuffix
  refine ⟨(halts_dropWhile _ cs).of_isPrefix hstart, ?_⟩
  rw [Text.trimChars, Text.dropEndWhile, List.reverse_reverse]
  exact halts_dropWhile _ _

theorem trimChars_eq_self_iff {cs : List Char} : Text.trimChars cs = cs ↔ IsTrimmed cs :=
  ⟨fun h => h ▸ isTrimmed_trimChars cs, fun h => trimChars_eq_self h.1 h.2⟩

theorem trimChars_trimChars (cs : List Char) :
    Text.trimChars (Text.trimChars cs) = Text.trimChars cs :=
  trimChars_eq_self_iff.mpr (isTrimmed_trimChars cs)

theorem mem_of_mem_trimChars {cs : List Char} {c : Char} (hc : c ∈ Text.trimChars cs) : c ∈ cs := by
  rw [Text.trimChars, Text.dropEndWhile, List.mem_reverse] at hc
  have hc := List.mem_reverse.mp ((List.dropWhile_suffix _).subset hc)
  exact (List.dropWhile_suffix _).subset hc

/-- A word may stand between brackets. -/
theorem IsWord.isBracketable {cs : List Char} (hcs : IsWord cs) : IsBracketable cs := by
  obtain ⟨c, tail, rfl, hc, htail⟩ := hcs
  have hchars : ∀ d ∈ c :: tail, isNameChar d = true ∨ d = '.' := by
    intro d hd
    obtain rfl | hd := List.mem_cons.mp hd
    · exact .inl (isNameChar_of_isNameStart hc)
    · exact isNameChar_or_dot_of_mem htail hd
  have hblank : ∀ d ∈ c :: tail, Text.isBlank d = false := by
    intro d hd
    obtain hname | rfl := hchars d hd
    · exact isBlank_of_isNameChar hname
    · decide
  refine ⟨by simp, fun d hd => ?_, trimChars_eq_self ?_ ?_⟩
  · rintro rfl
    obtain hname | hdot := hchars _ hd
    · exact absurd hname (by decide)
    · cases hdot
  · exact fun d hd => hblank d (List.mem_of_mem_head? hd)
  · exact fun d hd => hblank d (List.mem_reverse.mp (List.mem_of_mem_head? hd))

/-! ## Strings -/

theorem quoteTail?_doubleQuotes {quote : Char} (cs : List Char) {next : List Char}
    (hnext : Halts (· == quote) next) :
    quoteTail? quote (Token.doubleQuotes quote cs ++ quote :: next) =
      some ((Token.doubleQuotes quote cs).length + 1) := by
  induction cs with
  | nil =>
      cases next with
      | nil => simp [Token.doubleQuotes, quoteTail?]
      | cons d ds => simpa [Token.doubleQuotes, quoteTail?] using halts_cons.mp hnext
  | cons c cs ih =>
      rw [Token.doubleQuotes]
      split
      · rename_i hc
        subst hc
        simp [quoteTail?, ih]
      · rename_i hc
        obtain ⟨d, ds, heq⟩ := List.exists_cons_of_ne_nil
          (show Token.doubleQuotes quote cs ++ quote :: next ≠ [] by simp)
        rw [heq] at ih
        rw [List.cons_append, heq]
        simp [quoteTail?, hc, ih]

theorem unquote_doubleQuotes (quote : Char) (cs : List Char) :
    unquote quote (Token.doubleQuotes quote cs ++ [quote]) = cs := by
  induction cs with
  | nil => simp [Token.doubleQuotes, unquote]
  | cons c cs ih =>
      rw [Token.doubleQuotes]
      split
      · rename_i hc
        subst hc
        simp [unquote, ih]
      · rename_i hc
        obtain ⟨d, ds, heq⟩ := List.exists_cons_of_ne_nil
          (show Token.doubleQuotes quote cs ++ [quote] ≠ [] by simp)
        rw [heq] at ih
        rw [List.cons_append, heq]
        simp [unquote, hc, ih]

end TrackerQuery.Scan
