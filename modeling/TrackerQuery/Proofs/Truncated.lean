import TrackerQuery.Proofs.Lexeme

/-!
# Scanning a text that is cut short

A lexeme ends where no character behind it goes on with it, and a text that is cut
there or further on has no more characters to go on with.  So the lexeme at the front
of a text is the one at the front of every such beginning of it.
-/

namespace TrackerQuery.Scan

open Decimal (isDigit)

variable {n : Nat} {cs : List Char}

theorem runLength_take {p : Char → Bool} (hn : runLength p cs ≤ n) :
    runLength p (cs.take n) = runLength p cs := by
  induction cs generalizing n with
  | nil => simp
  | cons c cs ih =>
      cases n with
      | zero =>
          rw [Nat.le_zero.mp hn]
          rfl
      | succ n =>
          cases hc : p c with
          | false => simp [runLength, hc]
          | true =>
              simp only [runLength, List.takeWhile_cons, hc, if_true, List.length_cons] at hn ih ⊢
              rw [List.take_succ_cons, List.takeWhile_cons, if_pos hc, List.length_cons,
                ih (by omega)]

/-! ## Words -/

/-- Behind a character of a name the word goes on for at least that character. -/
theorem nameTail_pos (hcs : cs.head?.any isNameChar = true) : 0 < nameTail cs := by
  cases cs with
  | nil => cases hcs
  | cons c cs =>
      have hc : isNameChar c = true := hcs
      simp [nameTail, hc]

theorem head?_any_of_take {p : Char → Bool} (hcs : (cs.take n).head?.any p = true) :
    cs.head?.any p = true := by
  cases cs with
  | nil => simp at hcs
  | cons c cs =>
      cases n with
      | zero => cases hcs
      | succ n => exact hcs

theorem head?_any_take {p : Char → Bool} (hn : cs.head?.any p = true → 0 < n) :
    (cs.take n).head?.any p = cs.head?.any p := by
  rw [Bool.eq_iff_iff]
  refine ⟨head?_any_of_take, fun hcs => ?_⟩
  obtain ⟨n, rfl⟩ := Nat.exists_eq_add_of_lt (hn hcs)
  cases cs with
  | nil => cases hcs
  | cons c cs => simpa [Nat.add_comm] using hcs

/-- A character behind a dot of a word is part of the word, so it is not cut off. -/
theorem nameTail_take (hn : nameTail cs ≤ n) : nameTail (cs.take n) = nameTail cs := by
  induction cs generalizing n with
  | nil => simp
  | cons c cs ih =>
      cases n with
      | zero =>
          rw [Nat.le_zero.mp hn]
          rfl
      | succ n =>
          rw [nameTail] at hn
          rw [List.take_succ_cons, nameTail, nameTail]
          split
          · rename_i hc
            rw [if_pos hc] at hn
            rw [ih (by omega)]
          · rename_i hc
            rw [if_neg hc] at hn
            have hnext : (c == '.' && (cs.take n).head?.any isNameChar) =
                (c == '.' && cs.head?.any isNameChar) := by
              cases hdot : c == '.' with
              | false => rfl
              | true =>
                  refine head?_any_take fun hhead => ?_
                  rw [hdot, hhead, Bool.and_self, if_pos rfl] at hn
                  have hpos := nameTail_pos hhead
                  omega
            rw [hnext]
            split
            · rename_i hdot
              rw [if_pos hdot] at hn
              rw [ih (by omega)]
            · rfl

/-! ## Numbers -/

theorem startsWithDigit_take (hn : startsWithDigit cs = true → 0 < n) :
    startsWithDigit (cs.take n) = startsWithDigit cs :=
  head?_any_take hn

theorem runLength_pos {p : Char → Bool} (hcs : cs.head?.any p = true) : 0 < runLength p cs := by
  cases cs with
  | nil => cases hcs
  | cons c cs =>
      have hc : p c = true := hcs
      simp [runLength, hc]

/-- Digits behind a mark are kept with the mark. -/
theorem digitsTail_take
    (hn : (if startsWithDigit cs then runLength isDigit cs + 1 else 0) ≤ n + 1) :
    (if startsWithDigit (cs.take n) then runLength isDigit (cs.take n) + 1 else 0) =
      if startsWithDigit cs then runLength isDigit cs + 1 else 0 := by
  cases hdigit : startsWithDigit cs with
  | false =>
      rw [startsWithDigit_take (by simp [hdigit]), hdigit]
      rfl
  | true =>
      have hpos : 0 < runLength isDigit cs := runLength_pos hdigit
      rw [hdigit, if_pos rfl] at hn
      rw [startsWithDigit_take (by omega), hdigit, if_pos rfl, if_pos rfl,
        runLength_take (by omega)]

theorem fractionTail_take (hn : fractionTail cs ≤ n) :
    fractionTail (cs.take n) = fractionTail cs := by
  cases cs with
  | nil => simp
  | cons c cs =>
      cases n with
      | zero =>
          rw [Nat.le_zero.mp hn]
          rfl
      | succ n =>
          rw [List.take_succ_cons]
          by_cases hdot : c = '.'
          · subst hdot
            exact digitsTail_take hn
          · rw [fractionTail_eq_zero (halts_cons.mpr (by simpa using hdot)),
              fractionTail_eq_zero (halts_cons.mpr (by simpa using hdot))]

def startsWithSign (cs : List Char) : Bool :=
  cs.head?.any fun c => c == '+' || c == '-'

theorem exponentTail_cons (mark : Char) (cs : List Char) :
    exponentTail (mark :: cs) =
      if mark == 'e' || mark == 'E' then
        if startsWithSign cs && startsWithDigit (cs.drop 1) then runLength isDigit (cs.drop 1) + 2
        else if startsWithDigit cs then runLength isDigit cs + 1
        else 0
      else 0 := by
  rw [exponentTail.eq_def]
  cases cs <;> rfl

/-- An exponent is not cut off behind its end. -/
theorem exponentTail_take (hn : exponentTail cs ≤ n) :
    exponentTail (cs.take n) = exponentTail cs := by
  cases cs with
  | nil => simp
  | cons mark cs =>
      cases n with
      | zero =>
          rw [Nat.le_zero.mp hn]
          rfl
      | succ n =>
          rw [exponentTail_cons] at hn
          rw [List.take_succ_cons, exponentTail_cons, exponentTail_cons]
          cases hmark : mark == 'e' || mark == 'E' with
          | false => rfl
          | true =>
              rw [hmark, if_pos rfl] at hn
              rw [if_pos rfl, if_pos rfl, List.drop_take]
              cases hsigned : startsWithSign cs && startsWithDigit (cs.drop 1) with
              | true =>
                  rw [hsigned, if_pos rfl] at hn
                  obtain ⟨hsign, hdigit⟩ := (Bool.and_eq_true ..).mp hsigned
                  have hsign' : startsWithSign (cs.take n) = true :=
                    (head?_any_take fun _ => by omega).trans hsign
                  have hpos : 0 < runLength isDigit (cs.drop 1) := runLength_pos hdigit
                  rw [hsign', startsWithDigit_take (by omega), hdigit, Bool.and_self, if_pos rfl,
                    if_pos rfl, runLength_take (by omega)]
              | false =>
                  have hsigned' :
                      (startsWithSign (cs.take n) && startsWithDigit ((cs.drop 1).take (n - 1))) =
                        false := by
                    rw [Bool.eq_false_iff] at hsigned ⊢
                    refine mt (fun h => ?_) hsigned
                    obtain ⟨hsign, hdigit⟩ := (Bool.and_eq_true ..).mp h
                    exact (Bool.and_eq_true ..).mpr
                      ⟨head?_any_of_take hsign, head?_any_of_take hdigit⟩
                  rw [hsigned, if_neg Bool.false_ne_true] at hn
                  rw [hsigned', if_neg Bool.false_ne_true, if_neg Bool.false_ne_true]
                  exact digitsTail_take hn

theorem numberTail_take (hn : numberTail cs ≤ n) : numberTail (cs.take n) = numberTail cs := by
  unfold numberTail at hn ⊢
  dsimp only at hn ⊢
  rw [runLength_take (by omega), List.drop_take, fractionTail_take (by omega), List.drop_take,
    exponentTail_take (by omega)]

/-- A number has a digit at least. -/
theorem numberTail_pos (hcs : startsWithDigit cs = true) : 0 < numberTail cs := by
  have hpos : 0 < runLength isDigit cs := runLength_pos hcs
  unfold numberTail
  dsimp only
  omega

/-! ## Brackets, quotes and operators -/

theorem bracketTail?_take {k : Nat} (hk : bracketTail? cs = some k) (hn : k ≤ n) :
    bracketTail? (cs.take n) = some k := by
  induction cs generalizing n k with
  | nil => cases hk
  | cons c cs ih =>
      rw [bracketTail?] at hk
      split at hk
      · rename_i hc
        obtain rfl := Option.some.inj hk
        obtain ⟨n, rfl⟩ := Nat.exists_eq_add_of_le' hn
        rw [List.take_succ_cons, bracketTail?, if_pos hc]
      · rename_i hc
        obtain ⟨k, htail, rfl⟩ := Option.map_eq_some_iff.mp hk
        obtain ⟨n, rfl⟩ := Nat.exists_eq_add_of_le' (Nat.le_trans (Nat.le_add_left 1 k) hn)
        rw [List.take_succ_cons, bracketTail?, if_neg hc, ih htail (by omega)]
        rfl

theorem quoteTail?_pos {quote : Char} {k : Nat} (hk : quoteTail? quote cs = some k) : 0 < k := by
  cases k with
  | zero => fun_cases quoteTail? quote cs <;> simp_all [quoteTail?]
  | succ k => exact k.succ_pos

theorem quoteTail?_take {quote : Char} {k : Nat} (hk : quoteTail? quote cs = some k)
    (hn : k ≤ n) : quoteTail? quote (cs.take n) = some k := by
  fun_induction quoteTail? quote cs generalizing n k with
  | case1 => cases hk
  | case2 c hc =>
      obtain rfl := Option.some.inj hk
      rw [List.take_of_length_le (by simpa using hn), quoteTail?, if_pos hc]
  | case3 c hc => cases hk
  | case4 c d cs hc hd ih =>
      obtain ⟨k, htail, rfl⟩ := Option.map_eq_some_iff.mp hk
      obtain ⟨n, rfl⟩ := Nat.exists_eq_add_of_le' (Nat.le_trans (Nat.le_add_left 2 k) hn)
      rw [List.take_succ_cons, List.take_succ_cons, quoteTail?, if_pos hc, if_pos hd,
        ih htail (by omega)]
      rfl
  | case5 c d cs hc hd =>
      obtain rfl := Option.some.inj hk
      obtain ⟨n, rfl⟩ := Nat.exists_eq_add_of_le' hn
      cases n with
      | zero => rw [List.take_succ_cons, List.take_zero, quoteTail?, if_pos hc]
      | succ n =>
          rw [List.take_succ_cons, List.take_succ_cons, quoteTail?, if_pos hc, if_neg hd]
  | case6 c d cs hc ih =>
      obtain ⟨k, htail, rfl⟩ := Option.map_eq_some_iff.mp hk
      have hpos := quoteTail?_pos htail
      obtain ⟨n, rfl⟩ := Nat.exists_eq_add_of_le' (show 2 ≤ n by omega)
      have hrest := ih htail (n := n + 1) (by omega)
      rw [List.take_succ_cons] at hrest ⊢
      rw [List.take_succ_cons, quoteTail?, if_neg hc, hrest]
      rfl

theorem operationTail_take {c : Char} (hn : operationTail c cs ≤ n) :
    operationTail c (cs.take n) = operationTail c cs := by
  unfold operationTail at hn ⊢
  rw [head?_any_take]
  intro hpair
  rw [if_pos hpair] at hn
  omega

/-! ## Lexemes -/

section Lexemes

variable {c : Char}

theorem wordLexeme_take (hn : (wordLexeme c cs).tail ≤ n) :
    wordLexeme c (cs.take n) = wordLexeme c cs := by
  have hn : nameTail cs ≤ n := hn
  simp only [wordLexeme, nameTail_take hn, List.take_take, Nat.min_eq_left hn]

theorem variableLexeme_take (hn : (variableLexeme cs).tail ≤ n) :
    variableLexeme (cs.take n) = variableLexeme cs := by
  have hn : runLength Text.isAlphanumeric cs ≤ n := hn
  simp only [variableLexeme, runLength_take hn, List.take_take, Nat.min_eq_left hn]

theorem bracketLexeme_take (hfault : (bracketLexeme cs).fault = none)
    (hn : (bracketLexeme cs).tail ≤ n) : bracketLexeme (cs.take n) = bracketLexeme cs := by
  unfold bracketLexeme at hfault hn ⊢
  cases htail : bracketTail? cs with
  | none => simp [htail] at hfault
  | some k =>
      have hk : k ≤ n := by
        rw [htail] at hn
        dsimp only at hn
        split at hn <;> exact hn
      rw [bracketTail?_take htail hk]
      dsimp only
      rw [List.take_take, Nat.min_eq_left (by omega)]

theorem numberLexeme_take (hn : (numberLexeme c cs).tail ≤ n) :
    numberLexeme c (cs.take n) = numberLexeme c cs := by
  have hn : (if isDigit c then numberTail (c :: cs) - 1 else numberTail cs) ≤ n := hn
  have htail : (if isDigit c then numberTail (c :: cs.take n) - 1 else numberTail (cs.take n)) =
      if isDigit c then numberTail (c :: cs) - 1 else numberTail cs := by
    cases hc : isDigit c with
    | true =>
        rw [hc, if_pos rfl] at hn
        rw [if_pos rfl, if_pos rfl, ← List.take_succ_cons, numberTail_take (by omega)]
    | false =>
        rw [hc, if_neg Bool.false_ne_true] at hn
        rw [if_neg Bool.false_ne_true, if_neg Bool.false_ne_true, numberTail_take hn]
  simp only [numberLexeme, htail, List.take_take, Nat.min_eq_left hn]

theorem quoteLexeme_take (hfault : (quoteLexeme c cs).fault = none)
    (hn : (quoteLexeme c cs).tail ≤ n) : quoteLexeme c (cs.take n) = quoteLexeme c cs := by
  unfold quoteLexeme at hfault hn ⊢
  cases htail : quoteTail? c cs with
  | none => simp [htail] at hfault
  | some k =>
      have hk : k ≤ n := by simpa [htail] using hn
      rw [quoteTail?_take htail hk]
      dsimp only
      rw [List.take_take, Nat.min_eq_left hk]

theorem operationLexeme_take (hn : (operationLexeme c cs).tail ≤ n) :
    operationLexeme c (cs.take n) = operationLexeme c cs := by
  have hn : operationTail c cs ≤ n := hn
  simp only [operationLexeme, operationTail_take hn, List.take_take, Nat.min_eq_left hn]

/-- A sign that starts a number is followed by a digit of it. -/
theorem numberLexeme_tail_pos (hc : isDigit c = false) (hcs : startsWithDigit cs = true) :
    0 < (numberLexeme c cs).tail := by
  have hpos := numberTail_pos hcs
  simpa [numberLexeme, hc] using hpos

/-- The lexeme at the front of a text is the one at the front of every beginning of the
text that it fits into. -/
theorem lexeme_take (hfault : (lexeme c cs).fault = none) (hn : (lexeme c cs).tail ≤ n) :
    lexeme c (cs.take n) = lexeme c cs := by
  unfold lexeme at hfault hn ⊢
  split
  · rename_i hname
    rw [if_pos hname] at hn
    exact wordLexeme_take hn
  · rename_i hname
    rw [if_neg hname] at hfault hn
    split
    · rename_i hvariable
      rw [if_pos hvariable] at hn
      exact variableLexeme_take hn
    · rename_i hvariable
      rw [if_neg hvariable] at hfault hn
      split
      · rename_i hbracket
        rw [if_pos hbracket] at hfault hn
        exact bracketLexeme_take hfault hn
      · rename_i hbracket
        rw [if_neg hbracket] at hfault hn
        have hnumber : (isDigit c || (c == '+' || c == '-') && startsWithDigit (cs.take n)) =
            (isDigit c || (c == '+' || c == '-') && startsWithDigit cs) := by
          cases hdigit : isDigit c with
          | true => rfl
          | false =>
              cases hsign : c == '+' || c == '-' with
              | false => rfl
              | true =>
                  refine startsWithDigit_take fun hcs => ?_
                  rw [hdigit, hsign, hcs, if_pos (by rfl)] at hn
                  exact Nat.lt_of_lt_of_le (numberLexeme_tail_pos hdigit hcs) hn
        rw [hnumber]
        split
        · rename_i hc
          rw [if_pos hc] at hn
          exact numberLexeme_take hn
        · rename_i hc
          rw [if_neg hc] at hfault hn
          split
          · rename_i hquote
            rw [if_pos hquote] at hfault hn
            exact quoteLexeme_take hfault hn
          · rename_i hquote
            rw [if_neg hquote] at hn
            exact operationLexeme_take hn

end Lexemes

end TrackerQuery.Scan
