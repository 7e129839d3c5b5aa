import TrackerQuery.Proofs.Lexeme

/-!
# Scanned tokens

What the value of a token is, by its kind, when scanning has made the token.
-/

namespace TrackerQuery

open Decimal (isDigit)

namespace Scan

/-- The values that tokens of a kind have. -/
def IsValueOf (value : String) : TokenKind → Prop
  | .name => IsWord value.toList ∧ isBooleanWord value = false
  | .bracketedName => IsBracketable value.toList
  | .variable => ∀ c ∈ value.toList, Text.isAlphanumeric c = true
  | .number => IsNumber value.toList
  | .boolean => isBooleanWord value = true
  | .operation => value ≠ ""
  | .string => True

theorem isValueOf_wordLexeme {c : Char} (hc : isNameStart c = true) (cs : List Char) :
    IsValueOf (wordLexeme c cs).value (wordLexeme c cs).kind := by
  have hword : IsWord (c :: cs.take (nameTail cs)) := ⟨c, _, rfl, hc, isWordTail_take cs⟩
  unfold wordLexeme
  dsimp only
  split
  · rename_i hboolean
    exact hboolean
  · rename_i hboolean
    exact ⟨by rwa [String.toList_ofList], Bool.eq_false_iff.mpr hboolean⟩

theorem isValueOf_variableLexeme (cs : List Char) :
    IsValueOf (variableLexeme cs).value (variableLexeme cs).kind := by
  have hall := List.all_eq_true.mp (List.all_takeWhile (p := Text.isAlphanumeric) (l := cs))
  simpa [variableLexeme, IsValueOf, take_runLength] using hall

theorem isBracketable_trim {cs : List Char} {n : Nat} (hn : bracketTail? cs = some n)
    (hvalue : Text.trim (String.ofList (cs.take (n - 1))) ≠ "") :
    IsBracketable (Text.trim (String.ofList (cs.take (n - 1)))).toList := by
  have htrim : (Text.trim (String.ofList (cs.take (n - 1)))).toList =
      Text.trimChars (cs.take (n - 1)) := by
    rw [Text.trim, String.toList_ofList, String.toList_ofList]
  refine ⟨fun hnil => hvalue (String.toList_eq_nil_iff.mp hnil), fun c hc => ?_, ?_⟩
  · rw [htrim] at hc
    exact mem_take_of_bracketTail? hn c (mem_of_mem_trimChars hc)
  · rw [htrim, trimChars_trimChars]

theorem isValueOf_bracketLexeme {cs : List Char} (hfault : (bracketLexeme cs).fault = none) :
    IsValueOf (bracketLexeme cs).value (bracketLexeme cs).kind := by
  revert hfault
  unfold bracketLexeme
  split
  · simp
  · rename_i n hn
    dsimp only
    split
    · simp
    · rename_i hvalue
      intro _
      exact isBracketable_trim hn (by simpa using hvalue)

theorem isValueOf_numberLexeme {c : Char} {cs : List Char}
    (hc : (isDigit c || ((c == '+' || c == '-') && startsWithDigit cs)) = true) :
    IsValueOf (numberLexeme c cs).value (numberLexeme c cs).kind := by
  have hvalue : IsNumber
      (c :: cs.take (if isDigit c then numberTail (c :: cs) - 1 else numberTail cs)) := by
    split
    · rename_i hdigit
      have hwhole : IsUnsigned ((c :: cs).take (numberTail (c :: cs))) := isUnsigned_take hdigit
      cases hn : numberTail (c :: cs) with
      | zero =>
          rw [hn] at hwhole
          cases hwhole
      | succ n =>
          rw [hn, List.take_succ_cons] at hwhole
          exact .unsigned hwhole
    · rename_i hdigit
      simp only [hdigit, Bool.false_or, Bool.and_eq_true, Bool.or_eq_true, beq_iff_eq] at hc
      exact .signed hc.1 (isUnsigned_take hc.2)
  simpa [numberLexeme, IsValueOf] using hvalue

theorem isValueOf_operationLexeme (c : Char) (cs : List Char) :
    IsValueOf (operationLexeme c cs).value (operationLexeme c cs).kind := by
  intro hvalue
  simpa [operationLexeme] using congrArg String.toList hvalue

/-- What scanning takes for a lexeme has a value of its kind. -/
theorem isValueOf_lexeme {c : Char} {cs : List Char} (hfault : (lexeme c cs).fault = none) :
    IsValueOf (lexeme c cs).value (lexeme c cs).kind := by
  unfold lexeme at hfault ⊢
  split
  · rename_i hc
    exact isValueOf_wordLexeme hc cs
  · split
    · exact isValueOf_variableLexeme cs
    · split
      · exact isValueOf_bracketLexeme (by simp_all)
      · split
        · rename_i hc
          exact isValueOf_numberLexeme hc
        · split
          · unfold quoteLexeme
            split <;> trivial
          · exact isValueOf_operationLexeme c cs

end Scan

def Token.Scanned (t : Token) : Prop :=
  Scan.IsValueOf t.value t.kind

/-- What every lexeme has every token has. -/
theorem Scan.forall_mem_ofChars {P : Token → Prop}
    (hlexeme : ∀ {c : Char} {cs : List Char} (span : Span), Text.isBlank c = false →
      (lexeme c cs).fault = none → P ⟨(lexeme c cs).kind, (lexeme c cs).value, span⟩)
    {pos : Nat} {cs : List Char} (herror : (ofChars pos cs).error = none) :
    ∀ t ∈ (ofChars pos cs).tokens, P t := by
  fun_induction ofChars pos cs with
  | case1 => simp
  | case2 pos c cs hblank ih => exact ih herror
  | case3 pos c cs hblank found stop token cause hfault => cases herror
  | case4 pos c cs hblank found stop token hfault rest ih =>
      exact List.forall_mem_cons.mpr
        ⟨hlexeme _ (Bool.eq_false_iff.mpr hblank) hfault, ih herror⟩

theorem Scan.scanned_of_mem_ofChars {pos : Nat} {cs : List Char}
    (herror : (ofChars pos cs).error = none) : ∀ t ∈ (ofChars pos cs).tokens, t.Scanned :=
  forall_mem_ofChars (fun _ _ => isValueOf_lexeme) herror

theorem tokens_eq_ok_iff {text : String} {ts : List Token} :
    tokens text = .ok ts ↔ (scan text).error = none ∧ (scan text).tokens = ts := by
  unfold tokens
  dsimp only
  split <;> simp_all

theorem tokens_eq_error_iff {text : String} {error : Error} :
    tokens text = .error error ↔ (scan text).error = some error := by
  unfold tokens
  dsimp only
  split <;> simp_all

theorem scanned_of_tokens {text : String} {ts : List Token} (htokens : tokens text = .ok ts) :
    ∀ t ∈ ts, t.Scanned := by
  obtain ⟨herror, rfl⟩ := tokens_eq_ok_iff.mp htokens
  exact Scan.scanned_of_mem_ofChars herror

/-- No token of a text is empty. -/
theorem Token.Scanned.isOperation_empty {t : Token} (ht : t.Scanned) :
    t.isOperation "" = false := by
  rw [Token.isOperation, Bool.and_eq_false_iff]
  cases hkind : t.kind with
  | operation =>
      rw [Token.Scanned, hkind] at ht
      exact .inr (beq_eq_false_iff_ne.mpr ht)
  | _ => exact .inl rfl

theorem solid_of_tokens {text : String} {ts : List Token} (htokens : tokens text = .ok ts) :
    ∀ t ∈ ts, t.isOperation "" = false :=
  fun t ht => (scanned_of_tokens htokens t ht).isOperation_empty

end TrackerQuery
