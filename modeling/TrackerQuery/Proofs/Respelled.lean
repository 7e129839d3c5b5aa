import TrackerQuery.Proofs.PrintedText
import TrackerQuery.Proofs.Scanned
import TrackerQuery.Proofs.Unplaced

/-!
# Tokens written out again

A token that comes out of a text can be written by itself, and read back before a blank it is
the same token.  So any tokens of a text, in any order, are the tokens of some text.
-/

namespace TrackerQuery

namespace Scan

open Decimal (isDigit)

/-- By itself the token is written as a text that is read as the token. -/
def Rereads (t : Token) : Prop :=
  Reads t.render.toList (Single t.kind t.value)

section Lexemes

variable {c : Char} {cs : List Char} (span : Span)

theorem rereads_word (hc : isNameStart c = true) :
    Rereads ⟨(wordLexeme c cs).kind, (wordLexeme c cs).value, span⟩ := by
  have hword : IsWord (wordLexeme c cs).value.toList := by
    rw [wordLexeme, String.toList_ofList]
    exact ⟨c, _, rfl, hc, isWordTail_take cs⟩
  have hread := reads_word hword
  unfold wordLexeme at hread ⊢
  dsimp only at hread ⊢
  cases hboolean : isBooleanWord (String.ofList (c :: cs.take (nameTail cs))) with
  | true | false =>
      rw [hboolean] at hread
      exact hread

theorem rereads_variable : Rereads ⟨(variableLexeme cs).kind, (variableLexeme cs).value, span⟩ := by
  have hread := reads_variable (isValueOf_variableLexeme cs)
  have hrender : ("@" ++ (variableLexeme cs).value).toList =
      '@' :: (variableLexeme cs).value.toList := by simp
  rw [← hrender] at hread
  exact hread

theorem rereads_bracketed (hfault : (bracketLexeme cs).fault = none) :
    Rereads ⟨(bracketLexeme cs).kind, (bracketLexeme cs).value, span⟩ := by
  have hkind : (bracketLexeme cs).kind = .bracketedName := by
    unfold bracketLexeme
    split
    · rfl
    · dsimp only
      split <;> rfl
  have hvalue := isValueOf_bracketLexeme hfault
  rw [hkind] at hvalue ⊢
  have hread := reads_bracketed hvalue
  have hrender : ("[" ++ (bracketLexeme cs).value ++ "]").toList =
      '[' :: ((bracketLexeme cs).value.toList ++ [']']) := by simp
  rw [← hrender] at hread
  exact hread

theorem rereads_quoted (quote : Char) :
    Rereads ⟨(quoteLexeme quote cs).kind, (quoteLexeme quote cs).value, span⟩ := by
  have hkind : (quoteLexeme quote cs).kind = .string := by
    unfold quoteLexeme
    split <;> rfl
  rw [hkind]
  exact reads_quoted _

/-- A symbol by itself, or the two of a pair. -/
theorem rereads_operation (hc : isSymbol c = true) :
    Rereads ⟨(operationLexeme c cs).kind, (operationLexeme c cs).value, span⟩ := by
  have hpaired : (pairedOperations.any fun pair => isDigit pair.2) = false := by decide
  change Reads (String.ofList (c :: cs.take (operationTail c cs))).toList _
  rw [String.toList_ofList]
  refine reads_operation hc fun next hnext => ?_
  cases cs with
  | nil => exact operationTail_of_ends hnext
  | cons d cs =>
      by_cases hpair : (c, d) ∈ pairedOperations
      · have hdigit : isDigit d = false := by
          simpa using List.any_eq_false.mp hpaired (c, d) hpair
        simp [operationTail, hpair, startsWithDigit, hdigit]
      · have hnone : operationTail c (d :: cs) = 0 := by simp [operationTail, hpair]
        rw [hnone]
        exact operationTail_of_ends hnext

theorem rereads_lexeme (hc : Text.isBlank c = false) (hfault : (lexeme c cs).fault = none) :
    Rereads ⟨(lexeme c cs).kind, (lexeme c cs).value, span⟩ := by
  unfold lexeme at hfault ⊢
  split
  · rename_i hname
    exact rereads_word span hname
  · rename_i hname
    split
    · exact rereads_variable span
    · rename_i hat
      split
      · exact rereads_bracketed span (by simp_all)
      · rename_i hbracket
        split
        · rename_i hnumber
          exact reads_number (isValueOf_numberLexeme hnumber)
        · rename_i hnumber
          split
          · exact rereads_quoted span c
          · rename_i hquote
            refine rereads_operation span ?_
            simp_all [isSymbol]

end Lexemes

theorem rereads_of_mem_ofChars {pos : Nat} {cs : List Char}
    (herror : (ofChars pos cs).error = none) : ∀ t ∈ (ofChars pos cs).tokens, Rereads t :=
  forall_mem_ofChars rereads_lexeme herror

def written : List Token → List Char
  | [] => []
  | t :: ts => ' ' :: (t.render.toList ++ written ts)

theorem ends_written (ts : List Token) : Ends (written ts) := by
  cases ts with
  | nil => simp [written, Ends, Halts]
  | cons t ts => exact ends_cons.mpr (by decide)

theorem reads_written {ts : List Token} (hts : ∀ t ∈ ts, Rereads t) :
    Reads (written ts) fun us => us.map Token.unplaced = ts.map Token.unplaced := by
  induction ts with
  | nil => exact reads_nil.imp fun us hus => by rw [hus]
  | cons t ts ih =>
      obtain ⟨ht, hts⟩ := List.forall_mem_cons.mp hts
      refine ((ht.append (ih hts) (ends_written ts)).blank).imp ?_
      rintro _ ⟨_, vs, rfl, ⟨span, rfl⟩, hvs⟩
      simp [hvs, Token.unplaced]

end Scan

/-- Whatever tokens are taken from a text, in whatever order, there is a text of them. -/
theorem exists_tokens_of_subset {text : String} {ts us : List Token}
    (htokens : tokens text = .ok ts) (hus : us ⊆ ts) :
    ∃ text' us', tokens text' = .ok us' ∧ us'.map Token.unplaced = us.map Token.unplaced := by
  obtain ⟨herror, rfl⟩ := tokens_eq_ok_iff.mp htokens
  have hreads := Scan.reads_written fun t ht => Scan.rereads_of_mem_ofChars herror t (hus ht)
  rw [← String.toList_ofList (l := Scan.written us)] at hreads
  obtain ⟨us', htokens', hsame⟩ := hreads.tokens
  exact ⟨_, us', htokens', hsame⟩

end TrackerQuery
