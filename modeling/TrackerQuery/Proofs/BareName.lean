import TrackerQuery.Proofs.PrintedText
import TrackerQuery.Proofs.TextGrammar

/-!
# Bare names

The rule for brackets looks at the parts of a name between its dots, scanning looks one
character past each dot.  A name is printed bare exactly if scanning takes the whole of it for
one name and the word is not reserved; in brackets it is scanned as itself exactly if it is
something, has no closing bracket and no blank at either end.
-/

namespace TrackerQuery

open Scan (IsWord IsWordTail IsBracketable IsTrimmed isNameChar isNameStart)

/-! ## Words and their parts -/

theorem exists_splitChars (p : Char → Bool) (cs : List Char) :
    ∃ part parts, Text.splitChars p cs = part :: parts := by
  cases cs with
  | nil => exact ⟨_, _, rfl⟩
  | cons c cs =>
      rw [Text.splitChars]
      split
      · exact ⟨_, _, rfl⟩
      · split <;> exact ⟨_, _, rfl⟩

theorem splitChars_cons_of_neg {p : Char → Bool} {c : Char} {cs part : List Char}
    {parts : List (List Char)} (hc : p c = false) (hcs : Text.splitChars p cs = part :: parts) :
    Text.splitChars p (c :: cs) = (c :: part) :: parts := by
  simp [Text.splitChars, hc, hcs]

/-- A text begins with a character of names exactly if its first part is not empty. -/
theorem head?_any_iff_splitChars {cs part : List Char} {parts : List (List Char)}
    (hsplit : Text.splitChars (· == '.') cs = part :: parts) (hpart : part.all isNameChar = true) :
    cs.head?.any isNameChar = true ↔ part ≠ [] := by
  cases cs with
  | nil =>
      obtain ⟨rfl, -⟩ := List.cons.inj hsplit
      simp
  | cons c cs =>
      obtain ⟨rest, others, hcs⟩ := exists_splitChars (· == '.') cs
      by_cases hdot : c = '.'
      · subst hdot
        obtain ⟨rfl, -⟩ := List.cons.inj hsplit
        have hname : isNameChar '.' = false := by decide
        exact iff_of_false (by simp [hname]) (by simp)
      · rw [splitChars_cons_of_neg (by simpa using hdot) hcs] at hsplit
        obtain ⟨rfl, -⟩ := List.cons.inj hsplit
        rw [List.all_cons, Bool.and_eq_true] at hpart
        exact iff_of_true hpart.1 (by simp)

/-- Between its dots a word has parts with characters of names, of which only the first may be
empty. -/
theorem isWordTail_iff_splitChars {cs part : List Char} {parts : List (List Char)}
    (hsplit : Text.splitChars (· == '.') cs = part :: parts) :
    IsWordTail cs ↔ part.all isNameChar = true ∧
      ∀ part ∈ parts, part ≠ [] ∧ part.all isNameChar = true := by
  induction cs generalizing part parts with
  | nil =>
      obtain ⟨rfl, rfl⟩ := List.cons.inj hsplit
      simp [IsWordTail, Scan.nameTail]
  | cons c cs ih =>
      obtain ⟨first, others, hcs⟩ := exists_splitChars (· == '.') cs
      rw [Scan.isWordTail_cons, ih hcs]
      by_cases hdot : c = '.'
      · subst hdot
        rw [Text.splitChars, if_pos (by rfl), hcs] at hsplit
        obtain ⟨rfl, rfl⟩ := List.cons.inj hsplit
        have hname : isNameChar '.' = false := by decide
        simp only [hname, Bool.false_eq_true, false_or, true_and, List.all_nil, List.forall_mem_cons]
        constructor
        · rintro ⟨hhead, hfirst, hothers⟩
          exact ⟨⟨(head?_any_iff_splitChars hcs hfirst).mp hhead, hfirst⟩, hothers⟩
        · rintro ⟨⟨hne, hfirst⟩, hothers⟩
          exact ⟨(head?_any_iff_splitChars hcs hfirst).mpr hne, hfirst, hothers⟩
      · rw [splitChars_cons_of_neg (by simpa using hdot) hcs] at hsplit
        obtain ⟨rfl, rfl⟩ := List.cons.inj hsplit
        simp only [hdot, false_and, or_false, List.all_cons, Bool.and_eq_true, and_assoc]

/-- A name is printed bare exactly if it is a word and not reserved. -/
theorem needsBrackets_eq_false_iff {name : String} :
    needsBrackets name = false ↔
      IsWord name.toList ∧ reservedWords.any (Text.sameIgnoringCase · name) = false := by
  simp only [needsBrackets, Bool.or_eq_false_iff, Bool.not_eq_false']
  refine and_congr_left fun _ => ?_
  cases hcs : name.toList with
  | nil => exact iff_of_false (by simp) nofun
  | cons c cs =>
      obtain ⟨part, parts, hsplit⟩ := exists_splitChars (· == '.') cs
      rw [Scan.isWord_cons, isWordTail_iff_splitChars hsplit]
      refine and_congr_right fun hc => ?_
      have hc : isNameStart c = true := hc
      have hdot : c ≠ '.' := by
        rintro rfl
        exact absurd hc (by decide)
      rw [splitChars_cons_of_neg (by simpa using hdot) hsplit]
      simp [Scan.isNameChar_of_isNameStart hc]

theorem isBooleanWord_of_unreserved {name : String}
    (hfree : reservedWords.any (Text.sameIgnoringCase · name) = false) :
    Scan.isBooleanWord name = false := by
  rw [List.any_eq_false] at hfree
  have htrue := hfree "true" (by decide)
  have hfalse := hfree "false" (by decide)
  rw [Scan.isBooleanWord, Text.sameIgnoringCase_comm, Text.sameIgnoringCase_comm name]
  rw [Bool.eq_false_iff.mpr htrue, Bool.eq_false_iff.mpr hfalse]
  rfl

/-! ## Names as whole texts -/

/-- The whole text is one name exactly if it is a word that is no truth value. -/
theorem exists_tokens_name_iff {name : String} :
    (∃ span, tokens name = .ok [⟨.name, name, span⟩]) ↔
      IsWord name.toList ∧ Scan.isBooleanWord name = false := by
  constructor
  · rintro ⟨span, htokens⟩
    exact scanned_of_tokens htokens _ (List.mem_singleton_self _)
  · rintro ⟨hword, hother⟩
    obtain ⟨_, htokens, span, rfl⟩ := (Scan.reads_word hword).tokens
    rw [hother] at htokens
    exact ⟨span, htokens⟩

theorem exists_tokens_bracketed_iff {name : String} :
    (∃ span, tokens s!"[{name}]" = .ok [⟨.bracketedName, name, span⟩]) ↔
      IsBracketable name.toList := by
  constructor
  · rintro ⟨span, htokens⟩
    exact scanned_of_tokens htokens _ (List.mem_singleton_self _)
  · intro hname
    have htext : (s!"[{name}]").toList = '[' :: (name.toList ++ [']']) := by simp [toString]
    have hread := Scan.reads_bracketed hname
    rw [← htext] at hread
    obtain ⟨_, htokens, span, rfl⟩ := hread.tokens
    exact ⟨span, htokens⟩

/-- The rule for brackets agrees with scanning. -/
theorem needsBrackets_agrees_with_tokens (name : String) :
    (needsBrackets name = false ↔
      (∃ span, tokens name = .ok [⟨.name, name, span⟩]) ∧
        ∀ word ∈ reservedWords, Text.sameIgnoringCase word name = false) ∧
    ((∃ span, tokens s!"[{name}]" = .ok [⟨.bracketedName, name, span⟩]) ↔
      name ≠ "" ∧ ']' ∉ name.toList ∧ IsTrimmed name.toList) := by
  have hreserved : reservedWords.any (Text.sameIgnoringCase · name) = false ↔
      ∀ word ∈ reservedWords, Text.sameIgnoringCase word name = false := by
    simp only [List.any_eq_false, Bool.not_eq_true]
  constructor
  · rw [needsBrackets_eq_false_iff, exists_tokens_name_iff, ← hreserved, and_assoc]
    exact and_congr_right fun _ => ⟨fun h => ⟨isBooleanWord_of_unreserved h, h⟩, And.right⟩
  · rw [exists_tokens_bracketed_iff, ← Scan.trimChars_eq_self_iff, Ne, ← String.toList_eq_nil_iff]
    constructor
    · exact fun h => ⟨h.nonempty, fun hmem => h.closed _ hmem rfl, h.trimmed⟩
    · rintro ⟨hne, hclosed, htrimmed⟩
      exact ⟨hne, fun c hc heq => hclosed (heq ▸ hc), htrimmed⟩

end TrackerQuery
