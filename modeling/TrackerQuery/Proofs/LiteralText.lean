import Mathlib.Data.List.Chain
import TrackerQuery.Expr.Parse
import TrackerQuery.Proofs.CutText

/-!
# Literals in front of operators

A number goes on over a sign only behind the mark of its exponent, and nothing else but
strings and names in brackets has a sign in it.  So a literal ends before an operator, with
or without a blank between them, and the text before the literal is scanned the same
whichever follows.
-/

namespace TrackerQuery

open Decimal (isDigit)

namespace Scan

/-! ## Signs in numbers -/

def IsSign (c : Char) : Prop :=
  c = '+' ∨ c = '-'

/-- A sign stands behind the mark of an exponent. -/
def Marked (c d : Char) : Prop :=
  IsSign d → c = 'e' ∨ c = 'E'

theorem not_isSign_of_isDigit {c : Char} (hc : isDigit c = true) : ¬ IsSign c := by
  rintro (rfl | rfl) <;> cases hc

theorem isChain_marked_of_signless {cs : List Char} (hcs : ∀ c ∈ cs, ¬ IsSign c) :
    cs.IsChain Marked := by
  induction cs with
  | nil => exact .nil
  | cons c cs ih =>
      obtain ⟨-, hcs⟩ := List.forall_mem_cons.mp hcs
      refine List.isChain_cons.mpr ⟨fun d hd hsign => ?_, ih hcs⟩
      exact absurd hsign (hcs d (List.mem_of_mem_head? hd))

theorem IsFraction.signless {cs : List Char} (hcs : IsFraction cs) : ∀ c ∈ cs, ¬ IsSign c := by
  cases hcs with
  | none => simp
  | digits hdigits =>
      refine List.forall_mem_cons.mpr ⟨?_, fun c hc => not_isSign_of_isDigit (hdigits c hc)⟩
      rintro (h | h) <;> cases h

/-- In an exponent a sign stands behind the mark only. -/
theorem IsExponent.isChain {cs : List Char} (hcs : IsExponent cs) :
    cs.IsChain Marked ∧ ∀ c ∈ cs.head?, ¬ IsSign c := by
  have hmark : ∀ {mark : Char}, mark = 'e' ∨ mark = 'E' → ¬ IsSign mark := by
    rintro _ (rfl | rfl) (h | h) <;> cases h
  have hrun : ∀ {ds : List Char}, (∀ c ∈ ds, isDigit c = true) → ds.IsChain Marked :=
    fun hds => isChain_marked_of_signless fun c hc => not_isSign_of_isDigit (hds c hc)
  cases hcs with
  | none => exact ⟨.nil, by simp⟩
  | @digits mark d ds hmark' hdigits =>
      refine ⟨List.isChain_cons_cons.mpr ⟨fun hsign => ?_, hrun hdigits⟩,
        by simpa using hmark hmark'⟩
      exact absurd hsign (not_isSign_of_isDigit (hdigits d List.mem_cons_self))
  | @signed mark sign d ds hmark' hsign hdigits =>
      refine ⟨List.isChain_cons_cons.mpr ⟨fun _ => hmark', ?_⟩, by simpa using hmark hmark'⟩
      refine List.isChain_cons_cons.mpr ⟨fun hsign => ?_, hrun hdigits⟩
      exact absurd hsign (not_isSign_of_isDigit (hdigits d List.mem_cons_self))

theorem IsUnsigned.isChain {cs : List Char} (hcs : IsUnsigned cs) : cs.IsChain Marked := by
  obtain @⟨d, ds, fraction, exponent, hwhole, hfraction, hexponent⟩ := hcs
  obtain ⟨hchain, hhead⟩ := hexponent.isChain
  have hfront : ∀ c ∈ d :: ds ++ fraction, ¬ IsSign c := by
    intro c hc
    obtain hc | hc := List.mem_append.mp hc
    · exact not_isSign_of_isDigit (hwhole c hc)
    · exact hfraction.signless c hc
  rw [← List.append_assoc]
  refine List.isChain_append.mpr ⟨isChain_marked_of_signless hfront, hchain, ?_⟩
  exact fun _ _ y hy hsign => absurd hsign (hhead y hy)

theorem IsNumber.isChain {cs : List Char} (hcs : IsNumber cs) : cs.IsChain Marked := by
  cases hcs with
  | unsigned hcs => exact hcs.isChain
  | @signed sign cs hsign hcs =>
      refine List.isChain_cons.mpr ⟨fun d hd hother => ?_, hcs.isChain⟩
      have hdigit : startsWithDigit cs = true := by simpa using hcs.startsWithDigit []
      rw [startsWithDigit, Option.mem_def.mp hd] at hdigit
      exact absurd hother (not_isSign_of_isDigit hdigit)

/-- A number ends with a digit. -/
theorem IsNumber.isDigit_getLast {cs : List Char} (hcs : IsNumber cs) :
    ∀ c ∈ cs.getLast?, isDigit c = true := by
  have hrun : ∀ (front : List Char) {d : Char} {ds : List Char},
      (∀ c ∈ d :: ds, isDigit c = true) → ∀ c ∈ (front ++ d :: ds).getLast?, isDigit c = true := by
    intro front d ds hds c hc
    rw [List.getLast?_append_of_ne_nil _ (List.cons_ne_nil d ds)] at hc
    exact hds c (List.mem_of_getLast? hc)
  have hunsigned : ∀ (front : List Char) {ds : List Char}, IsUnsigned ds →
      ∀ c ∈ (front ++ ds).getLast?, isDigit c = true := by
    rintro front _ @⟨d, ds, fraction, exponent, hwhole, hfraction, hexponent⟩
    cases hexponent with
    | none =>
        cases hfraction with
        | none => simpa using hrun front hwhole
        | digits hds => simpa using hrun (front ++ d :: (ds ++ ['.'])) hds
    | @digits mark _ _ _ hds => simpa using hrun (front ++ d :: (ds ++ (fraction ++ [mark]))) hds
    | @signed mark sign _ _ _ _ hds =>
        simpa using hrun (front ++ d :: (ds ++ (fraction ++ [mark, sign]))) hds
  cases hcs with
  | unsigned hcs => exact hunsigned [] hcs
  | @signed sign cs hsign hcs => exact hunsigned [sign] hcs

/-! ## Lexemes before a sign -/

/-- Only a number has a sign in it, strings and names in brackets apart. -/
theorem isNumber_of_isSign_mem {c d : Char} {cs : List Char} (hbracket : c ≠ '[')
    (hquote : ¬(c = '\'' ∨ c = '"')) (hd : IsSign d) (hmem : d ∈ cs.take (lexeme c cs).tail) :
    IsNumber (c :: cs.take (lexeme c cs).tail) := by
  have hname : isNameChar d = false ∧ d ≠ '.' := by
    obtain rfl | rfl := hd <;> decide
  have hnoBracket : ¬(c == '[') = true := by simpa using hbracket
  have hnoQuote : ¬(c == '\'' || c == '"') = true := by simpa using hquote
  revert hmem
  unfold lexeme
  rw [if_neg hnoBracket, if_neg hnoQuote]
  split
  · intro hmem
    obtain hd' | hd' := isNameChar_or_dot_of_mem (isWordTail_take cs) hmem
    · rw [hname.1] at hd'
      cases hd'
    · exact absurd hd' hname.2
  · split
    · intro hmem
      rw [variableLexeme, take_runLength] at hmem
      have hletter := List.all_eq_true.mp List.all_takeWhile d hmem
      rw [isNameChar, hletter] at hname
      cases hname.1
    · split
      · rename_i hnumber
        intro _
        have hvalue : IsNumber (numberLexeme c cs).value.toList := isValueOf_numberLexeme hnumber
        rwa [numberLexeme, String.toList_ofList] at hvalue
      · intro hmem
        have hpairs :
            (pairedOperations.any fun pair => pair.2 == '+' || pair.2 == '-') = false := by
          decide
        refine absurd hmem ?_
        cases cs with
        | nil => simp
        | cons e cs =>
            by_cases hpair : (c, e) ∈ pairedOperations
            · have he : ¬ IsSign e := by
                simpa [IsSign] using List.any_eq_false.mp hpairs (c, e) hpair
              simp only [operationLexeme, operationTail, List.head?_cons, Option.any_some,
                List.contains_iff_mem.mpr hpair, if_true, List.take_succ_cons, List.take_zero,
                List.mem_singleton]
              rintro rfl
              exact he hd
            · simp [operationLexeme, operationTail, hpair]

/-- A lexeme ends before a sign, unless it is a number whose exponent the sign would begin. -/
theorem lexeme_append_sign {c d : Char} {cs next : List Char} (hd : IsSign d)
    (hfault : (lexeme c cs).fault = none) (hnumber : ∀ more, ¬ IsNumber (c :: (cs ++ d :: more))) :
    lexeme c (cs ++ d :: next) = lexeme c cs := by
  by_cases hbracket : c = '['
  · subst hbracket
    rw [lexeme_bracket] at hfault ⊢
    rw [lexeme_bracket]
    exact (bracketLexeme_append (d :: next) hfault).1
  · by_cases hquote : c = '\'' ∨ c = '"'
    · rw [lexeme_quote hquote] at hfault ⊢
      rw [lexeme_quote hquote]
      refine (quoteLexeme_append next ?_ hfault).1
      rintro rfl
      obtain rfl | rfl := hd <;> simp at hquote
    · have htail : (lexeme c (cs ++ d :: next)).tail ≤ cs.length := by
        by_contra hlonger
        obtain ⟨k, hk⟩ := Nat.exists_eq_add_of_lt (Nat.lt_of_not_le hlonger)
        have htake : (cs ++ d :: next).take (lexeme c (cs ++ d :: next)).tail =
            cs ++ d :: next.take k := by
          rw [hk, Nat.add_assoc, List.take_length_add_append, List.take_succ_cons]
        have hlong := isNumber_of_isSign_mem hbracket hquote hd (by rw [htake]; simp)
        rw [htake] at hlong
        exact hnumber _ hlong
      have hsame := lexeme_take (fault_lexeme hbracket hquote _).1 htail
      rw [List.take_left] at hsame
      exact hsame.symm

/-- What stands before an operator: a blank, or the operator itself. -/
def Breaks (c : Char) : Prop :=
  Text.isBlank c = true ∨ IsSign c

theorem Breaks.continuesNumber_eq {c : Char} (hc : Breaks c) : continuesNumber c = false := by
  obtain hblank | rfl | rfl := hc
  · rw [Bool.eq_false_iff]
    intro hnumber
    simp only [continuesNumber, Bool.or_eq_true, beq_iff_eq] at hnumber
    obtain ((hdigit | rfl) | rfl) | rfl := hnumber
    · rw [(isNameStart_of_isDigit hdigit).2] at hblank
      cases hblank
    all_goals cases hblank
  · decide
  · decide

end Scan

/-! ## Literals -/

/-- The characters are a literal with this value. -/
inductive Expr.Literal : List Char → Expr → Prop
  | number {cs} (hcs : Scan.IsNumber cs) : Literal cs (.number {} (.ofList cs))
  | string {quote cs} (hquote : quote = '\'' ∨ quote = '"') :
      Literal (quote :: (Token.doubleQuotes quote cs ++ [quote])) (.string {} (.ofList cs))
  | var {cs} (hcs : ∀ c ∈ cs, Text.isAlphanumeric c = true) :
      Literal ('@' :: cs) (.var {} { name := .ofList cs })
  | boolean {cs value}
      (hcs : Text.sameIgnoringCase (.ofList cs) (Expr.renderBool value) = true) :
      Literal cs (.boolean {} value)

namespace Scan

theorem isWordTail_of_isNameChar {cs : List Char} (hcs : ∀ c ∈ cs, isNameChar c = true) :
    IsWordTail cs := by
  induction cs with
  | nil => rfl
  | cons c cs ih =>
      obtain ⟨hc, hcs⟩ := List.forall_mem_cons.mp hcs
      exact isWordTail_cons.mpr ⟨.inl hc, ih hcs⟩

/-- A truth value in any case is a word of letters, and the first one is in no number. -/
theorem word_of_boolean {cs : List Char} {value : Bool}
    (hcs : Text.sameIgnoringCase (.ofList cs) (Expr.renderBool value) = true) :
    ∃ c tail, cs = c :: tail ∧ isNameStart c = true ∧ IsWordTail tail ∧ isNumeric c = false ∧
      isBooleanWord (.ofList cs) = true ∧
      Text.sameIgnoringCase (.ofList cs) "true" = value := by
  have hlower : cs.map Text.asciiLower = (Expr.renderBool value).toList.map Text.asciiLower := by
    simpa [Text.sameIgnoringCase] using hcs
  have hsame : ∀ text, Text.sameIgnoringCase (.ofList cs) text =
      Text.sameIgnoringCase (Expr.renderBool value) text := by
    intro text
    rw [Text.sameIgnoringCase, Text.sameIgnoringCase, String.toList_ofList, hlower]
  have hletters : ∀ c ∈ cs, isNameStart c = true := by
    intro c hc
    have hall : ((Expr.renderBool value).toList.map Text.asciiLower).all isNameStart = true := by
      cases value <;> decide
    rw [← hlower, List.all_map, List.all_eq_true] at hall
    exact (isNameStart_asciiLower c).symm.trans (hall c hc)
  cases cs with
  | nil => cases value <;> simp [Expr.renderBool] at hlower
  | cons c tail =>
      obtain ⟨hc, htail⟩ := List.forall_mem_cons.mp hletters
      refine ⟨c, tail, rfl, hc,
        isWordTail_of_isNameChar fun d hd => isNameChar_of_isNameStart (htail d hd), ?_, ?_, ?_⟩
      · have hfirst : Text.asciiLower c = 't' ∨ Text.asciiLower c = 'f' := by
          cases value with
          | true => exact .inl (List.cons.inj hlower).1
          | false => exact .inr (List.cons.inj hlower).1
        have hdigit : isDigit c = false := by
          rw [Bool.eq_false_iff]
          intro hdigit
          rw [(isNameStart_of_isDigit hdigit).1] at hc
          cases hc
        have hother : ['.', 'e', 'E', '+', '-'].all (fun d => Text.asciiLower d != 't' &&
            Text.asciiLower d != 'f') = true := by
          decide
        rw [isNumeric, hdigit, Bool.false_or, Bool.eq_false_iff]
        intro hmem
        have hnone := List.all_eq_true.mp hother c (List.contains_iff_mem.mp hmem)
        obtain hfirst | hfirst := hfirst <;> simp [hfirst] at hnone
      · rw [isBooleanWord, hsame, hsame]
        cases value <;> decide
      · rw [hsame]
        cases value <;> decide

/-- By itself a literal is one lexeme, and its token denotes the value. -/
theorem lexeme_literal {cs : List Char} {e : Expr} (h : Expr.Literal cs e) :
    ∃ c tail kind value, cs = c :: tail ∧ Text.isBlank c = false ∧
      lexeme c tail = ⟨tail.length, kind, value, none, true⟩ ∧
      ∀ span, ∃ found, Expr.ofToken? ⟨kind, value, span⟩ = some found ∧ found.unplaced = e := by
  cases h with
  | number hcs =>
      cases cs with
      | nil => exact absurd rfl hcs.ne_nil
      | cons c tail =>
          have hlexeme : lexeme c (tail ++ []) = _ := lexeme_number hcs (by simp [Halts])
          rw [List.append_nil] at hlexeme
          exact ⟨c, tail, .number, _, rfl, hcs.isBlank, hlexeme, fun span => ⟨_, rfl, rfl⟩⟩
  | @string quote cs hquote =>
      have htail : quoteTail? quote (Token.doubleQuotes quote cs ++ [quote]) = _ :=
        quoteTail?_doubleQuotes cs (by simp [Halts])
      have hlexeme : lexeme quote (Token.doubleQuotes quote cs ++ [quote]) =
          ⟨(Token.doubleQuotes quote cs ++ [quote]).length, .string, .ofList cs, none, true⟩ := by
        rw [lexeme_quote hquote, quoteLexeme, htail]
        simp only
        rw [List.take_of_length_le (by simp), unquote_doubleQuotes, List.length_append,
          List.length_singleton]
      refine ⟨quote, _, .string, _, rfl, ?_, hlexeme, fun span => ⟨_, rfl, rfl⟩⟩
      obtain rfl | rfl := hquote <;> decide
  | @var cs hcs =>
      have hrun : runLength Text.isAlphanumeric (cs ++ []) = _ :=
        runLength_append hcs (by simp [Halts])
      have hstart : isNameStart '@' = false := by decide
      rw [List.append_nil] at hrun
      refine ⟨'@', cs, .variable, .ofList cs, rfl, by decide, ?_, fun span => ⟨_, rfl, rfl⟩⟩
      simp [lexeme, hstart, variableLexeme, hrun]
  | boolean hcs =>
      obtain ⟨c, tail, rfl, hc, htail, -, hword, hvalue⟩ := word_of_boolean hcs
      have hlexeme : lexeme c (tail ++ []) = _ := lexeme_word hc htail rfl
      rw [List.append_nil, hword, if_pos rfl] at hlexeme
      refine ⟨c, tail, .boolean, _, rfl, isBlank_of_isNameStart hc, hlexeme, fun span => ?_⟩
      exact ⟨_, rfl, by rw [← hvalue]; rfl⟩

/-- No number goes on over a literal and a sign behind it. -/
theorem not_isNumber_of_literal {cs : List Char} {e : Expr} (h : Expr.Literal cs e) {d : Char}
    (hd : IsSign d) (front more : List Char) : ¬ IsNumber (front ++ (cs ++ d :: more)) := by
  intro hnumber
  have hnumeric : ∀ c ∈ cs, isNumeric c = true := fun c hc =>
    hnumber.isNumeric c (List.mem_append_right _ (List.mem_append_left _ hc))
  cases h with
  | number hcs =>
      obtain rfl | ⟨ds, c, rfl⟩ := List.eq_nil_or_concat cs
      · exact hcs.ne_nil rfl
      · have hlast : isDigit c = true := hcs.isDigit_getLast c (by simp)
        have hchain := hnumber.isChain
        rw [List.concat_append, ← List.append_assoc, List.isChain_append_cons_cons] at hchain
        obtain rfl | rfl := hchain.2.1 hd <;> cases hlast
  | string hquote =>
      have hfirst := hnumeric _ List.mem_cons_self
      obtain rfl | rfl := hquote <;> cases hfirst
  | var hcs => cases hnumeric _ List.mem_cons_self
  | boolean hcs =>
      obtain ⟨c, tail, rfl, -, -, hother, -⟩ := word_of_boolean hcs
      rw [hnumeric c List.mem_cons_self] at hother
      cases hother

/-- Behind a literal, no lexeme goes on over an operator or the blanks before it. -/
theorem lexeme_append_breaks {cs : List Char} {e : Expr} (h : Expr.Literal cs e) {c d : Char}
    {front tail next : List Char} (hc : Text.isBlank c = false) (hd : Breaks d)
    (htail : c :: tail = front ++ cs) (hfault : (lexeme c tail).fault = none) :
    lexeme c (tail ++ d :: next) = lexeme c tail := by
  obtain hblank | hsign := hd
  · exact (lexeme_append next hc hblank hfault).1
  · refine lexeme_append_sign hsign hfault fun more => ?_
    rw [← List.cons_append, htail, List.append_assoc]
    exact not_isNumber_of_literal h hsign front more

/-- What stands before a literal is scanned the same, whatever is done to the literal. -/
theorem Cuts.before_literal {cs : List Char} {e : Expr} (h : Expr.Literal cs e)
    {before rest next : List Char} {pos : Nat} {ts : List Token} {d : Char} (hd : Breaks d)
    (hcuts : Cuts (cs ++ rest) pos before ts) : Cuts (cs ++ d :: next) pos before ts := by
  refine hcuts.congr fun c tail hc hfault htail => ?_
  rw [← List.append_assoc] at hfault htail ⊢
  have hfits : (Scan.lexeme c (tail ++ cs ++ rest)).tail ≤ (tail ++ cs).length := by
    rw [List.length_append]
    omega
  have hsame := lexeme_take hfault hfits
  rw [List.take_left] at hsame
  rw [← List.append_assoc, ← hsame]
  exact lexeme_append_breaks h hc hd (List.cons_append ..).symm (hsame ▸ hfault)

/-- Scanning takes the literal, where it stands between these texts, for a token. -/
def Stands (before literal after : List Char) : Prop :=
  ∃ t ∈ (ofChars 0 (before ++ (literal ++ after))).tokens,
    t.span = ⟨Text.byteLength before, Text.byteLength before + Text.byteLength literal⟩

theorem GivesUp.eq_nil {span : Span} {rest : List Char} {cause : Fault} {us : List Token}
    (h : GivesUp span rest cause us) (hus : us ≠ []) : rest = [] := by
  cases h with
  | emptyName => exact absurd rfl hus
  | bracket => rfl
  | quote => rfl

/-- A token that starts where the text does is its first lexeme, which is not broken off
before the end of the text. -/
theorem stop_eq_of_start {c : Char} {cs : List Char} {pos : Nat} {t : Token}
    (hc : Text.isBlank c = false) (ht : t ∈ (ofChars pos (c :: cs)).tokens)
    (hstart : t.span.start = pos) :
    t.span.stop = pos + Text.byteLength (c :: cs.take (lexeme c cs).tail) ∧
      ((lexeme c cs).fault = none ∨ cs.drop (lexeme c cs).tail = []) := by
  rw [ofChars, if_neg (by simp [hc])] at ht
  rw [byteLength_cons, ← Nat.add_assoc]
  cases hfault : (lexeme c cs).fault with
  | none =>
      simp only [hfault] at ht
      refine ⟨?_, .inl rfl⟩
      obtain rfl | ht := List.mem_cons.mp ht
      · rfl
      · have hlater := le_start_of_mem_ofChars ht
        have hpos := c.utf8Size_pos
        omega
  | some cause =>
      simp only [hfault] at ht
      have hgives := givesUp_of_fault hfault t.span
      split at ht
      · rename_i hkept
        rw [if_pos hkept] at hgives
        exact ⟨by rw [List.mem_singleton.mp ht], .inr (hgives.eq_nil (List.cons_ne_nil _ _))⟩
      · cases ht

/-- Where a token covers just these characters, they are one lexeme by themselves too. -/
theorem lexeme_eq_of_span {c : Char} {tail after : List Char} {pos : Nat} {t : Token}
    (hc : Text.isBlank c = false) (ht : t ∈ (ofChars pos (c :: (tail ++ after))).tokens)
    (hspan : t.span = ⟨pos, pos + Text.byteLength (c :: tail)⟩) :
    lexeme c (tail ++ after) = lexeme c tail := by
  obtain rfl | hafter := Classical.em (after = [])
  · rw [List.append_nil]
  obtain ⟨hstop, hfault⟩ := stop_eq_of_start hc ht (by rw [hspan])
  have hbytes : Text.byteLength ((tail ++ after).take (lexeme c (tail ++ after)).tail) =
      Text.byteLength tail := by
    rw [hspan, byteLength_cons, byteLength_cons] at hstop
    dsimp only at hstop
    omega
  have hlength : (lexeme c (tail ++ after)).tail = tail.length := by
    have hleads := Text.isPrefix_of_byteLength_le (List.take_prefix ..)
      (List.prefix_append tail after) (Nat.le_of_eq hbytes)
    have hleads' := Text.isPrefix_of_byteLength_le (List.prefix_append tail after)
      (List.take_prefix ..) (Nat.le_of_eq hbytes.symm)
    have hle := hleads.length_le
    have hle' := hleads'.length_le
    have hpos := List.length_pos_iff.mpr hafter
    rw [List.length_take, List.length_append] at hle hle'
    omega
  have hsame := lexeme_take (hfault.resolve_right ?_) (Nat.le_of_eq hlength)
  · rw [List.take_left] at hsame
    exact hsame.symm
  · rw [hlength, List.drop_left]
    exact hafter

end Scan

end TrackerQuery
