import TrackerQuery.Expr.Print
import TrackerQuery.Proofs.GrammarSound

/-!
# What has a derivation is read

A reader that is given the tokens of a derivation, and after them a token that
cannot belong to it, takes just these tokens and gives the tree.  Names that could
be taken for keywords are left out.
-/

namespace TrackerQuery

theorem Text.sameIgnoringCase_comm (a b : String) :
    Text.sameIgnoringCase a b = Text.sameIgnoringCase b a := by
  rw [Text.sameIgnoringCase, Text.sameIgnoringCase, Bool.beq_comm]

namespace Token

variable {t : Token}

/-- A keyword is no other keyword. -/
theorem isKeyword_eq_of_isKeyword {a : String} (ha : t.isKeyword a = true) (b : String) :
    t.isKeyword b = Text.sameIgnoringCase a b := by
  simp only [isKeyword, Text.sameIgnoringCase, Bool.and_eq_true, beq_iff_eq] at ha ⊢
  simp [ha.1, ha.2]

theorem kind_of_isKeyword {a : String} (ha : t.isKeyword a = true) : t.kind = .name := by
  simp only [isKeyword, Bool.and_eq_true, beq_iff_eq] at ha
  exact ha.1

theorem isOperation_eq_of_isOperation {a : String} (ha : t.isOperation a = true) (b : String) :
    t.isOperation b = (a == b) := by
  simp only [isOperation, Bool.and_eq_true, beq_iff_eq] at ha
  simp [isOperation, ha.1, ha.2]

theorem kind_of_isOperation {a : String} (ha : t.isOperation a = true) : t.kind = .operation := by
  simp only [isOperation, Bool.and_eq_true, beq_iff_eq] at ha
  exact ha.1

theorem isKeyword_eq_false {word : String} (hkind : t.kind ≠ .name) : t.isKeyword word = false := by
  simp [isKeyword, hkind]

theorem isOperation_eq_false {text : String} (hkind : t.kind ≠ .operation) :
    t.isOperation text = false := by
  simp [isOperation, hkind]

end Token

namespace Parser

/-- The next token, if there is one, does not satisfy `p`. -/
def Stops (p : Token → Bool) (rest : List Token) : Prop :=
  ∀ t ∈ rest.head?, p t = false

theorem stops_nil {p : Token → Bool} : Stops p [] := by
  simp [Stops]

theorem stops_cons {p : Token → Bool} {t : Token} {rest : List Token} :
    Stops p (t :: rest) ↔ p t = false := by
  simp [Stops]

theorem Stops.imp {p q : Token → Bool} {rest : List Token} (hrest : Stops p rest)
    (hpq : ∀ t, p t = false → q t = false) : Stops q rest :=
  fun t ht => hpq t (hrest t ht)

theorem Stops.append {p : Token → Bool} {ts rest : List Token} (hts : Stops p ts)
    (hrest : Stops p rest) : Stops p (ts ++ rest) := by
  cases ts with
  | nil => exact hrest
  | cons t ts => exact stops_cons.mpr (stops_cons.mp hts)

theorem token?_eq_none {p : Token → Bool} {rest : List Token} (hrest : Stops p rest) :
    token? p rest = none := by
  cases rest with
  | nil => rfl
  | cons t others => simp [token?, stops_cons.mp hrest]

/-- `read` takes what is derived off the front of a list, unless the next token
continues it. -/
def Complete {α : Type} (read : Parser α) (derives : List Token → α → Prop)
    (continues : Token → Bool) : Prop :=
  ∀ ts a rest, derives ts a → Stops continues rest → read (ts ++ rest) = .ok (a, rest)

/-- Derived lists are read if their items are. -/
theorem complete_sepBy {α : Type} {item : Parser α} {derives : List Token → α → Prop}
    {continues separator : Token → Bool} (hitem : Complete item derives continues)
    (hdisjoint : ∀ t, separator t = true → continues t = false) :
    Complete (sepBy item separator) (Grammar.Separated derives separator)
      (fun t => continues t || separator t) := by
  intro ts as rest hall hrest
  induction hall with
  | one hfirst =>
      have hfirst := hitem _ _ rest hfirst (hrest.imp fun t ht => (Bool.or_eq_false_iff.mp ht).1)
      have hend := token?_eq_none (hrest.imp fun t ht => (Bool.or_eq_false_iff.mp ht).2)
      rw [sepBy, hfirst]
      simp only [bind, Except.bind, hend]
      rfl
  | @more ts a t us as hfirst hseparator hothers ih =>
      have hfirst := hitem _ _ (t :: (us ++ rest)) hfirst (stops_cons.mpr (hdisjoint t hseparator))
      have hnext := token?_eq_some_iff.mpr ⟨(rfl : t :: (us ++ rest) = _), hseparator⟩
      have hshorter : (us ++ rest).length < (ts ++ t :: (us ++ rest)).length := by
        simp
        omega
      rw [List.append_assoc, List.cons_append, sepBy, hfirst]
      simp only [bind, Except.bind, hnext, hshorter, if_true, ih]
      rfl

end Parser

namespace Grammar

open TrackerQuery.Parser

/-! ## Values -/

theorem value?_of_value {ts : List Token} {e : Expr} (he : Value ts e) (rest : List Token) :
    Expr.value? (ts ++ rest) = some (e, rest) := by
  cases he with
  | number hkind | string hkind | var hkind | boolean hkind =>
      simp [Expr.value?, Expr.ofToken?, hkind]

/-- The token may go on with an expression after a value. -/
def continuesValue (t : Token) : Bool :=
  t.kind == .number || t.isOperation "+" || t.isOperation "-"

theorem ofSpelling_render {op : Arithmetic} (hop : op ≠ .missing) :
    Arithmetic.ofSpelling op.render = op := by
  cases op with
  | missing => exact absurd rfl hop
  | add => rfl
  | subtract => rfl

/-- A derived operation is the next one. -/
theorem nextOperation?_of_operation {us : List Token} {op : Arithmetic} {right : Expr}
    (hoperation : Operation us op right) (rest : List Token) :
    Expr.nextOperation? (us ++ rest) = some (op, right, rest) := by
  cases hoperation with
  | @spaced t op ts right hop hspelled hright =>
      have hkind := Token.kind_of_isOperation hspelled
      have hvalue : t.value = op.render := by
        simpa [Token.isOperation, hkind] using hspelled
      simp only [List.cons_append, Expr.nextOperation?, hkind, hvalue, ofSpelling_render hop,
        value?_of_value hright]
      cases op with
      | missing => exact absurd rfl hop
      | add => rfl
      | subtract => rfl
  | @signed t op digits hop hkind hvalue =>
      have hsplit : Expr.splitSigned? t =
          some (op, .number { span := ⟨t.span.start + 1, t.span.stop⟩ } digits) := by
        cases op with
        | missing => exact absurd rfl hop
        | add => simp [Expr.splitSigned?, hvalue, Arithmetic.render, Arithmetic.ofSpelling]
        | subtract => simp [Expr.splitSigned?, hvalue, Arithmetic.render, Arithmetic.ofSpelling]
      simp [Expr.nextOperation?, hkind, hsplit]

theorem nextOperation?_eq_none {rest : List Token} (hrest : Stops continuesValue rest) :
    Expr.nextOperation? rest = none := by
  cases rest with
  | nil => rfl
  | cons t others =>
      have ht := stops_cons.mp hrest
      simp only [continuesValue, Bool.or_eq_false_iff, beq_eq_false_iff_ne] at ht
      obtain ⟨⟨hnumber, hplus⟩, hminus⟩ := ht
      unfold Expr.nextOperation?
      dsimp only
      split
      · exact absurd ‹_› hnumber
      · rename_i hkind
        have hmissing : Arithmetic.ofSpelling t.value = .missing := by
          unfold Arithmetic.ofSpelling
          split
          · rename_i hvalue
            simp [Token.isOperation, hkind, hvalue] at hplus
          · rename_i hvalue
            simp [Token.isOperation, hkind, hvalue] at hminus
          · rfl
        rw [hmissing]
      · rfl

/-- An expression is a value and operations, which are carried out on the value
one by one. -/
theorem Expression.split {n : Nat} {ts : List Token} {e : Expr} (he : Expression n ts e) :
    ∃ vs us first count, ts = vs ++ us ∧ Value vs first ∧ count ≤ n ∧ ∀ budget rest,
      Expr.arithmeticFrom first (count + budget) (us ++ rest) =
        Expr.arithmeticFrom e budget rest := by
  induction he with
  | @value n ts e hvalue =>
      exact ⟨ts, [], e, 0, by simp, hvalue, by omega, fun budget rest => by simp⟩
  | @operation n ts left us op right hleft hoperation ih =>
      obtain ⟨vs, before, first, count, rfl, hfirst, hcount, hrun⟩ := ih
      refine ⟨vs, before ++ us, first, count + 1, by simp, hfirst, by omega, ?_⟩
      intro budget rest
      have hstep : Expr.arithmeticFrom left (budget + 1) (us ++ rest) =
          Expr.arithmeticFrom (Expr.combine op left right) budget rest := by
        rw [Expr.arithmeticFrom.eq_def]
        dsimp only
        rw [nextOperation?_of_operation hoperation]
      rw [List.append_assoc, show count + 1 + budget = count + (budget + 1) by omega, hrun, hstep]

/-- An expression is read to its end if no operation follows it. -/
theorem expression_eq_ok {ts rest : List Token} {e : Expr} (he : Expression maxNesting ts e)
    (hrest : Expr.nextOperation? rest = none) (cause : Fault) :
    Expr.expression cause (ts ++ rest) = .ok (e, rest) := by
  obtain ⟨vs, us, first, count, rfl, hfirst, hcount, hrun⟩ := he.split
  have hend : Expr.arithmeticFrom e (maxNesting - count) rest = .ok (e, rest) := by
    rw [Expr.arithmeticFrom.eq_def]
    dsimp only
    rw [hrest]
  have hvalue : expect cause Expr.value? (vs ++ (us ++ rest)) = .ok (first, us ++ rest) :=
    expect_eq_ok_iff.mpr (value?_of_value hfirst _)
  calc Expr.expression cause (vs ++ us ++ rest)
      = Expr.arithmeticFrom first maxNesting (us ++ rest) := by
        rw [List.append_assoc, Expr.expression, hvalue]
        rfl
    _ = Expr.arithmeticFrom first (count + (maxNesting - count)) (us ++ rest) := by
        rw [Nat.add_sub_cancel' hcount]
    _ = .ok (e, rest) := by rw [hrun, hend]

theorem complete_expression (cause : Fault) :
    Complete (Expr.expression cause) (Expression maxNesting) continuesValue :=
  fun _ _ _ he hrest => expression_eq_ok he (nextOperation?_eq_none hrest) cause

/-- Derived items are read in parentheses. -/
theorem bracketed_of_separated {α β : Type} {item : Parser α} {derives : List Token → α → Prop}
    {continues : Token → Bool} (hitem : Complete item derives continues)
    (hplain : ∀ t text, text = "," ∨ text = ")" → t.isOperation text = true → continues t = false)
    (make : Span → List α → β) {opening closing : Token} {ts : List Token} {items : List α}
    (hopening : opening.isOperation "(" = true) (hitems : Separated derives isComma ts items)
    (hclosing : closing.isOperation ")" = true) (rest : List Token) :
    bracketed item make (opening :: (ts ++ [closing]) ++ rest) =
      .ok (make (opening.span.cover closing.span) items, rest) := by
  have hstops : Stops (fun t => continues t || isComma t) (closing :: rest) :=
    stops_cons.mpr (by
      simp [hplain closing ")" (.inr rfl) hclosing, isComma,
        Token.isOperation_eq_of_isOperation hclosing])
  have hfirst : expect .expectingLeftBracket (operation? "(") (opening :: (ts ++ closing :: rest)) =
      .ok (opening, ts ++ closing :: rest) :=
    expect_eq_ok_iff.mpr (operation?_eq_some_iff.mpr ⟨rfl, hopening⟩)
  have hlast : expect .expectingRightBracket (operation? ")") (closing :: rest) =
      .ok (closing, rest) :=
    expect_eq_ok_iff.mpr (operation?_eq_some_iff.mpr ⟨rfl, hclosing⟩)
  have hmiddle := complete_sepBy hitem (fun t => hplain t "," (.inl rfl)) _ _ _ hitems hstops
  rw [List.cons_append, List.append_assoc, List.singleton_append, bracketed, hfirst]
  simp only [bind, Except.bind]
  rw [hmiddle]
  simp only [hlast]
  rfl

theorem complete_valueList : Complete Expr.valueList ValueList fun _ => false := by
  intro ts e rest he hrest
  obtain ⟨hopening, hitems, hclosing⟩ := he
  refine bracketed_of_separated (complete_expression .expectingValue) ?_ _ hopening hitems hclosing
    rest
  rintro t _ (rfl | rfl) ht <;>
    simp [continuesValue, Token.kind_of_isOperation ht, Token.isOperation_eq_of_isOperation ht]

/-! ## Names and operators -/

def PlainName (t : Token) : Prop :=
  t.kind = .bracketedName ∨
    t.kind = .name ∧ reservedWords.any (Text.sameIgnoringCase · t.value) = false ∧
      Comparison.ofSpelling t.value = .missing

theorem PlainName.isName {t : Token} (ht : PlainName t) : t.isName = true := by
  obtain hkind | ⟨hkind, -⟩ := ht <;> simp [Token.isName, hkind]

theorem PlainName.isOperation {t : Token} (ht : PlainName t) (text : String) :
    t.isOperation text = false := by
  refine Token.isOperation_eq_false ?_
  obtain hkind | ⟨hkind, -⟩ := ht <;> simp [hkind]

/-- A token that is no bare name, or a plain one, is no reserved word. -/
theorem isKeyword_eq_false_of_plain {t : Token} (ht : t.kind ≠ .name ∨ PlainName t)
    {word : String} (hword : word ∈ reservedWords) : t.isKeyword word = false := by
  obtain hkind | hkind | ⟨-, hreserved, -⟩ := ht
  · exact Token.isKeyword_eq_false hkind
  · exact Token.isKeyword_eq_false (by simp [hkind])
  · have hother := List.any_eq_false.mp hreserved word hword
    rw [Token.isKeyword, Text.sameIgnoringCase_comm]
    simp [hother]

theorem leading_ofToken?_eq_some {t : Token} {op : Expr.Leading}
    (hword : t.isKeyword (word op) = true) : Expr.Leading.ofToken? t = some op := by
  have hsame := Token.isKeyword_eq_of_isKeyword hword
  cases op <;> simp only [Expr.Leading.ofToken?, hsame, word] <;> rfl

theorem leading_ofToken?_eq_none {t : Token} (ht : t.kind ≠ .name ∨ PlainName t) :
    Expr.Leading.ofToken? t = none := by
  have hword : ∀ w ∈ reservedWords, t.isKeyword w = false := fun w hw =>
    isKeyword_eq_false_of_plain ht hw
  simp [Expr.Leading.ofToken?, hword "not" (by decide), hword "ever" (by decide),
    hword "never" (by decide)]

theorem ofSpelling_congr {a b : String} (hab : Text.sameIgnoringCase a b = true) :
    Comparison.ofSpelling a = Comparison.ofSpelling b := by
  have hsame : ∀ spelling,
      Text.sameIgnoringCase spelling a = Text.sameIgnoringCase spelling b := by
    intro spelling
    simp only [Text.sameIgnoringCase, beq_iff_eq] at hab ⊢
    rw [hab]
  simp only [Comparison.ofSpelling, hsame]

theorem ofSpelling_of_spells {text : String} {op : Comparison} (hspells : Spells text op) :
    Comparison.ofSpelling text = op ∧ op ≠ .missing := by
  obtain ⟨spelling, hmem, hsame⟩ := hspells
  have hall : ∀ entry ∈ Comparison.spellings,
      Comparison.ofSpelling entry.1 = entry.2 ∧ entry.2 ≠ .missing := by decide
  rw [← ofSpelling_congr hsame]
  exact hall (spelling, op) hmem

theorem leading_ofToken?_of_operatorToken {afterLeading : Bool} {t : Token} {op : Comparison}
    (ht : OperatorToken afterLeading t op) : Expr.Leading.ofToken? t = none := by
  cases ht with
  | symbol hkind hspells => exact leading_ofToken?_eq_none (.inl (by simp [hkind]))
  | word hkind hspells =>
      obtain ⟨hop, hmissing⟩ := ofSpelling_of_spells hspells
      have hword : ∀ w, Comparison.ofSpelling w = .missing → t.isKeyword w = false := by
        intro w hw
        rw [Bool.eq_false_iff]
        intro hkeyword
        simp only [Token.isKeyword, Bool.and_eq_true] at hkeyword
        rw [ofSpelling_congr hkeyword.2, hw] at hop
        exact hmissing hop.symm
      simp [Expr.Leading.ofToken?, hword "not" (by decide), hword "ever" (by decide),
        hword "never" (by decide)]

/-! ## First tokens -/

theorem Value.start {ts : List Token} {e : Expr} (he : Value ts e) :
    ∃ t, ts = [t] ∧ t.isName = false := by
  cases he with
  | number hkind | string hkind | var hkind | boolean hkind =>
      exact ⟨_, rfl, by simp [Token.isName, hkind]⟩

theorem Expression.start {n : Nat} {ts : List Token} {e : Expr} (he : Expression n ts e) :
    ∃ t us, ts = t :: us ∧ t.isName = false := by
  obtain ⟨vs, us, first, count, rfl, hfirst, -, -⟩ := he.split
  obtain ⟨t, rfl, ht⟩ := hfirst.start
  exact ⟨t, us, rfl, ht⟩

theorem Field.start {named : Token → Prop} {ts : List Token} {field : FieldRef}
    (hfield : Field named ts field) : ∃ t us, ts = t :: us ∧ named t := by
  cases hfield with
  | plain hname => exact ⟨_, _, rfl, hname⟩
  | qualified hqualifier hdot hname => exact ⟨_, _, rfl, hqualifier⟩

/-- A right side does not begin like an operator or a keyword. -/
theorem RightSide.start {op : Comparison} {ts : List Token} {e : Expr}
    (hright : RightSide PlainName op ts e) :
    ∃ t us, ts = t :: us ∧ (t.kind ≠ .name ∨ PlainName t) := by
  have hnoName : ∀ t : Token, t.isName = false → t.kind ≠ .name ∨ PlainName t := by
    intro t ht
    refine .inl fun hkind => ?_
    simp [Token.isName, hkind] at ht
  cases hright with
  | group hvalue | path hvalue =>
      obtain ⟨t, rfl, ht⟩ := hvalue.start
      exact ⟨t, [], rfl, hnoName t ht⟩
  | list hlist =>
      obtain @⟨opening, ts, items, closing, hopening, -, -⟩ := hlist
      exact ⟨opening, _, rfl, .inl (by simp [Token.kind_of_isOperation hopening])⟩
  | field hop hfield =>
      obtain ⟨t, us, rfl, ht⟩ := hfield.start
      exact ⟨t, us, rfl, .inr ht⟩
  | expression hop hexpression =>
      obtain ⟨t, us, rfl, ht⟩ := hexpression.start
      exact ⟨t, us, rfl, hnoName t ht⟩

/-! ## Conditions -/

def isDot (t : Token) : Bool :=
  t.isOperation "."

theorem fieldRef?_of_field {ts : List Token} {field : FieldRef} (hfield : Field PlainName ts field)
    {rest : List Token} (hrest : Stops isDot rest) :
    Expr.fieldRef? (ts ++ rest) = some (field, rest) := by
  cases hfield with
  | @plain t hname =>
      have hend : operation? "." rest = none := token?_eq_none hrest
      simp [Expr.fieldRef?, token?, hname.isName, hend]
  | @qualified q dot t hqualifier hdot hname =>
      have hnext : operation? "." (dot :: t :: rest) = some (dot, t :: rest) :=
        operation?_eq_some_iff.mpr ⟨rfl, hdot⟩
      simp [Expr.fieldRef?, token?, hqualifier.isName, hnext, hname.isName]

theorem fieldRef?_eq_none {t : Token} (ht : t.isName = false) (rest : List Token) :
    Expr.fieldRef? (t :: rest) = none := by
  simp [Expr.fieldRef?, token?, ht]

def continuesOperand (t : Token) : Bool :=
  isDot t || continuesValue t

/-- Derived right sides are read. -/
theorem complete_rightSide (op : Comparison) :
    Complete (Expr.rightSide op) (RightSide PlainName op) continuesOperand := by
  intro ts e rest he hrest
  have hdot : Stops isDot rest := hrest.imp fun t ht => (Bool.or_eq_false_iff.mp ht).1
  have hvalue : Stops continuesValue rest := hrest.imp fun t ht => (Bool.or_eq_false_iff.mp ht).2
  cases he with
  | group he => exact expect_eq_ok_iff.mpr (value?_of_value he rest)
  | path he => exact expect_eq_ok_iff.mpr (value?_of_value he rest)
  | list he => exact complete_valueList ts e rest he (fun t _ => rfl)
  | field hop hfield =>
      rw [rightSide_eq_operand hop, operand, fieldRef?_of_field hfield hdot]
  | expression hop hexpression =>
      have hread := complete_expression .expectingFieldOrExpression _ _ rest hexpression hvalue
      obtain ⟨t, us, rfl, ht⟩ := hexpression.start
      rw [List.cons_append] at hread ⊢
      rw [rightSide_eq_operand hop, operand, fieldRef?_eq_none ht, hread]

theorem leadingRun_of_leadingWords {us : List Token} {ops : List Expr.Leading}
    (hleading : LeadingWords us ops) {rest : List Token}
    (hrest : ∀ t ∈ rest.head?, Expr.Leading.ofToken? t = none) :
    Expr.leadingRun (us ++ rest) = ops ∧ us.length = ops.length := by
  induction hleading with
  | nil =>
      refine ⟨?_, rfl⟩
      cases rest with
      | nil => rfl
      | cons t others => simp [Expr.leadingRun, hrest t rfl]
  | cons hword hothers ih =>
      simp [Expr.leadingRun, leading_ofToken?_eq_some hword, ih.1, ih.2]

/-- A comparison is read before a right side that goes with it. -/
theorem comparison_of_operator {afterLeading : Bool} {vs ws rest : List Token} {op : Comparison}
    {right : Expr} (hop : Operator afterLeading vs op) (hright : RightSide PlainName op ws right) :
    Expr.comparison afterLeading (vs ++ (ws ++ rest)) = .ok (op, ws ++ rest) := by
  obtain ⟨first, others, rfl, hfirst⟩ := hright.start
  have hword : ∀ w ∈ reservedWords, keyword? w (first :: (others ++ rest)) = none := fun w hw =>
    token?_eq_none (stops_cons.mpr (isKeyword_eq_false_of_plain hfirst hw))
  have hkind : ∀ {t op}, OperatorToken afterLeading t op →
      (t.kind == .name || (t.kind == .operation && !afterLeading)) = true ∧
        Comparison.ofSpelling t.value = op ∧ op ≠ .missing := by
    intro t op ht
    cases ht with
    | symbol hkind hspells => exact ⟨by simp [hkind], ofSpelling_of_spells hspells⟩
    | word hkind hspells => exact ⟨by simp [hkind], ofSpelling_of_spells hspells⟩
  cases hop with
  | omitted =>
      simp only [List.nil_append, List.cons_append, Expr.comparison]
      obtain hother | hother | ⟨hname, -, hmissing⟩ := hfirst
      · simp [hother]
      · simp [hother]
      · simp [hname, hmissing]
  | single ht =>
      obtain ⟨htaken, hspelling, hmissing⟩ := hkind ht
      simp only [List.cons_append, List.nil_append, Expr.comparison, htaken, if_true, hspelling]
      cases op with
      | missing => exact absurd rfl hmissing
      | oneOf => simp only [hword "group" (by decide)]
      | contains => simp only [hword "words" (by decide)]
      | _ => rfl
  | @inGroup _ t u ht hsecond =>
      obtain ⟨htaken, hspelling, -⟩ := hkind ht
      have hgroup : keyword? "group" (u :: first :: (others ++ rest)) =
          some (u, first :: (others ++ rest)) := keyword?_eq_some_iff.mpr ⟨rfl, hsecond⟩
      simp only [List.cons_append, List.nil_append, Expr.comparison, htaken, if_true, hspelling,
        hgroup]
  | @containsWords _ t u ht hsecond =>
      obtain ⟨htaken, hspelling, -⟩ := hkind ht
      have hwords : keyword? "words" (u :: first :: (others ++ rest)) =
          some (u, first :: (others ++ rest)) := keyword?_eq_some_iff.mpr ⟨rfl, hsecond⟩
      simp only [List.cons_append, List.nil_append, Expr.comparison, htaken, if_true, hspelling,
        hwords]

theorem OperatorToken.isDot {afterLeading : Bool} {t : Token} {op : Comparison}
    (ht : OperatorToken afterLeading t op) : isDot t = false := by
  cases ht with
  | symbol hkind hspells =>
      obtain ⟨hop, hmissing⟩ := ofSpelling_of_spells hspells
      rw [Bool.eq_false_iff]
      intro hdot
      simp only [Grammar.isDot, Token.isOperation, Bool.and_eq_true, beq_iff_eq] at hdot
      rw [hdot.2] at hop
      exact hmissing hop.symm
  | word hkind hspells => exact Token.isOperation_eq_false (by simp [hkind])

/-- What follows the field of a condition is a leading operator, or else the
comparison. -/
theorem stops_isDot_of_operator {us vs others : List Token} {ops : List Expr.Leading}
    {op : Comparison} (hleading : LeadingWords us ops) (hop : Operator (!ops.isEmpty) vs op) :
    Stops isDot (us ++ (vs ++ others)) := by
  cases hleading with
  | cons hword hothers =>
      refine stops_cons.mpr (Token.isOperation_eq_false ?_)
      simp [Token.kind_of_isKeyword hword]
  | nil =>
      cases hop with
      | single ht => exact stops_cons.mpr ht.isDot
      | inGroup ht hsecond => exact stops_cons.mpr ht.isDot
      | containsWords ht hsecond => exact stops_cons.mpr ht.isDot

theorem leading_ofToken?_head {afterLeading : Bool} {vs ws rest : List Token} {op : Comparison}
    {right : Expr} (hop : Operator afterLeading vs op) (hright : RightSide PlainName op ws right) :
    ∀ t ∈ (vs ++ (ws ++ rest)).head?, Expr.Leading.ofToken? t = none := by
  obtain ⟨first, others, rfl, hfirst⟩ := hright.start
  intro t ht
  cases hop with
  | omitted =>
      cases ht
      exact leading_ofToken?_eq_none hfirst
  | single hoperator | inGroup hoperator hsecond | containsWords hoperator hsecond =>
      cases ht
      exact leading_ofToken?_of_operatorToken hoperator

/-- Derived conditions are read. -/
theorem complete_condition? :
    Complete Expr.condition? (Condition PlainName) continuesOperand := by
  intro ts e rest he hrest
  obtain @⟨fieldTokens, left, us, ops, vs, op, ws, right, hleft, hleading, hcount, hop, hright⟩ :=
    he
  have hfield : expect .expectingCondition Expr.fieldRef?
      (fieldTokens ++ (us ++ (vs ++ (ws ++ rest)))) = .ok (left, us ++ (vs ++ (ws ++ rest))) :=
    expect_eq_ok_iff.mpr (fieldRef?_of_field hleft (stops_isDot_of_operator hleading hop))
  obtain ⟨hrun, hlength⟩ : Expr.leadingRun (us ++ (vs ++ (ws ++ rest))) = ops ∧
      us.length = ops.length :=
    leadingRun_of_leadingWords hleading (leading_ofToken?_head hop hright)
  have hdrop : (us ++ (vs ++ (ws ++ rest))).drop ops.length = vs ++ (ws ++ rest) := by
    rw [← hlength, List.drop_left]
  have hcomparison : Expr.comparison (!ops.isEmpty) (vs ++ (ws ++ rest)) =
      .ok (op, ws ++ rest) := comparison_of_operator hop hright
  have hside := complete_rightSide op ws right rest hright hrest
  simp only [List.append_assoc]
  rw [Expr.condition?, hfield]
  simp only [bind, Except.bind, hrun, hdrop, Nat.not_lt.mpr hcount, if_false, hcomparison, hside]
  rfl

/-! ## Boolean combinations -/

section Combination

variable {operand : Parser Expr} {derives : List Token → Expr → Prop}

def continuesConjunction (t : Token) : Bool :=
  continuesOperand t || isAnd t

def continuesDisjunction (t : Token) : Bool :=
  continuesConjunction t || isOr t

theorem continuesOperand_eq_false {t : Token} (ht : isAnd t = true ∨ isOr t = true) :
    continuesOperand t = false := by
  simp only [isAnd, isOr, Bool.or_eq_true] at ht
  obtain (ht | ht) | (ht | ht) := ht
  · simp [continuesOperand, isDot, continuesValue, Token.kind_of_isKeyword ht, Token.isOperation]
  · simp [continuesOperand, isDot, continuesValue, Token.kind_of_isOperation ht,
      Token.isOperation_eq_of_isOperation ht]
  · simp [continuesOperand, isDot, continuesValue, Token.kind_of_isKeyword ht, Token.isOperation]
  · simp [continuesOperand, isDot, continuesValue, Token.kind_of_isOperation ht,
      Token.isOperation_eq_of_isOperation ht]

theorem isAnd_eq_false {t : Token} (ht : isOr t = true) : isAnd t = false := by
  simp only [isOr, Bool.or_eq_true] at ht
  obtain ht | ht := ht
  · simp only [isAnd, Token.isKeyword_eq_of_isKeyword ht,
      Token.isOperation_eq_false (by simp [Token.kind_of_isKeyword ht] : t.kind ≠ .operation)]
    rfl
  · simp only [isAnd, Token.isOperation_eq_of_isOperation ht,
      Token.isKeyword_eq_false (by simp [Token.kind_of_isOperation ht] : t.kind ≠ .name)]
    rfl

theorem complete_conjunction (hoperand : Complete operand derives continuesOperand) :
    Complete (Expr.conjunction operand) (Conjunction derives) continuesConjunction := by
  rintro ts e rest ⟨operands, hoperands, rfl⟩ hrest
  have hread : sepBy operand (fun t => t.isKeyword "and" || t.isOperation "&&") (ts ++ rest) =
      .ok (operands, rest) :=
    complete_sepBy hoperand (fun t ht => continuesOperand_eq_false (.inl ht)) _ _ _ hoperands hrest
  rw [Expr.conjunction, hread]
  rfl

theorem complete_disjunction (hoperand : Complete operand derives continuesOperand) :
    Complete (Expr.disjunction operand) (Disjunction derives) continuesDisjunction := by
  rintro ts e rest ⟨operands, hoperands, rfl⟩ hrest
  have hdisjoint : ∀ t, isOr t = true → continuesConjunction t = false := by
    intro t ht
    rw [continuesConjunction, continuesOperand_eq_false (.inr ht), isAnd_eq_false ht]
    rfl
  have hread : sepBy (Expr.conjunction operand)
      (fun t => t.isKeyword "or" || t.isOperation "||") (ts ++ rest) = .ok (operands, rest) :=
    complete_sepBy (complete_conjunction hoperand) hdisjoint _ _ _ hoperands hrest
  rw [Expr.disjunction, hread]
  rfl

end Combination

theorem Condition.start {named : Token → Prop} {ts : List Token} {e : Expr}
    (he : Condition named ts e) : ∃ t us, ts = t :: us ∧ named t := by
  obtain ⟨hleft, -, -, -, -⟩ := he
  obtain ⟨t, us, rfl, ht⟩ := hleft.start
  exact ⟨t, _, rfl, ht⟩

theorem leading?_eq_none {t : Token} (hleading : Expr.Leading.ofToken? t = none)
    (hmark : t.isOperation "!" = false) (rest : List Token) :
    Expr.leading? (t :: rest) = none := by
  simp [Expr.leading?, hleading, hmark]

/-- A condition is read as one, whatever depth is left. -/
theorem operand_eq_condition? {depth : Nat} {ts rest : List Token} {e : Expr}
    (he : Condition PlainName ts e) :
    Expr.operand depth (ts ++ rest) = Expr.condition? (ts ++ rest) := by
  obtain ⟨t, us, rfl, ht⟩ := he.start
  have hleading : Expr.leading? (t :: (us ++ rest)) = none :=
    leading?_eq_none (leading_ofToken?_eq_none (.inr ht)) (ht.isOperation "!") _
  have hopening : operation? "(" (t :: (us ++ rest)) = none :=
    token?_eq_none (stops_cons.mpr (ht.isOperation "("))
  rw [List.cons_append, Expr.operand.eq_def]
  dsimp only
  rw [hleading]
  dsimp only
  rw [hopening]

theorem continuesDisjunction_eq_false {t : Token} (ht : t.isOperation ")" = true) :
    continuesDisjunction t = false := by
  simp [continuesDisjunction, continuesConjunction, continuesOperand, isDot, continuesValue, isAnd,
    isOr, Token.kind_of_isOperation ht, Token.isOperation_eq_of_isOperation ht,
    Token.isKeyword_eq_false (by simp [Token.kind_of_isOperation ht] : t.kind ≠ .name)]

/-- Derived operands are read, at every depth. -/
theorem complete_operand (depth : Nat) :
    Complete (Expr.operand depth) (Operand PlainName depth) continuesOperand := by
  induction depth with
  | zero =>
      intro ts e rest he hrest
      rw [operand_eq_condition? he]
      exact complete_condition? ts e rest he hrest
  | succ depth ih =>
      intro ts e rest he hrest
      cases he with
      | condition he =>
          rw [operand_eq_condition? he]
          exact complete_condition? ts e rest he hrest
      | @leading t op ts e hword hinner =>
          have hleading : Expr.leading? (t :: (ts ++ rest)) = some (op, t.span, ts ++ rest) := by
            simp [Expr.leading?, leading_ofToken?_eq_some hword]
          rw [List.cons_append, Expr.operand.eq_def]
          simp only [hleading, ih _ _ rest hinner hrest, bind, Except.bind]
          rfl
      | @exclamation t ts e hmark hinner =>
          have hword : Expr.Leading.ofToken? t = none :=
            leading_ofToken?_eq_none (.inl (by simp [Token.kind_of_isOperation hmark]))
          have hleading : Expr.leading? (t :: (ts ++ rest)) = some (.not, t.span, ts ++ rest) := by
            simp [Expr.leading?, hword, hmark]
          rw [List.cons_append, Expr.operand.eq_def]
          simp only [hleading, ih _ _ rest hinner hrest, bind, Except.bind]
          rfl
      | @parens opening ts e closing hopening hinner hclosing =>
          have hword : Expr.Leading.ofToken? opening = none :=
            leading_ofToken?_eq_none (.inl (by simp [Token.kind_of_isOperation hopening]))
          have hleading : Expr.leading? (opening :: (ts ++ closing :: rest)) = none :=
            leading?_eq_none hword (by simp [Token.isOperation_eq_of_isOperation hopening]) _
          have hfirst : operation? "(" (opening :: (ts ++ closing :: rest)) =
              some (opening, ts ++ closing :: rest) :=
            operation?_eq_some_iff.mpr ⟨rfl, hopening⟩
          have hmiddle := complete_disjunction ih _ _ (closing :: rest) hinner
            (stops_cons.mpr (continuesDisjunction_eq_false hclosing))
          have hlast : expect .expectingRightBracket (operation? ")") (closing :: rest) =
              .ok (closing, rest) :=
            expect_eq_ok_iff.mpr (operation?_eq_some_iff.mpr ⟨rfl, hclosing⟩)
          rw [List.cons_append, List.append_assoc, List.singleton_append, Expr.operand.eq_def]
          simp only [hleading, hfirst, hmiddle, hlast, bind, Except.bind]
          rfl

end Grammar

end TrackerQuery
