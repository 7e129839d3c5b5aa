import TrackerQuery.Proofs.Grammar
import TrackerQuery.Proofs.Outcome

/-!
# What is read has a derivation

Each reader takes tokens off the front of its list, and those have a derivation
whose tree is what it gives.
-/

namespace TrackerQuery

namespace Parser

/-- Whatever `read` takes off the front of a list is derived as what it
gives. -/
def Sound {α : Type} (read : Parser α) (derives : List Token → α → Prop) : Prop :=
  ∀ tokens a rest, read tokens = .ok (a, rest) →
    ∃ used, tokens = used ++ rest ∧ derives used a

theorem token?_eq_some_iff {p : Token → Bool} {tokens : List Token} {t : Token}
    {rest : List Token} :
    token? p tokens = some (t, rest) ↔ tokens = t :: rest ∧ p t = true := by
  cases tokens with
  | nil => simp [token?]
  | cons first others =>
      simp only [token?, Option.ite_none_right_eq_some, Option.some.injEq, Prod.mk.injEq,
        List.cons.injEq]
      constructor
      · rintro ⟨hp, rfl, rfl⟩
        exact ⟨⟨rfl, rfl⟩, hp⟩
      · rintro ⟨⟨rfl, rfl⟩, hp⟩
        exact ⟨hp, rfl, rfl⟩

theorem keyword?_eq_some_iff {word : String} {tokens : List Token} {t : Token}
    {rest : List Token} :
    keyword? word tokens = some (t, rest) ↔ tokens = t :: rest ∧ t.isKeyword word = true :=
  token?_eq_some_iff

theorem operation?_eq_some_iff {text : String} {tokens : List Token} {t : Token}
    {rest : List Token} :
    operation? text tokens = some (t, rest) ↔ tokens = t :: rest ∧ t.isOperation text = true :=
  token?_eq_some_iff

@[simp]
theorem expect_eq_ok_iff {α : Type} {cause : Fault} {read : List Token → Option (α × List Token)}
    {tokens : List Token} {found : α × List Token} :
    expect cause read tokens = .ok found ↔ read tokens = some found := by
  unfold expect
  split
  · rename_i value hvalue
    simp [hvalue]
  · rename_i hvalue
    simp [hvalue, fail]

/-- Items are read one after the other, each with the separator before it. -/
theorem sound_sepBy {α : Type} {item : Parser α} {derives : List Token → α → Prop}
    (hitem : Sound item derives) (separator : Token → Bool) :
    Sound (sepBy item separator) (Grammar.Separated derives separator) := by
  intro tokens
  induction hlength : tokens.length using Nat.strongRecOn generalizing tokens with
  | ind length ih =>
      intro as rest hread
      rw [sepBy] at hread
      obtain ⟨⟨first, afterFirst⟩, hfirst, hread⟩ := bind_eq_ok_iff.mp hread
      obtain ⟨used, rfl, hderives⟩ := hitem tokens first afterFirst hfirst
      dsimp only at hread
      split at hread
      · cases hread
        exact ⟨used, rfl, .one hderives⟩
      · rename_i t others hseparator
        obtain ⟨rfl, ht⟩ := token?_eq_some_iff.mp hseparator
        split at hread
        · rename_i hshorter
          obtain ⟨⟨more, afterMore⟩, hmore, hread⟩ := bind_eq_ok_iff.mp hread
          cases hread
          obtain ⟨usedMore, rfl, hderivesMore⟩ :=
            ih _ (hlength ▸ hshorter) _ rfl more afterMore hmore
          exact ⟨used ++ t :: usedMore, by simp, .more hderives ht hderivesMore⟩
        · cases hread

end Parser

namespace Grammar

open TrackerQuery.Parser

/-! ## Values -/

theorem value?_eq_some {tokens rest : List Token} {e : Expr}
    (hread : Expr.value? tokens = some (e, rest)) :
    ∃ used, tokens = used ++ rest ∧ Value used e := by
  cases tokens with
  | nil => cases hread
  | cons t others =>
      obtain ⟨value, hvalue, heq⟩ := Option.map_eq_some_iff.mp hread
      cases heq
      refine ⟨[t], rfl, ?_⟩
      unfold Expr.ofToken? at hvalue
      dsimp only at hvalue
      split at hvalue
      · cases hvalue
        exact .number ‹_›
      · cases hvalue
        exact .string ‹_›
      · cases hvalue
        exact .var ‹_›
      · cases hvalue
        exact .boolean ‹_›
      · cases hvalue

theorem render_of_ofSpelling {text : String} {op : Arithmetic}
    (hspelling : Arithmetic.ofSpelling text = op) (hop : op ≠ .missing) : text = op.render := by
  unfold Arithmetic.ofSpelling at hspelling
  split at hspelling
  · subst hspelling
    rfl
  · subst hspelling
    rfl
  · exact absurd hspelling.symm hop

theorem splitSigned?_eq_some {t : Token} {op : Arithmetic} {right : Expr}
    (hkind : t.kind = .number) (hsplit : Expr.splitSigned? t = some (op, right)) :
    Operation [t] op right := by
  unfold Expr.splitSigned? at hsplit
  split at hsplit
  · rename_i sign digits hdigits
    split at hsplit
    · cases hsplit
    · rename_i hop
      cases hsplit
      refine .signed hop hkind ?_
      rw [← render_of_ofSpelling rfl hop, ← String.toList_inj, String.toList_append,
        String.toList_ofList, String.toList_singleton, hdigits]
      rfl
  · cases hsplit

/-- The operation that is read is derived from its tokens. -/
theorem nextOperation?_eq_some {tokens rest : List Token} {op : Arithmetic} {right : Expr}
    (hread : Expr.nextOperation? tokens = some (op, right, rest)) :
    ∃ used, tokens = used ++ rest ∧ Operation used op right := by
  cases tokens with
  | nil => cases hread
  | cons t others =>
      unfold Expr.nextOperation? at hread
      dsimp only at hread
      split at hread
      · rename_i hkind
        obtain ⟨⟨op', right'⟩, hsplit, heq⟩ := Option.map_eq_some_iff.mp hread
        cases heq
        exact ⟨[t], rfl, splitSigned?_eq_some hkind hsplit⟩
      · rename_i hkind
        split at hread
        · cases hread
        · rename_i hop
          obtain ⟨⟨right', rest'⟩, hvalue, heq⟩ := Option.map_eq_some_iff.mp hread
          cases heq
          obtain ⟨used, rfl, hright⟩ := value?_eq_some hvalue
          refine ⟨t :: used, rfl, .spaced hop ?_ hright⟩
          simp [Token.isOperation, hkind, ← render_of_ofSpelling rfl hop]
      · cases hread

theorem Expression.mono {n k : Nat} {ts : List Token} {e : Expr} (he : Expression n ts e)
    (hle : n ≤ k) : Expression k ts e := by
  induction he generalizing k with
  | value hvalue => exact .value hvalue
  | operation hleft hoperation ih =>
      obtain ⟨k, rfl⟩ : ∃ j, k = j + 1 := ⟨k - 1, by omega⟩
      exact .operation (ih (by omega)) hoperation

/-- Operations extend what has been read so far. -/
theorem expression_of_arithmeticFrom {budget n : Nat} {left e : Expr}
    {before tokens rest : List Token} (hleft : Expression n before left)
    (hread : Expr.arithmeticFrom left budget tokens = .ok (e, rest)) :
    ∃ used, tokens = used ++ rest ∧ Expression (n + budget) (before ++ used) e := by
  induction budget generalizing n left before tokens with
  | zero =>
      unfold Expr.arithmeticFrom at hread
      split at hread
      · cases hread
        exact ⟨[], rfl, by simpa using hleft⟩
      · cases hread
  | succ budget ih =>
      unfold Expr.arithmeticFrom at hread
      split at hread
      · cases hread
        exact ⟨[], rfl, by simpa using hleft.mono (by omega)⟩
      · rename_i op right others hnext
        obtain ⟨operation, rfl, hoperation⟩ := nextOperation?_eq_some hnext
        obtain ⟨used, rfl, he⟩ := ih (.operation hleft hoperation) hread
        refine ⟨operation ++ used, by simp, ?_⟩
        rw [← List.append_assoc, show n + (budget + 1) = n + 1 + budget by omega]
        exact he

theorem sound_expression (cause : Fault) :
    Sound (Expr.expression cause) (Expression maxNesting) := by
  intro tokens e rest hread
  obtain ⟨⟨first, afterFirst⟩, hfirst, hmore⟩ := bind_eq_ok_iff.mp hread
  obtain ⟨used, rfl, hvalue⟩ := value?_eq_some (expect_eq_ok_iff.mp hfirst)
  obtain ⟨more, rfl, he⟩ := expression_of_arithmeticFrom (.value (n := 0) hvalue) hmore
  exact ⟨used ++ more, by simp, by simpa using he⟩

/-- What is read in parentheses is derived item by item. -/
theorem bracketed_eq_ok {α β : Type} {item : Parser α} {derives : List Token → α → Prop}
    (hitem : Sound item derives) {make : Span → List α → β} {tokens rest : List Token} {b : β}
    (hread : bracketed item make tokens = .ok (b, rest)) :
    ∃ opening used items closing, tokens = opening :: (used ++ [closing]) ++ rest ∧
      opening.isOperation "(" = true ∧ Separated derives isComma used items ∧
      closing.isOperation ")" = true ∧ b = make (opening.span.cover closing.span) items := by
  obtain ⟨⟨opening, afterOpening⟩, hfirst, hread⟩ := bind_eq_ok_iff.mp hread
  obtain ⟨⟨items, afterItems⟩, hmiddle, hread⟩ := bind_eq_ok_iff.mp hread
  obtain ⟨⟨closing, afterClosing⟩, hlast, hread⟩ := bind_eq_ok_iff.mp hread
  cases hread
  obtain ⟨rfl, hopening⟩ := operation?_eq_some_iff.mp (expect_eq_ok_iff.mp hfirst)
  obtain ⟨rfl, hclosing⟩ := operation?_eq_some_iff.mp (expect_eq_ok_iff.mp hlast)
  obtain ⟨used, rfl, hitems⟩ := sound_sepBy hitem _ _ _ _ hmiddle
  exact ⟨opening, used, items, closing, by simp, hopening, hitems, hclosing, rfl⟩

theorem sound_valueList : Sound Expr.valueList ValueList := by
  intro tokens e rest hread
  obtain ⟨opening, used, items, closing, rfl, hopening, hitems, hclosing, rfl⟩ :=
    bracketed_eq_ok (sound_expression _) hread
  exact ⟨_, rfl, .mk hopening hitems hclosing⟩

/-! ## Conditions -/

theorem isKeyword_of_ofToken? {t : Token} {op : Expr.Leading}
    (hop : Expr.Leading.ofToken? t = some op) : t.isKeyword (word op) = true := by
  unfold Expr.Leading.ofToken? at hop
  split at hop
  · cases hop
    assumption
  · split at hop
    · cases hop
      assumption
    · split at hop
      · cases hop
        assumption
      · cases hop

theorem leadingWords_leadingRun (tokens : List Token) :
    LeadingWords (tokens.take (Expr.leadingRun tokens).length) (Expr.leadingRun tokens) := by
  induction tokens with
  | nil => exact .nil
  | cons t others ih =>
      unfold Expr.leadingRun
      split
      · rename_i op hop
        exact .cons (isKeyword_of_ofToken? hop) ih
      · exact .nil

theorem spells_of_ofSpelling {text : String} {op : Comparison}
    (hspelling : Comparison.ofSpelling text = op) (hop : op ≠ .missing) : Spells text op := by
  unfold Comparison.ofSpelling at hspelling
  split at hspelling
  · rename_i spelling found hfound
    subst hspelling
    exact ⟨spelling, List.mem_of_find?_eq_some hfound, by simpa using List.find?_some hfound⟩
  · exact absurd hspelling.symm hop

/-- Comparisons are read from their spellings only. -/
theorem sound_comparison (afterLeading : Bool) :
    Sound (Expr.comparison afterLeading) (Operator afterLeading) := by
  intro tokens op rest hread
  have hotherwise : (if afterLeading then .ok (.equals, tokens)
      else fail .expectingComparisonOperator tokens : Except Error (Comparison × List Token)) =
        .ok (op, rest) → ∃ used, tokens = used ++ rest ∧ Operator afterLeading used op := by
    intro hread
    split at hread
    · rename_i hleading
      cases hread
      subst hleading
      exact ⟨[], rfl, .omitted⟩
    · cases hread
  unfold Expr.comparison at hread
  dsimp only at hread
  split at hread
  · exact hotherwise hread
  · rename_i t others
    split at hread
    · rename_i hkind
      have htoken : ∀ op, Comparison.ofSpelling t.value = op → op ≠ .missing →
          OperatorToken afterLeading t op := by
        intro op hspelling hop
        have hspells := spells_of_ofSpelling hspelling hop
        simp only [Bool.or_eq_true, beq_iff_eq, Bool.and_eq_true, Bool.not_eq_true'] at hkind
        obtain hname | ⟨hoperation, rfl⟩ := hkind
        · exact .word hname hspells
        · exact .symbol hoperation hspells
      split at hread
      · exact hotherwise hread
      · rename_i hspelling
        have hin := htoken _ hspelling (by simp)
        split at hread
        · rename_i u others' hgroup
          obtain ⟨rfl, hu⟩ := keyword?_eq_some_iff.mp hgroup
          cases hread
          exact ⟨[t, u], rfl, .inGroup hin hu⟩
        · cases hread
          exact ⟨[t], rfl, .single hin⟩
      · rename_i hspelling
        have hcontains := htoken _ hspelling (by simp)
        split at hread
        · rename_i u others' hwords
          obtain ⟨rfl, hu⟩ := keyword?_eq_some_iff.mp hwords
          cases hread
          exact ⟨[t, u], rfl, .containsWords hcontains hu⟩
        · cases hread
          exact ⟨[t], rfl, .single hcontains⟩
      · rename_i hmissing _ _
        cases hread
        exact ⟨[t], rfl, .single (htoken _ rfl hmissing)⟩
    · exact hotherwise hread

def anyName (t : Token) : Prop :=
  t.isName = true

theorem fieldRef?_eq_some {tokens rest : List Token} {field : FieldRef}
    (hread : Expr.fieldRef? tokens = some (field, rest)) :
    ∃ used, tokens = used ++ rest ∧ Field anyName used field := by
  obtain ⟨⟨first, afterFirst⟩, hfirst, hothers⟩ := Option.bind_eq_some_iff.mp hread
  obtain ⟨rfl, hname⟩ := token?_eq_some_iff.mp hfirst
  dsimp only at hothers
  split at hothers
  · cases hothers
    exact ⟨[first], rfl, .plain hname⟩
  · rename_i dot afterDot hpoint
    obtain ⟨rfl, hdot⟩ := operation?_eq_some_iff.mp hpoint
    obtain ⟨⟨second, afterSecond⟩, hlast, hfield⟩ := Option.bind_eq_some_iff.mp hothers
    obtain ⟨rfl, hsecond⟩ := token?_eq_some_iff.mp hlast
    cases hfield
    exact ⟨[first, dot, second], rfl, .qualified hname hdot hsecond⟩

/-- The right side of an operator that takes an operand: a field where there is
one, and else an expression. -/
def operand : Parser Expr := fun tokens =>
  match Expr.fieldRef? tokens with
  | some (other, rest) => .ok (Expr.ofField other, rest)
  | none => Expr.expression .expectingFieldOrExpression tokens

theorem rightSide_eq_operand {op : Comparison} (hop : takesOperand op = true) :
    Expr.rightSide op = operand := by
  cases op with
  | inGroup => cases hop
  | under => cases hop
  | oneOf => cases hop
  | _ => rfl

/-- Right sides are read as the grammar derives them. -/
theorem sound_rightSide (op : Comparison) :
    Sound (Expr.rightSide op) (RightSide anyName op) := by
  intro tokens e rest hread
  have hoperand : takesOperand op = true →
      ∃ used, tokens = used ++ rest ∧ RightSide anyName op used e := by
    intro hop
    rw [rightSide_eq_operand hop, operand] at hread
    split at hread
    · rename_i other afterField hfound
      cases hread
      obtain ⟨used, rfl, hfield⟩ := fieldRef?_eq_some hfound
      exact ⟨used, rfl, .field hop hfield⟩
    · obtain ⟨used, rfl, hexpression⟩ := sound_expression _ _ _ _ hread
      exact ⟨used, rfl, .expression hop hexpression⟩
  cases op with
  | inGroup =>
      obtain ⟨used, rfl, hvalue⟩ := value?_eq_some (expect_eq_ok_iff.mp hread)
      exact ⟨used, rfl, .group hvalue⟩
  | under =>
      obtain ⟨used, rfl, hvalue⟩ := value?_eq_some (expect_eq_ok_iff.mp hread)
      exact ⟨used, rfl, .path hvalue⟩
  | oneOf =>
      obtain ⟨used, rfl, hlist⟩ := sound_valueList _ _ _ hread
      exact ⟨used, rfl, .list hlist⟩
  | _ => exact hoperand rfl

/-- Conditions are read as the grammar derives them. -/
theorem sound_condition? : Sound Expr.condition? (Condition anyName) := by
  intro tokens e rest hread
  obtain ⟨⟨left, afterField⟩, hfield, hothers⟩ := bind_eq_ok_iff.mp hread
  obtain ⟨fieldTokens, rfl, hleft⟩ := fieldRef?_eq_some (expect_eq_ok_iff.mp hfield)
  have hsplit := List.take_append_drop (Expr.leadingRun afterField).length afterField
  have hleading := leadingWords_leadingRun afterField
  dsimp only at hothers
  split at hothers
  · cases hothers
  · rename_i hcount
    obtain ⟨⟨op, afterOp⟩, hcomparison, hothers⟩ := bind_eq_ok_iff.mp hothers
    obtain ⟨⟨right, afterRight⟩, hlast, hothers⟩ := bind_eq_ok_iff.mp hothers
    cases hothers
    obtain ⟨opTokens, hopTokens, hop⟩ := sound_comparison _ _ _ _ hcomparison
    obtain ⟨rightTokens, rfl, hright⟩ := sound_rightSide _ _ _ _ hlast
    refine ⟨_, ?_, .mk hleft hleading (by omega) hop hright⟩
    rw [hopTokens] at hsplit
    exact (congrArg (fieldTokens ++ ·) hsplit.symm).trans (by simp)

/-! ## Boolean combinations -/

theorem sound_conjunction {operand : Parser Expr} {derives : List Token → Expr → Prop}
    (hoperand : Sound operand derives) :
    Sound (Expr.conjunction operand) (Conjunction derives) := by
  intro tokens e rest hread
  obtain ⟨⟨operands, afterOperands⟩, hall, hread⟩ := bind_eq_ok_iff.mp hread
  cases hread
  obtain ⟨used, rfl, hoperands⟩ := sound_sepBy hoperand _ _ _ _ hall
  exact ⟨used, rfl, operands, hoperands, rfl⟩

theorem sound_disjunction {operand : Parser Expr} {derives : List Token → Expr → Prop}
    (hoperand : Sound operand derives) :
    Sound (Expr.disjunction operand) (Disjunction derives) := by
  intro tokens e rest hread
  obtain ⟨⟨operands, afterOperands⟩, hall, hread⟩ := bind_eq_ok_iff.mp hread
  cases hread
  obtain ⟨used, rfl, hoperands⟩ := sound_sepBy (sound_conjunction hoperand) _ _ _ _ hall
  exact ⟨used, rfl, operands, hoperands, rfl⟩

/-- An operator in front of an operand, as a word or as `!`. -/
theorem nested_of_leading? {inner : List Token → Expr → Prop} {tokens rest used : List Token}
    {op : Expr.Leading} {span : Span} {e : Expr}
    (hleading : Expr.leading? tokens = some (op, span, rest)) (hinner : inner used e) :
    ∃ t, tokens = t :: rest ∧
      Nested anyName inner (t :: used) ((op.apply e).withSpan (span.cover e.span)) := by
  cases tokens with
  | nil => cases hleading
  | cons t others =>
      unfold Expr.leading? at hleading
      dsimp only at hleading
      split at hleading
      · rename_i found hfound
        cases hleading
        exact ⟨t, rfl, .leading (isKeyword_of_ofToken? hfound) hinner⟩
      · split at hleading
        · rename_i hmark
          cases hleading
          exact ⟨t, rfl, .exclamation hmark hinner⟩
        · cases hleading

/-- Operands are read as the grammar derives them, at every depth. -/
theorem sound_operand (depth : Nat) : Sound (Expr.operand depth) (Operand anyName depth) := by
  induction depth with
  | zero =>
      intro tokens e rest hread
      unfold Expr.operand at hread
      split at hread
      · cases hread
      · split at hread
        · cases hread
        · exact sound_condition? tokens e rest hread
  | succ depth ih =>
      intro tokens e rest hread
      unfold Expr.operand at hread
      split at hread
      · rename_i op span afterOp hleading
        obtain ⟨⟨inner, afterInner⟩, hmore, hread⟩ := bind_eq_ok_iff.mp hread
        cases hread
        obtain ⟨used, rfl, hinner⟩ := ih _ _ _ hmore
        obtain ⟨t, rfl, hnested⟩ := nested_of_leading? hleading hinner
        exact ⟨t :: used, rfl, hnested⟩
      · split at hread
        · rename_i opening afterOpening hfirst
          obtain ⟨⟨inner, afterInner⟩, hmiddle, hread⟩ := bind_eq_ok_iff.mp hread
          obtain ⟨⟨closing, afterClosing⟩, hlast, hread⟩ := bind_eq_ok_iff.mp hread
          cases hread
          obtain ⟨rfl, hopening⟩ := operation?_eq_some_iff.mp hfirst
          obtain ⟨rfl, hclosing⟩ := operation?_eq_some_iff.mp (expect_eq_ok_iff.mp hlast)
          obtain ⟨used, rfl, hinner⟩ := sound_disjunction ih _ _ _ hmiddle
          exact ⟨opening :: (used ++ [closing]), by simp, .parens hopening hinner hclosing⟩
        · obtain ⟨used, rfl, hcondition⟩ := sound_condition? tokens e rest hread
          exact ⟨used, rfl, .condition hcondition⟩

/-! ## Clauses -/

theorem sound_orderedField : Sound Select.orderedField (OrderedField anyName) := by
  intro tokens field rest hread
  obtain ⟨⟨found, afterField⟩, hfound, hdirection⟩ := bind_eq_ok_iff.mp hread
  obtain ⟨used, rfl, hfield⟩ := fieldRef?_eq_some (expect_eq_ok_iff.mp hfound)
  dsimp only at hdirection
  split at hdirection
  · rename_i t others hasc
    obtain ⟨rfl, hword⟩ := keyword?_eq_some_iff.mp hasc
    cases hdirection
    exact ⟨used ++ [t], by simp, .ascending hfield hword⟩
  · split at hdirection
    · rename_i t others hdesc
      obtain ⟨rfl, hword⟩ := keyword?_eq_some_iff.mp hdesc
      cases hdirection
      exact ⟨used ++ [t], by simp, .descending hfield hword⟩
    · cases hdirection
      exact ⟨used, rfl, .plain hfield⟩

theorem sound_fieldList (kind : FieldListKind) :
    Sound (Select.fieldList kind) (Fields anyName kind) := by
  have hitem : Sound (Select.listItem kind) (ListItem anyName kind) := by
    cases kind with
    | order => exact sound_orderedField
    | _ => exact fun tokens field rest hread => fieldRef?_eq_some (expect_eq_ok_iff.mp hread)
  intro tokens list rest hread
  obtain ⟨⟨fields, afterFields⟩, hall, hread⟩ := bind_eq_ok_iff.mp hread
  cases hread
  obtain ⟨used, rfl, hfields⟩ := sound_sepBy hitem _ _ _ _ hall
  exact ⟨used, rfl, .mk hfields⟩

theorem sound_modeList : Sound Select.modeList (Modes anyName) := by
  have hitem : Sound (expect .expectingMode Select.modeItem?) (ModeName anyName) := by
    intro tokens item rest hread
    obtain ⟨⟨t, others⟩, ht, heq⟩ := Option.map_eq_some_iff.mp (expect_eq_ok_iff.mp hread)
    cases heq
    obtain ⟨rfl, hname⟩ := token?_eq_some_iff.mp ht
    exact ⟨[t], rfl, .mk hname⟩
  intro tokens e rest hread
  obtain ⟨opening, used, items, closing, rfl, hopening, hitems, hclosing, rfl⟩ :=
    bracketed_eq_ok hitem hread
  exact ⟨_, rfl, .mk hopening hitems hclosing⟩

def clauseWord : Select.ClauseKind → String
  | .from => "from"
  | .where => "where"
  | .group => "group"
  | .order => "order"
  | .asOf => "asof"
  | .mode => "mode"

theorem isKeyword_of_clauseKind {t : Token} {kind : Select.ClauseKind}
    (hkind : Select.ClauseKind.ofToken? t = some kind) :
    t.isKeyword (clauseWord kind) = true := by
  unfold Select.ClauseKind.ofToken? at hkind
  repeat' split at hkind
  all_goals cases hkind
  all_goals assumption

theorem once_eq_ok {α : Type} {earlier : Option α} {cause : Fault} {word : Token} {u : Unit}
    (honce : Select.once earlier cause word = .ok u) : earlier = none :=
  Option.isNone_iff_eq_none.mp (Error.ensure_eq_ok_iff.mp honce)

/-- Clauses are read as the grammar derives them. -/
theorem sound_clause {word : Token} {kind : Select.ClauseKind} (query : Select)
    (hkind : Select.ClauseKind.ofToken? word = some kind) :
    Sound (Select.clause query word kind) fun used => Clause anyName (word :: used) query := by
  have hword := isKeyword_of_clauseKind hkind
  intro tokens next rest hread
  cases kind with
  | «from» =>
      obtain ⟨_, honce, hread⟩ := bind_eq_ok_iff.mp hread
      obtain ⟨⟨table, afterTable⟩, htable, hread⟩ := bind_eq_ok_iff.mp hread
      cases hread
      obtain ⟨⟨t, others⟩, ht, heq⟩ := Option.map_eq_some_iff.mp (expect_eq_ok_iff.mp htable)
      cases heq
      obtain ⟨rfl, hname⟩ := token?_eq_some_iff.mp ht
      exact ⟨[t], rfl, .table hword (once_eq_ok honce) hname⟩
  | «where» =>
      obtain ⟨_, honce, hread⟩ := bind_eq_ok_iff.mp hread
      obtain ⟨⟨filter, afterFilter⟩, hfound, hread⟩ := bind_eq_ok_iff.mp hread
      cases hread
      obtain ⟨used, rfl, hfilter⟩ := sound_disjunction (sound_operand maxNesting) _ _ _ hfound
      exact ⟨used, rfl, .filter hword (once_eq_ok honce) hfilter⟩
  | group =>
      obtain ⟨⟨by_, afterBy⟩, hfirst, hread⟩ := bind_eq_ok_iff.mp hread
      obtain ⟨_, honce, hread⟩ := bind_eq_ok_iff.mp hread
      obtain ⟨⟨list, afterList⟩, hfound, hread⟩ := bind_eq_ok_iff.mp hread
      cases hread
      obtain ⟨rfl, hby⟩ := keyword?_eq_some_iff.mp (expect_eq_ok_iff.mp hfirst)
      obtain ⟨used, rfl, hlist⟩ := sound_fieldList _ _ _ _ hfound
      exact ⟨by_ :: used, rfl, .grouping hword hby (once_eq_ok honce) hlist⟩
  | order =>
      obtain ⟨⟨by_, afterBy⟩, hfirst, hread⟩ := bind_eq_ok_iff.mp hread
      obtain ⟨_, honce, hread⟩ := bind_eq_ok_iff.mp hread
      obtain ⟨⟨list, afterList⟩, hfound, hread⟩ := bind_eq_ok_iff.mp hread
      cases hread
      obtain ⟨rfl, hby⟩ := keyword?_eq_some_iff.mp (expect_eq_ok_iff.mp hfirst)
      obtain ⟨used, rfl, hlist⟩ := sound_fieldList _ _ _ _ hfound
      exact ⟨by_ :: used, rfl, .ordering hword hby (once_eq_ok honce) hlist⟩
  | asOf =>
      obtain ⟨_, honce, hread⟩ := bind_eq_ok_iff.mp hread
      obtain ⟨⟨moment, afterMoment⟩, hfound, hread⟩ := bind_eq_ok_iff.mp hread
      cases hread
      obtain ⟨used, rfl, hvalue⟩ := value?_eq_some (expect_eq_ok_iff.mp hfound)
      exact ⟨used, rfl, .asOf hword (once_eq_ok honce) hvalue⟩
  | mode =>
      obtain ⟨_, honce, hread⟩ := bind_eq_ok_iff.mp hread
      obtain ⟨⟨modes, afterModes⟩, hfound, hread⟩ := bind_eq_ok_iff.mp hread
      cases hread
      obtain ⟨used, rfl, hmodes⟩ := sound_modeList _ _ _ hfound
      exact ⟨used, rfl, .modes hword (once_eq_ok honce) hmodes⟩

/-- Clauses are read until no clause begins. -/
theorem sound_clauses (query : Select) :
    Sound (Select.clauses query) fun used => Clauses anyName used query := by
  intro tokens
  induction hlength : tokens.length using Nat.strongRecOn generalizing tokens query with
  | ind length ih =>
      intro last rest hread
      cases tokens with
      | nil =>
          rw [Select.clauses] at hread
          cases hread
          exact ⟨[], rfl, .nil⟩
      | cons word others =>
          rw [Select.clauses] at hread
          split at hread
          · cases hread
            exact ⟨[], rfl, .nil⟩
          · rename_i kind hkind
            obtain ⟨⟨next, afterClause⟩, hfound, hread⟩ := bind_eq_ok_iff.mp hread
            obtain ⟨used, rfl, hclause⟩ := sound_clause query hkind _ _ _ hfound
            dsimp only at hread
            split at hread
            · obtain ⟨more, rfl, hothers⟩ :=
                ih afterClause.length (by simp at hlength; omega) next afterClause rfl _ _ hread
              exact ⟨word :: used ++ more, by simp, .cons hclause hothers⟩
            · cases hread

/-- The columns of a query, `none` for `*`. -/
def columns : Parser (Option FieldList) := fun tokens =>
  match operation? "*" tokens with
  | some (_, rest) => .ok (none, rest)
  | none => (Select.fieldList .select tokens).map fun (list, rest) => (some list, rest)

/-- After `select` come the columns, the clauses and the end. -/
theorem ofTokens_cons {word : Token} (hword : word.isKeyword "select" = true)
    (others : List Token) :
    Select.ofTokens (word :: others) = columns others >>= fun read =>
      Select.clauses { columns := read.1 } read.2 >>= fun last =>
        if Select.isTail last.2 then .ok { last.1 with span := wholeSpan word others }
        else fail .expectingEndOfString last.2 := by
  have hfirst : expect .expectingSelect (keyword? "select") (word :: others) =
      .ok (word, others) := expect_eq_ok_iff.mpr (keyword?_eq_some_iff.mpr ⟨rfl, hword⟩)
  have hend : ∀ columns rest, (do
      let last ← Select.clauses { columns } rest
      unless Select.isTail last.2 do fail .expectingEndOfString last.2
      return { last.1 with span := wholeSpan word others }) =
        Select.clauses { columns } rest >>= fun last =>
          if Select.isTail last.2 then .ok { last.1 with span := wholeSpan word others }
          else fail .expectingEndOfString last.2 := by
    intro columns rest
    refine congrArg _ (funext fun last => ?_)
    cases Select.isTail last.2 <;> rfl
  simp only [← hend]
  rw [Select.ofTokens, hfirst, columns]
  cases hstar : operation? "*" others with
  | some read =>
      simp only [bind, Except.bind, hstar, pure, Except.pure]
      rfl
  | none =>
      simp only [bind, Except.bind, hstar, pure, Except.pure]
      cases Select.fieldList .select others with
      | error error => rfl
      | ok read => rfl

/-- A query that is read: the word, the columns, and clauses up to where reading
may end. -/
theorem ofTokens_eq_ok_iff_isTail {tokens : List Token} {query : Select} :
    Select.ofTokens tokens = .ok query ↔ ∃ word others list rest last left,
      tokens = word :: others ∧ word.isKeyword "select" = true ∧
      columns others = .ok (list, rest) ∧
      Select.clauses { columns := list } rest = .ok (last, left) ∧
      Select.isTail left = true ∧
      query = { last with span := wholeSpan word others } := by
  constructor
  · intro hread
    obtain ⟨⟨word, others⟩, hfirst, -⟩ := bind_eq_ok_iff.mp hread
    obtain ⟨rfl, hword⟩ := keyword?_eq_some_iff.mp (expect_eq_ok_iff.mp hfirst)
    rw [ofTokens_cons hword] at hread
    obtain ⟨⟨list, rest⟩, hcolumns, hread⟩ := bind_eq_ok_iff.mp hread
    obtain ⟨⟨last, left⟩, hclauses, hread⟩ := bind_eq_ok_iff.mp hread
    split at hread
    · rename_i htail
      cases hread
      exact ⟨word, others, list, rest, last, left, rfl, hword, hcolumns, hclauses, htail, rfl⟩
    · cases hread
  · rintro ⟨word, others, list, rest, last, left, rfl, hword, hcolumns, hclauses, htail, rfl⟩
    rw [ofTokens_cons hword, hcolumns]
    change (Select.clauses _ _ >>= _) = _
    rw [hclauses]
    exact if_pos htail

/-- What is wrong with a clause is wrong with the query. -/
theorem ofTokens_eq_error {word : Token} {others rest : List Token} {list : Option FieldList}
    {error : Error} (hword : word.isKeyword "select" = true)
    (hcolumns : columns others = .ok (list, rest))
    (hclauses : Select.clauses { columns := list } rest = .error error) :
    Select.ofTokens (word :: others) = .error error := by
  rw [ofTokens_cons hword, hcolumns]
  change (Select.clauses _ _ >>= _) = _
  rw [hclauses]
  rfl

theorem sound_columns : Sound columns (Columns anyName) := by
  intro tokens list rest hread
  unfold columns at hread
  split at hread
  · rename_i t others hfound
    obtain ⟨rfl, hstar⟩ := operation?_eq_some_iff.mp hfound
    cases hread
    exact ⟨[t], rfl, .all hstar⟩
  · obtain ⟨⟨found, afterList⟩, hfound, heq⟩ := map_eq_ok_iff.mp hread
    cases heq
    obtain ⟨used, rfl, hlist⟩ := sound_fieldList _ _ _ _ hfound
    exact ⟨used, rfl, .fields hlist⟩

theorem isTail_iff {rest : List Token} (hsolid : ∀ t ∈ rest, t.isOperation "" = false) :
    Select.isTail rest = true ↔ rest = [] := by
  cases rest with
  | nil => simp [Select.isTail]
  | cons t rest => simp [Select.isTail, hsolid t List.mem_cons_self]

/-- Tokens none of which is empty are read to their end. -/
theorem ofTokens_eq_ok_iff {tokens : List Token} {query : Select}
    (hsolid : ∀ t ∈ tokens, t.isOperation "" = false) :
    Select.ofTokens tokens = .ok query ↔ ∃ word others list rest last,
      tokens = word :: others ∧ word.isKeyword "select" = true ∧
      columns others = .ok (list, rest) ∧
      Select.clauses { columns := list } rest = .ok (last, []) ∧
      query = { last with span := wholeSpan word others } := by
  rw [ofTokens_eq_ok_iff_isTail]
  constructor
  · rintro ⟨word, others, list, rest, last, left, rfl, hword, hcolumns, hclauses, htail, rfl⟩
    obtain ⟨used, rfl, -⟩ := sound_columns _ _ _ hcolumns
    obtain ⟨more, rfl, -⟩ := sound_clauses _ _ _ _ hclauses
    obtain rfl := (isTail_iff fun t ht => hsolid t (by simp [ht])).mp htail
    exact ⟨word, _, list, _, last, rfl, hword, hcolumns, hclauses, rfl⟩
  · rintro ⟨word, others, list, rest, last, rfl, hword, hcolumns, hclauses, rfl⟩
    exact ⟨word, others, list, rest, last, [], rfl, hword, hcolumns, hclauses, rfl, rfl⟩

/-- Every query that is read has a derivation from the tokens up to where reading
ended. -/
theorem exists_query_of_ofTokens {tokens : List Token} {query : Select}
    (hread : Select.ofTokens tokens = .ok query) :
    ∃ used left span, tokens = used ++ left ∧ Select.isTail left = true ∧
      Query anyName used { query with span } := by
  obtain ⟨word, others, list, rest, last, left, rfl, hword, hfirst, hlast, htail, rfl⟩ :=
    ofTokens_eq_ok_iff_isTail.mp hread
  obtain ⟨columnTokens, rfl, hcolumns⟩ := sound_columns _ _ _ hfirst
  obtain ⟨clauseTokens, rfl, hclauses⟩ := sound_clauses _ _ _ _ hlast
  refine ⟨word :: (columnTokens ++ clauseTokens), left,
    wholeSpan word (columnTokens ++ clauseTokens), by simp, htail, ?_⟩
  show Query anyName _ { last with span := wholeSpan word (columnTokens ++ clauseTokens) }
  exact .mk hword hcolumns hclauses

theorem query_of_ofTokens {tokens : List Token} {query : Select}
    (hsolid : ∀ t ∈ tokens, t.isOperation "" = false)
    (hread : Select.ofTokens tokens = .ok query) : Query anyName tokens query := by
  obtain ⟨word, others, list, rest, last, rfl, hword, hfirst, hlast, rfl⟩ :=
    (ofTokens_eq_ok_iff hsolid).mp hread
  obtain ⟨columnTokens, rfl, hcolumns⟩ := sound_columns _ _ _ hfirst
  obtain ⟨clauseTokens, rfl, hclauses⟩ := sound_clauses _ _ _ _ hlast
  simp only [List.append_nil]
  exact .mk hword hcolumns hclauses

end Grammar

end TrackerQuery
