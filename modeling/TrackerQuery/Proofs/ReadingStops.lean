import TrackerQuery.Proofs.GrammarSound

/-!
# Where reading stops

Reading uses up tokens from the front, so a reader that fails does so at one of its tokens
or at their end.  A token that no rule of the grammar takes is to a reader what the end of
the tokens is: before it everything is read as before, and a failure at the end becomes one
at this token.  A clause may be refused because there has been one of its kind, but nothing
that is read within a clause is refused for that.
-/

namespace TrackerQuery

/-- The query is refused for a second clause of a kind. -/
def Fault.isRepetition : Fault → Bool
  | .duplicateFrom | .duplicateWhere | .duplicateGroupBy | .duplicateOrderBy | .duplicateAsOf
  | .duplicateMode => true
  | _ => false

/-- The symbols in the rules of the grammar that compare or add nothing. -/
def Grammar.punctuation : List String :=
  ["(", ")", ",", ".", "*", "!", "&&", "||"]

/-- A symbol that means nothing to any rule of the grammar. -/
structure Token.Stray (t : Token) : Prop where
  kind : t.kind = .operation
  punctuation : t.value ∉ Grammar.punctuation
  comparison : Comparison.ofSpelling t.value = .missing
  arithmetic : Arithmetic.ofSpelling t.value = .missing

theorem Token.exists_stray : ∃ t : Token, t.Stray :=
  ⟨⟨.operation, ";", {}⟩, rfl, by decide, by decide, by decide⟩

namespace Token.Stray

variable {t : Token} (ht : t.Stray)

include ht

theorem isName_eq : t.isName = false := by
  rw [Token.isName, ht.kind]
  rfl

theorem isKeyword_eq (word : String) : t.isKeyword word = false := by
  rw [Token.isKeyword, ht.kind]
  rfl

theorem isOperation_eq {symbol : String} (hsymbol : symbol ∈ Grammar.punctuation) :
    t.isOperation symbol = false := by
  rw [Token.isOperation, Bool.and_eq_false_iff, beq_eq_false_iff_ne, beq_eq_false_iff_ne]
  refine .inr fun hvalue => ht.punctuation ?_
  rwa [hvalue]

end Token.Stray

namespace Parser

variable {α β : Type} {reason : Fault → Prop} {tokens rest tail : List Token}

/-- Two outcomes of reading, without and with `tail` behind the tokens: both leave a suffix of
the tokens, or both fail at one of them or behind them all, for a reason of this kind. -/
inductive Goes (reason : Fault → Prop) (tokens tail : List Token) :
    Except Error (α × List Token) → Except Error (α × List Token) → Prop
  | ok {a rest} (hrest : rest <:+ tokens) :
      Goes reason tokens tail (.ok (a, rest)) (.ok (a, rest ++ tail))
  | error {cause rest} (hcause : reason cause) (hrest : rest <:+ tokens) :
      Goes reason tokens tail (.error (.fault cause (rest.head?.map Token.span)))
        (.error (.fault cause ((rest ++ tail).head?.map Token.span)))

/-- To the reader a stray token is no more than the end of the tokens. -/
def Reads (read : Parser α) : Prop :=
  ∀ ⦃t⦄, t.Stray → ∀ more tokens, Goes (fun cause => cause.isRepetition = false) tokens (t :: more)
    (read tokens) (read (tokens ++ t :: more))

namespace Goes

variable {x y : Except Error (α × List Token)}

theorem fail (cause : Fault) (hrest : rest <:+ tokens) (hcause : reason cause := by trivial) :
    Goes (α := α) reason tokens tail (fail cause rest) (Parser.fail cause (rest ++ tail)) :=
  .error hcause hrest

theorem mono (h : Goes reason rest tail x y) (hrest : rest <:+ tokens) :
    Goes reason tokens tail x y := by
  cases h with
  | ok hleft => exact .ok (hleft.trans hrest)
  | error hcause hleft => exact .error hcause (hleft.trans hrest)

theorem anyReason (h : Goes reason tokens tail x y) :
    Goes (fun _ => True) tokens tail x y := by
  cases h with
  | ok hleft => exact .ok hleft
  | error _ hleft => exact .error trivial hleft

theorem bind {f g : α × List Token → Except Error (β × List Token)}
    (h : Goes reason tokens tail x y)
    (hnext : ∀ a rest, Goes reason rest tail (f (a, rest)) (g (a, rest ++ tail))) :
    Goes reason tokens tail (x >>= f) (y >>= g) := by
  cases h with
  | ok hrest => exact (hnext _ _).mono hrest
  | error hcause hrest => exact .error hcause hrest

end Goes

namespace Reads

variable {read : Parser α}

theorem suffix {a : α} (h : Reads read) (hread : read tokens = .ok (a, rest)) :
    rest <:+ tokens := by
  obtain ⟨t, ht⟩ := Token.exists_stray
  have hgoes := h ht [] tokens
  rw [hread] at hgoes
  generalize read (tokens ++ [t]) = y at hgoes
  cases hgoes with
  | ok hrest => exact hrest

theorem isRepetition_eq {cause : Fault} {place : Option Span} (h : Reads read)
    (hread : read tokens = .error (.fault cause place)) : cause.isRepetition = false := by
  obtain ⟨t, ht⟩ := Token.exists_stray
  have hgoes := h ht [] tokens
  rw [hread] at hgoes
  generalize read (tokens ++ [t]) = y at hgoes
  cases hgoes with
  | error hcause _ => exact hcause

theorem bind {f : α × List Token → Except Error (β × List Token)} (h : Reads read)
    (hf : ∀ a, Reads fun rest => f (a, rest)) : Reads fun tokens => read tokens >>= f :=
  fun _ ht more tokens => (h ht more tokens).bind fun a rest => hf a ht more rest

end Reads

theorem reads_here (a : α) : Reads fun tokens => .ok (a, tokens) :=
  fun _ _ _ _ => .ok List.suffix_rfl

/-- What is found at the front of the tokens is found there before a stray token too. -/
structure Finds (read : List Token → Option (α × List Token)) : Prop where
  suffix : ∀ {tokens a rest}, read tokens = some (a, rest) → rest <:+ tokens
  append : ∀ {t}, t.Stray → ∀ more tokens,
    read (tokens ++ t :: more) = (read tokens).map (Prod.map id (· ++ t :: more))

theorem finds_token {p : Token → Bool} (hp : ∀ t, t.Stray → p t = false) : Finds (token? p) where
  suffix {_ t rest} hread := by
    obtain ⟨rfl, -⟩ := token?_eq_some_iff.mp hread
    exact List.suffix_cons t rest
  append {t} ht more tokens := by
    cases tokens with
    | nil => exact if_neg (ne_true_of_eq_false (hp t ht))
    | cons u rest =>
        rw [List.cons_append, token?, token?]
        cases p u <;> rfl

theorem finds_keyword (word : String) : Finds (keyword? word) :=
  finds_token fun _ ht => ht.isKeyword_eq word

theorem finds_operation {symbol : String} (hsymbol : symbol ∈ Grammar.punctuation) :
    Finds (operation? symbol) :=
  finds_token fun _ ht => ht.isOperation_eq hsymbol

/-- A reader that makes something of one token. -/
theorem Finds.map {read : List Token → Option (α × List Token)} (h : Finds read) (g : α → β) :
    Finds fun tokens => (read tokens).map fun found => (g found.1, found.2) where
  suffix hread := by
    obtain ⟨found, hfound, heq⟩ := Option.map_eq_some_iff.mp hread
    cases heq
    exact h.suffix hfound
  append ht more tokens := by
    rw [h.append ht more tokens]
    cases read tokens <;> rfl

theorem Finds.reads {read : List Token → Option (α × List Token)} (h : Finds read)
    {cause : Fault} (hcause : cause.isRepetition = false) : Reads (expect cause read) := by
  intro t ht more tokens
  unfold expect
  rw [h.append ht more tokens]
  cases hread : read tokens with
  | none => exact .fail cause (List.suffix_refl tokens) hcause
  | some found => exact .ok (h.suffix hread)

/-- A stray token ends a list. -/
theorem reads_sepBy {item : Parser α} {separator : Token → Bool} (hitem : Reads item)
    (hseparator : ∀ t, t.Stray → separator t = false) : Reads (sepBy item separator) := by
  intro t ht more tokens
  induction hlength : tokens.length using Nat.strongRecOn generalizing tokens with
  | ind length ih =>
      rw [sepBy, sepBy]
      refine (hitem ht more tokens).bind fun first rest => ?_
      dsimp only
      rw [(finds_token hseparator).append ht more rest]
      cases hread : token? separator rest with
      | none => exact .ok List.suffix_rfl
      | some found =>
          obtain ⟨u, others⟩ := found
          have hsuffix := (finds_token hseparator).suffix hread
          have hsame : (others ++ t :: more).length < (tokens ++ t :: more).length ↔
              others.length < tokens.length := by
            simp only [List.length_append]
            omega
          simp only [Option.map_some, Prod.map, id_eq, hsame]
          split
          · rename_i hshorter
            refine Goes.mono ?_ hsuffix
            exact (ih _ (hlength ▸ hshorter) others rfl).bind fun _ _ => .ok List.suffix_rfl
          · exact .fail _ hsuffix rfl

theorem isComma_eq (t : Token) (ht : t.Stray) : t.isOperation "," = false :=
  ht.isOperation_eq (by decide)

theorem reads_closing {cause : Fault} (hcause : cause.isRepetition = false) :
    Reads (expect cause (operation? ")")) :=
  (finds_operation (by decide)).reads hcause

theorem reads_bracketed {item : Parser α} (hitem : Reads item) (make : Span → List α → β) :
    Reads (bracketed item make) :=
  ((finds_operation (by decide)).reads rfl).bind fun _ =>
  (reads_sepBy hitem isComma_eq).bind fun _ => (reads_closing rfl).bind fun _ => reads_here _

end Parser

open TrackerQuery.Parser

namespace Expr

theorem finds_fieldRef? : Finds fieldRef? where
  suffix hread := by
    obtain ⟨used, rfl, -⟩ := Grammar.fieldRef?_eq_some hread
    exact List.suffix_append used _
  append {t} ht more tokens := by
    have hnames := finds_token fun _ => Token.Stray.isName_eq
    have hdots : Finds (operation? ".") := finds_operation (by decide)
    unfold fieldRef?
    rw [hnames.append ht more tokens]
    cases token? Token.isName tokens with
    | none => rfl
    | some found =>
        simp only [Option.map_some, Option.bind_eq_bind, Option.bind_some, Prod.map, id_eq,
          hdots.append ht more found.2]
        cases operation? "." found.2 with
        | none => rfl
        | some dot =>
            simp only [Option.map_some, Prod.map, hnames.append ht more dot.2]
            cases token? Token.isName dot.2 <;> rfl

theorem finds_value? : Finds value? where
  suffix hread := by
    obtain ⟨used, rfl, -⟩ := Grammar.value?_eq_some hread
    exact List.suffix_append used _
  append {t} ht more tokens := by
    cases tokens with
    | nil =>
        show (ofToken? t).map _ = none
        unfold ofToken?
        rw [ht.kind]
        rfl
    | cons u rest =>
        rw [List.cons_append, value?, value?]
        cases ofToken? u <;> rfl

section Stray

variable {t : Token} (ht : t.Stray) (more tokens : List Token)

include ht

theorem nextOperation?_append :
    nextOperation? (tokens ++ t :: more) =
      (nextOperation? tokens).map fun next => (next.1, next.2.1, next.2.2 ++ t :: more) := by
  cases tokens with
  | nil =>
      show nextOperation? (t :: more) = none
      rw [nextOperation?, ht.kind]
      dsimp only
      rw [ht.arithmetic]
  | cons u rest =>
      rw [List.cons_append, nextOperation?, nextOperation?]
      cases u.kind with
      | number => cases splitSigned? u <;> rfl
      | operation =>
          dsimp only
          rw [finds_value?.append ht more rest]
          cases Arithmetic.ofSpelling u.value <;> cases value? rest <;> rfl
      | _ => rfl

theorem leadingRun_append : leadingRun (tokens ++ t :: more) = leadingRun tokens := by
  induction tokens with
  | nil =>
      have hnone : Leading.ofToken? t = none := by simp [Leading.ofToken?, ht.isKeyword_eq]
      rw [List.nil_append, leadingRun, leadingRun, hnone]
  | cons u rest ih => rw [List.cons_append, leadingRun, leadingRun, ih]

theorem leading?_append :
    leading? (tokens ++ t :: more) =
      (leading? tokens).map fun next => (next.1, next.2.1, next.2.2 ++ t :: more) := by
  cases tokens with
  | nil =>
      have hbang : t.isOperation "!" = false := ht.isOperation_eq (by decide)
      simp [leading?, Leading.ofToken?, ht.isKeyword_eq, hbang]
  | cons u rest =>
      rw [List.cons_append, leading?, leading?]
      cases Leading.ofToken? u with
      | none => cases u.isOperation "!" <;> rfl
      | some op => rfl

end Stray

theorem suffix_of_nextOperation? {tokens : List Token} {next : Arithmetic × Expr × List Token}
    (hread : nextOperation? tokens = some next) : next.2.2 <:+ tokens := by
  obtain ⟨used, rfl, -⟩ := Grammar.nextOperation?_eq_some hread
  exact List.suffix_append used _

theorem suffix_of_leading? {tokens : List Token} {next : Leading × Span × List Token}
    (hread : leading? tokens = some next) : next.2.2 <:+ tokens := by
  cases tokens with
  | nil => cases hread
  | cons t others =>
      unfold leading? at hread
      dsimp only at hread
      split at hread
      · cases hread
        exact List.suffix_cons t others
      · split at hread
        · cases hread
          exact List.suffix_cons t others
        · cases hread

theorem length_leadingRun_le (tokens : List Token) :
    (leadingRun tokens).length ≤ tokens.length := by
  induction tokens with
  | nil => exact Nat.le_refl 0
  | cons u rest ih =>
      rw [leadingRun]
      split
      · exact Nat.succ_le_succ ih
      · exact Nat.zero_le _

theorem reads_arithmeticFrom (left : Expr) (budget : Nat) : Reads (arithmeticFrom left budget) := by
  intro t ht more tokens
  induction budget generalizing left tokens with
  | zero =>
      unfold arithmeticFrom
      rw [nextOperation?_append ht]
      cases hnext : nextOperation? tokens with
      | none => exact .ok List.suffix_rfl
      | some next => exact .fail _ (suffix_of_nextOperation? hnext) rfl
  | succ budget ih =>
      unfold arithmeticFrom
      rw [nextOperation?_append ht]
      cases hnext : nextOperation? tokens with
      | none => exact .ok List.suffix_rfl
      | some next => exact (ih _ next.2.2).mono (suffix_of_nextOperation? hnext)

theorem reads_expression {cause : Fault} (hcause : cause.isRepetition = false) :
    Reads (expression cause) :=
  (finds_value?.reads hcause).bind fun first => reads_arithmeticFrom first _

theorem reads_comparison (afterLeading : Bool) : Reads (comparison afterLeading) := by
  intro t ht more tokens
  unfold comparison
  cases tokens with
  | nil =>
      rw [List.nil_append]
      dsimp only
      rw [ht.comparison, ht.kind]
      cases afterLeading with
      | false => exact .fail _ List.suffix_rfl rfl
      | true => exact .ok List.suffix_rfl
  | cons u rest =>
      rw [List.cons_append]
      dsimp only
      have hotherwise : Goes (fun cause => cause.isRepetition = false) (u :: rest) (t :: more)
          (if afterLeading then .ok (Comparison.equals, u :: rest)
            else fail .expectingComparisonOperator (u :: rest))
          (if afterLeading then .ok (.equals, u :: (rest ++ t :: more))
            else fail .expectingComparisonOperator (u :: (rest ++ t :: more))) := by
        cases afterLeading with
        | false => exact .fail _ List.suffix_rfl rfl
        | true => exact .ok List.suffix_rfl
      split
      · cases Comparison.ofSpelling u.value with
        | missing => exact hotherwise
        | oneOf | contains =>
            dsimp only
            rw [(finds_keyword _).append ht more rest]
            refine Goes.mono ?_ (List.suffix_cons u rest)
            split
            · rename_i hread
              rw [hread]
              exact .ok ((finds_keyword _).suffix hread)
            · rename_i hread
              rw [hread]
              exact .ok List.suffix_rfl
        | _ => exact .ok (List.suffix_cons u rest)
      · exact hotherwise

theorem reads_valueList : Reads valueList :=
  reads_bracketed (reads_expression rfl) _

theorem reads_rightSide (op : Comparison) : Reads (rightSide op) := by
  have hoperand : Reads Grammar.operand := by
    intro t ht more tokens
    unfold Grammar.operand
    rw [finds_fieldRef?.append ht more tokens]
    cases hread : fieldRef? tokens with
    | none => exact reads_expression rfl ht more tokens
    | some found => exact .ok (finds_fieldRef?.suffix hread)
  cases op with
  | inGroup => exact finds_value?.reads rfl
  | under => exact finds_value?.reads rfl
  | oneOf => exact reads_valueList
  | _ => exact hoperand

theorem reads_condition? : Reads condition? := by
  intro t ht more tokens
  refine (finds_fieldRef?.reads rfl ht more tokens).bind fun left rest => ?_
  have hlength := length_leadingRun_le rest
  have hdrop : ∀ count ≤ rest.length,
      (rest ++ t :: more).drop count = rest.drop count ++ t :: more :=
    fun count hcount => List.drop_append_of_le_length hcount
  dsimp only
  rw [leadingRun_append ht]
  split
  · rw [hdrop _ (by omega)]
    exact .fail _ (List.drop_suffix _ rest) rfl
  · rw [hdrop _ hlength]
    refine Goes.mono ?_ (List.drop_suffix (leadingRun rest).length rest)
    refine (reads_comparison _ ht more _).bind fun op rest => ?_
    exact (reads_rightSide op ht more rest).bind fun _ _ => .ok List.suffix_rfl

theorem isAnd_eq (t : Token) (ht : t.Stray) : Grammar.isAnd t = false := by
  rw [Grammar.isAnd, ht.isKeyword_eq, ht.isOperation_eq (by decide), Bool.or_false]

theorem isOr_eq (t : Token) (ht : t.Stray) : Grammar.isOr t = false := by
  rw [Grammar.isOr, ht.isKeyword_eq, ht.isOperation_eq (by decide), Bool.or_false]

theorem reads_conjunction {item : Parser Expr} (hitem : Reads item) : Reads (conjunction item) :=
  (reads_sepBy hitem isAnd_eq).bind fun _ => reads_here _

theorem reads_disjunction {item : Parser Expr} (hitem : Reads item) : Reads (disjunction item) :=
  (reads_sepBy (reads_conjunction hitem) isOr_eq).bind fun _ => reads_here _

def parenthesised (item : Parser Expr) (opening : Token) : Parser Expr := fun tokens => do
  let (inner, rest) ← disjunction item tokens
  let (closing, rest) ← expect .expectingRightBracket (operation? ")") rest
  return (inner.withMark ⟨opening.span.cover closing.span, true⟩, rest)

theorem reads_parenthesised {item : Parser Expr} (hitem : Reads item) (opening : Token) :
    Reads (parenthesised item opening) :=
  (reads_disjunction hitem).bind fun _ => (reads_closing rfl).bind fun _ => reads_here _

/-- A stray token ends an operand, at every depth. -/
theorem reads_operand (budget : Nat) : Reads (operand budget) := by
  have hopens : Finds (operation? "(") := finds_operation (by decide)
  induction budget with
  | zero =>
      intro t ht more tokens
      unfold operand
      rw [leading?_append ht]
      cases hleading : leading? tokens with
      | some next => exact .fail _ (suffix_of_leading? hleading) rfl
      | none =>
          simp only [Option.map_none]
          rw [hopens.append ht more tokens]
          cases hopening : operation? "(" tokens with
          | some opening => exact .fail _ (hopens.suffix hopening) rfl
          | none => exact reads_condition? ht more tokens
  | succ budget ih =>
      intro t ht more tokens
      unfold operand
      rw [leading?_append ht]
      cases hleading : leading? tokens with
      | some next =>
          refine Goes.mono ?_ (suffix_of_leading? hleading)
          exact (ih ht more next.2.2).bind fun _ _ => .ok List.suffix_rfl
      | none =>
          simp only [Option.map_none]
          rw [hopens.append ht more tokens]
          cases hopening : operation? "(" tokens with
          | some opening =>
              refine Goes.mono ?_ (hopens.suffix hopening)
              exact reads_parenthesised ih opening.1 ht more opening.2
          | none => exact reads_condition? ht more tokens

theorem reads_filter : Reads filter :=
  reads_disjunction (reads_operand maxNesting)

end Expr

namespace Select

def directed (field : FieldRef) : Parser FieldRef := fun tokens =>
  match keyword? "asc" tokens with
  | some (word, rest) =>
      .ok ({ field with direction := .ascending, span := field.span.cover word.span }, rest)
  | none =>
      match keyword? "desc" tokens with
      | some (word, rest) =>
          .ok ({ field with direction := .descending, span := field.span.cover word.span }, rest)
      | none => .ok (field, tokens)

theorem reads_directed (field : FieldRef) : Reads (directed field) := by
  intro t ht more tokens
  unfold directed
  rw [(finds_keyword "asc").append ht more tokens, (finds_keyword "desc").append ht more tokens]
  cases hasc : keyword? "asc" tokens with
  | some found => exact .ok ((finds_keyword "asc").suffix hasc)
  | none =>
      cases hdesc : keyword? "desc" tokens with
      | some found => exact .ok ((finds_keyword "desc").suffix hdesc)
      | none => exact .ok List.suffix_rfl

theorem reads_listItem (kind : FieldListKind) : Reads (listItem kind) := by
  cases kind with
  | order => exact (Expr.finds_fieldRef?.reads rfl).bind reads_directed
  | _ => exact Expr.finds_fieldRef?.reads rfl

theorem reads_fieldList (kind : FieldListKind) : Reads (fieldList kind) :=
  (reads_sepBy (reads_listItem kind) isComma_eq).bind fun _ => reads_here _

theorem reads_tableRef? {cause : Fault} (hcause : cause.isRepetition = false) :
    Reads (expect cause tableRef?) :=
  ((finds_token fun _ => Token.Stray.isName_eq).map fun t =>
    ({ name := t.value, span := t.span } : TableRef)).reads hcause

theorem reads_modeItem? {cause : Fault} (hcause : cause.isRepetition = false) :
    Reads (expect cause modeItem?) :=
  ((finds_token fun _ => Token.Stray.isName_eq).map fun t =>
    ModeItem.mk t.value t.span).reads hcause

theorem reads_modeList : Reads modeList :=
  reads_bracketed (reads_modeItem? rfl) _

section Clauses

variable {t : Token} {tokens tail : List Token}

theorem goes_once {α β : Type} {earlier : Option β} {cause : Fault} {word : Token}
    {others : List Token} {f g : Unit → Except Error (α × List Token)}
    (hword : word :: others <:+ tokens)
    (hnext : Goes (fun cause => cause.isRepetition = false) others tail (f ()) (g ())) :
    Goes (fun _ => True) tokens tail (once earlier cause word >>= f)
      (once earlier cause word >>= g) := by
  unfold once Error.ensure
  cases earlier.isNone with
  | true => exact hnext.anyReason.mono ((List.suffix_cons word others).trans hword)
  | false => exact .fail cause hword

/-- What goes on after `by` may fail at this word again. -/
theorem goes_by (ht : t.Stray) (more : List Token) {α : Type}
    {f : Token × List Token → Except Error (α × List Token)}
    (hf : ∀ word rest, tokens = word :: rest →
      Goes (fun _ => True) tokens (t :: more) (f (word, rest)) (f (word, rest ++ t :: more))) :
    Goes (fun _ => True) tokens (t :: more) (expect .expectingBy (keyword? "by") tokens >>= f)
      (expect .expectingBy (keyword? "by") (tokens ++ t :: more) >>= f) := by
  unfold expect
  rw [(finds_keyword "by").append ht more tokens]
  cases hread : keyword? "by" tokens with
  | none => exact .fail _ (List.suffix_refl tokens)
  | some found => exact hf found.1 found.2 (keyword?_eq_some_iff.mp hread).1

theorem goes_clause (ht : t.Stray) (more : List Token) (query : Select) (word : Token)
    (kind : ClauseKind) (tokens : List Token) :
    Goes (fun _ => True) (word :: tokens) (t :: more) (clause query word kind tokens)
      (clause query word kind (tokens ++ t :: more)) := by
  have hself := List.suffix_refl (word :: tokens)
  have hrest := List.suffix_cons word tokens
  cases kind with
  | «from» => exact goes_once hself ((reads_tableRef? rfl ht more _).bind fun _ _ => .ok List.suffix_rfl)
  | «where» => exact goes_once hself ((Expr.reads_filter ht more _).bind fun _ _ => .ok List.suffix_rfl)
  | asOf =>
      exact goes_once hself
        ((Expr.finds_value?.reads rfl ht more _).bind fun _ _ => .ok List.suffix_rfl)
  | mode => exact goes_once hself ((reads_modeList ht more _).bind fun _ _ => .ok List.suffix_rfl)
  | group =>
      refine (goes_by ht more ?_).mono hrest
      rintro by_ others rfl
      exact goes_once (List.suffix_refl _)
        ((reads_fieldList .group ht more _).bind fun _ _ => .ok List.suffix_rfl)
  | order =>
      refine (goes_by ht more ?_).mono hrest
      rintro by_ others rfl
      exact goes_once (List.suffix_refl _)
        ((reads_fieldList .order ht more _).bind fun _ _ => .ok List.suffix_rfl)

/-- A stray token ends the clauses. -/
theorem goes_clauses (ht : t.Stray) (more : List Token) (query : Select) (tokens : List Token) :
    Goes (fun _ => True) tokens (t :: more) (clauses query tokens)
      (clauses query (tokens ++ t :: more)) := by
  induction hlength : tokens.length using Nat.strongRecOn generalizing tokens query with
  | ind length ih =>
      cases tokens with
      | nil =>
          have hnone : ClauseKind.ofToken? t = none := by
            simp [ClauseKind.ofToken?, ht.isKeyword_eq]
          rw [List.nil_append, clauses, clauses, hnone]
          exact .ok (List.suffix_refl [])
      | cons word others =>
          rw [List.cons_append, clauses, clauses]
          cases ClauseKind.ofToken? word with
          | none => exact .ok (List.suffix_refl _)
          | some kind =>
              refine (goes_clause ht more query word kind others).bind fun next rest => ?_
              have hsame : (rest ++ t :: more).length ≤ (others ++ t :: more).length ↔
                  rest.length ≤ others.length := by
                simp only [List.length_append]
                omega
              simp only [hsame]
              split
              · rename_i hshorter
                rw [List.length_cons] at hlength
                exact ih rest.length (by omega) next rest rfl
              · exact .fail _ (List.suffix_refl rest)

end Clauses

/-- A failure is at one of the tokens, or at their end, and then it would be at the first one
of `tail`. -/
def Fails {α : Type} (tokens tail : List Token) (x y : Except Error α) : Prop :=
  ∀ error, x = .error error → ∃ cause rest, rest <:+ tokens ∧
    error = .fault cause (rest.head?.map Token.span) ∧
    (rest = [] → y = .error (.fault cause (tail.head?.map Token.span)))

theorem Fails.of_bind {α β : Type} {reason : Fault → Prop} {tokens tail : List Token}
    {x y : Except Error (α × List Token)} {f g : α × List Token → Except Error β}
    (h : Goes reason tokens tail x y)
    (hnext : ∀ a rest, Fails rest tail (f (a, rest)) (g (a, rest ++ tail))) :
    Fails tokens tail (x >>= f) (y >>= g) := by
  intro error herror
  cases h with
  | ok hrest =>
      obtain ⟨cause, left, hleft, heq, hend⟩ := hnext _ _ error herror
      exact ⟨cause, left, hleft.trans hrest, heq, hend⟩
  | @error cause rest _ hrest =>
      cases herror
      exact ⟨cause, rest, hrest, rfl, fun h => by rw [h]; rfl⟩

/-- A query that cannot be read fails at one of its tokens or at their end, and in the second
case at any stray token that comes next. -/
theorem fails_ofTokens (tokens : List Token) {t : Token} (ht : t.Stray) (more : List Token) :
    Fails tokens (t :: more) (ofTokens tokens) (ofTokens (tokens ++ t :: more)) := by
  have hstars : Finds (operation? "*") := finds_operation (by decide)
  refine Fails.of_bind ((finds_keyword "select").reads rfl ht more tokens) fun word rest => ?_
  have hclauses : ∀ columns rest (span span' : Span), Fails rest (t :: more) (do
      let read ← clauses { columns } rest
      unless isTail read.2 do fail .expectingEndOfString read.2
      return { read.1 with span }) (do
      let read ← clauses { columns } (rest ++ t :: more)
      unless isTail read.2 do fail .expectingEndOfString read.2
      return { read.1 with span := span' }) := by
    intro columns rest span span'
    refine Fails.of_bind (goes_clauses ht more _ rest) fun query rest error herror => ?_
    dsimp only at herror
    split at herror
    · cases herror
    · rename_i htail
      cases herror
      refine ⟨_, rest, List.suffix_refl rest, rfl, fun h => absurd ?_ htail⟩
      rw [h]
      rfl
  dsimp only
  rw [hstars.append ht more rest]
  cases hstar : operation? "*" rest with
  | some star =>
      intro error herror
      obtain ⟨cause, left, hleft, heq, hend⟩ := hclauses none star.2 _ _ error herror
      exact ⟨cause, left, hleft.trans (hstars.suffix hstar), heq, hend⟩
  | none =>
      exact Fails.of_bind (reads_fieldList .select ht more rest) fun list rest =>
        hclauses (some list) rest _ _

end Select

end TrackerQuery
