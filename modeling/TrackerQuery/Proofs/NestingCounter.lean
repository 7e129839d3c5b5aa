import TrackerQuery.Expr.Parse

/-!
# Counting the open levels

A reader of filters can keep count of the levels that are open: it counts one up before it
reads what stands in a level, and one down after that.  The readers of this file do so, and
stop where they would count below zero.  They are shown to be the readers that pass on what
is left of `maxNesting`, so the count is the same before and after everything that is read.
-/

namespace TrackerQuery

open TrackerQuery.Parser

/-- An operand that no operator leads: something in parentheses, or a condition. -/
def Expr.bareOperand (budget : Nat) : Parser Expr := fun tokens =>
  match operation? "(" tokens with
  | some (opening, rest) =>
      match budget with
      | 0 => fail .tooComplexExpression rest
      | budget + 1 => do
          let (inner, rest) ← disjunction (operand budget) rest
          let (closing, rest) ← expect .expectingRightBracket (operation? ")") rest
          return (inner.withMark ⟨opening.span.cover closing.span, true⟩, rest)
  | none => condition? tokens

theorem Expr.operand_of_leading?_eq_none (budget : Nat) {tokens : List Token}
    (hleading : leading? tokens = none) : operand budget tokens = bareOperand budget tokens := by
  rw [operand.eq_def]
  simp only [hleading]
  rfl

namespace Counted

inductive Halt where
  /-- The query is refused. -/
  | refused (error : Error)
  /-- A level is closed where none is open. -/
  | underflow
  /-- Operands are read inside each other without end. -/
  | endless

/-- Reads tokens with a number of open levels, and gives the number that is open then. -/
abbrev Reader (α : Type) := List Token → Nat → Except Halt (α × List Token × Nat)

def enter (rest : List Token) (depth : Nat) : Except Halt Nat :=
  if maxNesting < depth + 1 then
    .error (.refused (.fault .tooComplexExpression (rest.head?.map Token.span)))
  else .ok (depth + 1)

def leave : Nat → Except Halt Nat
  | 0 => .error .underflow
  | depth + 1 => .ok depth

/-- The outcome of a reader that does not count, with `depth` levels open. -/
def settle {α : Type} (depth : Nat) : Except Error (α × List Token) →
    Except Halt (α × List Token × Nat)
  | .ok (a, rest) => .ok (a, rest, depth)
  | .error error => .error (.refused error)

def flat {α : Type} (read : Parser α) : Reader α := fun tokens depth =>
  settle depth (read tokens)

def sepBy {α : Type} (item : Reader α) (separator : Token → Bool) : Reader (List α) :=
  fun tokens depth => do
    let (first, rest, depth) ← item tokens depth
    match token? separator rest with
    | none => return ([first], rest, depth)
    | some (_, rest) =>
        if rest.length < tokens.length then
          let (others, rest, depth) ← sepBy item separator rest depth
          return (first :: others, rest, depth)
        else
          flat (fail .expectingEndOfString) rest depth
termination_by tokens => tokens.length

def conjunction (operand : Reader Expr) : Reader Expr := fun tokens depth => do
  let (operands, rest, depth) ←
    sepBy operand (fun t => t.isKeyword "and" || t.isOperation "&&") tokens depth
  return (Expr.joined .and operands, rest, depth)

def disjunction (operand : Reader Expr) : Reader Expr := fun tokens depth => do
  let (operands, rest, depth) ←
    sepBy (conjunction operand) (fun t => t.isKeyword "or" || t.isOperation "||") tokens depth
  return (Expr.joined .or operands, rest, depth)

def condition (operand : Reader Expr) : Reader Expr := fun tokens depth =>
  match operation? "(" tokens with
  | some (opening, rest) => do
      let depth ← enter rest depth
      let (inner, rest, depth) ← disjunction operand rest depth
      let depth ← leave depth
      let (closing, rest, depth) ←
        flat (expect .expectingRightBracket (operation? ")")) rest depth
      return (inner.withMark ⟨opening.span.cover closing.span, true⟩, rest, depth)
  | none => flat Expr.condition? tokens depth

def operandOver (operand : Reader Expr) : Reader Expr := fun tokens depth =>
  match Expr.leading? tokens with
  | some (leading, span, rest) => do
      let depth ← enter rest depth
      let (inner, rest, depth) ← operand rest depth
      let depth ← leave depth
      return ((leading.apply inner).withSpan (span.cover inner.span), rest, depth)
  | none => condition operand tokens depth

/-- Operands of which at most `calls` are read inside each other. -/
def operand : (calls : Nat) → Reader Expr
  | 0 => fun _ _ => .error .endless
  | calls + 1 => operandOver (operand calls)

/-! ## Counting makes no difference -/

/-- With `depth` levels open, the reader does what `plain` does and leaves as many open. -/
def Tracks {α : Type} (read : Reader α) (plain : Parser α) (depth : Nat) : Prop :=
  ∀ tokens, read tokens depth = settle depth (plain tokens)

section Readers

variable {α : Type} {depth : Nat}

/-- Counting readers of items make counting readers of lists. -/
theorem Tracks.sepBy {item : Reader α} {plain : Parser α} (hitem : Tracks item plain depth)
    (separator : Token → Bool) :
    Tracks (Counted.sepBy item separator) (Parser.sepBy plain separator) depth := by
  intro tokens
  induction hlength : tokens.length using Nat.strongRecOn generalizing tokens with
  | ind length ih =>
      rw [Counted.sepBy, Parser.sepBy, hitem tokens]
      cases hfirst : plain tokens with
      | error error => rfl
      | ok found =>
          obtain ⟨first, rest⟩ := found
          simp only [settle, bind, Except.bind]
          cases token? separator rest with
          | none => rfl
          | some next =>
              obtain ⟨t, rest⟩ := next
              dsimp only
              split
              · rename_i hshorter
                rw [ih _ (hlength ▸ hshorter) rest rfl]
                cases Parser.sepBy plain separator rest with
                | error error => rfl
                | ok others => rfl
              · rfl

variable {read : Reader Expr} {plain : Parser Expr}

theorem Tracks.conjunction (hread : Tracks read plain depth) :
    Tracks (Counted.conjunction read) (Expr.conjunction plain) depth := by
  intro tokens
  rw [Counted.conjunction, Expr.conjunction, hread.sepBy]
  generalize Parser.sepBy plain _ tokens = outcome
  cases outcome with
  | error error => rfl
  | ok found => rfl

theorem Tracks.disjunction (hread : Tracks read plain depth) :
    Tracks (Counted.disjunction read) (Expr.disjunction plain) depth := by
  intro tokens
  rw [Counted.disjunction, Expr.disjunction, hread.conjunction.sepBy]
  generalize Parser.sepBy (Expr.conjunction plain) _ tokens = outcome
  cases outcome with
  | error error => rfl
  | ok found => rfl

end Readers

section Levels

variable {budget depth : Nat} {read : Reader Expr}

theorem enter_of_full {rest : List Token} (hdepth : depth = maxNesting) :
    enter rest depth =
      .error (.refused (.fault .tooComplexExpression (rest.head?.map Token.span))) :=
  if_pos (by omega)

theorem enter_of_lt {rest : List Token} (hdepth : depth < maxNesting) :
    enter rest depth = .ok (depth + 1) :=
  if_neg (by omega)

/-- What stands in a level is read with one level less to spare and one more open. -/
theorem Tracks.condition (hbudget : budget + depth = maxNesting)
    (hread : ∀ k, budget = k + 1 → Tracks read (Expr.operand k) (depth + 1)) :
    Tracks (Counted.condition read) (Expr.bareOperand budget) depth := by
  intro tokens
  rw [Counted.condition, Expr.bareOperand]
  cases operation? "(" tokens with
  | none => rfl
  | some found =>
      obtain ⟨opening, rest⟩ := found
      cases budget with
      | zero =>
          simp only [enter_of_full (show depth = maxNesting by omega)]
          rfl
      | succ budget =>
          simp only [enter_of_lt (show depth < maxNesting by omega), bind, Except.bind,
            (hread budget rfl).disjunction rest]
          cases Expr.disjunction (Expr.operand budget) rest with
          | error error => rfl
          | ok found =>
              obtain ⟨inner, rest⟩ := found
              simp only [settle, leave, flat]
              cases expect .expectingRightBracket (operation? ")") rest with
              | error error => rfl
              | ok found => rfl

/-- An operator opens one level for its operand. -/
theorem Tracks.operandOver (hbudget : budget + depth = maxNesting)
    (hread : ∀ k, budget = k + 1 → Tracks read (Expr.operand k) (depth + 1)) :
    Tracks (Counted.operandOver read) (Expr.operand budget) depth := by
  intro tokens
  cases hleading : Expr.leading? tokens with
  | none =>
      rw [Expr.operand_of_leading?_eq_none budget hleading, Counted.operandOver, hleading]
      exact Tracks.condition hbudget hread tokens
  | some found =>
      obtain ⟨leading, span, rest⟩ := found
      rw [Counted.operandOver, Expr.operand.eq_def]
      simp only [hleading]
      cases budget with
      | zero =>
          simp only [enter_of_full (show depth = maxNesting by omega)]
          rfl
      | succ budget =>
          simp only [enter_of_lt (show depth < maxNesting by omega), bind, Except.bind,
            hread budget rfl rest]
          cases Expr.operand budget rest with
          | error error => rfl
          | ok found => rfl

theorem tracks_operand {calls : Nat} (hbudget : budget + depth = maxNesting)
    (hcalls : budget < calls) : Tracks (operand calls) (Expr.operand budget) depth := by
  induction budget generalizing depth calls with
  | zero =>
      obtain ⟨calls, rfl⟩ := Nat.exists_eq_succ_of_ne_zero (Nat.ne_of_gt hcalls)
      exact .operandOver hbudget nofun
  | succ budget ih =>
      obtain ⟨calls, rfl⟩ := Nat.exists_eq_succ_of_ne_zero (Nat.ne_zero_of_lt hcalls)
      refine .operandOver hbudget fun k hk => ?_
      cases hk
      exact ih (by omega) (by omega)

/-- With `depth` levels open, every reader of filters does what it does with the levels
that are left. -/
structure Balanced (depth calls : Nat) : Prop where
  disjunction : Tracks (Counted.disjunction (Counted.operand calls))
    (Expr.disjunction (Expr.operand (maxNesting - depth))) depth
  conjunction : Tracks (Counted.conjunction (Counted.operand calls))
    (Expr.conjunction (Expr.operand (maxNesting - depth))) depth
  operand : Tracks (Counted.operand calls) (Expr.operand (maxNesting - depth)) depth
  condition : Tracks (Counted.condition (Counted.operand calls))
    (Expr.bareOperand (maxNesting - depth)) depth

theorem balanced {calls : Nat} (hdepth : depth ≤ maxNesting)
    (hcalls : maxNesting - depth < calls) : Balanced depth calls := by
  have hbudget : maxNesting - depth + depth = maxNesting := Nat.sub_add_cancel hdepth
  have hoperand := tracks_operand hbudget hcalls
  refine ⟨hoperand.disjunction, hoperand.conjunction, hoperand, .condition hbudget fun k hk => ?_⟩
  exact tracks_operand (by omega) (by omega)

end Levels

end Counted

end TrackerQuery
