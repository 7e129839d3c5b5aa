import TrackerQuery.Proofs.BoundAgain
import TrackerQuery.Proofs.RoundTrip
import TrackerQuery.Proofs.WrittenClause

/-!
# The normal form of a filter

What simplification leaves of a filter is a single truth value or a clause in normal
form: lists are taken apart, macros and arithmetic have given way to values where they
can, and nothing around the conditions could be left out.
-/

namespace TrackerQuery

namespace Session

/-! ## Normal forms -/

/-- A macro that has no value in the session: the caller gives it none, and it is neither
the user nor the day. -/
structure LeavesOpen (session : Session) (v : Variable) : Prop where
  context : session.context.has v.name = false
  me : Text.sameIgnoringCase v.name "me" = false
  today : Text.sameIgnoringCase v.name "today" = false

/-- The right sides of conditions in normal form. -/
inductive NormalValue (session : Session) : Expr → Prop
  | string {m value} : NormalValue session (.string m value)
  | number {m value} : NormalValue session (.number m value)
  | boolean {m value} : NormalValue session (.boolean m value)
  | field {m f} : NormalValue session (.field m f)
  | var {m v} (hopen : session.LeavesOpen v) : NormalValue session (.var m v)
  | arithmetic {m op left right type} (hleft : NormalValue session left)
      (hright : NormalValue session right) : NormalValue session (.arithmetic m op left right type)

/-- A clause in normal form: no truth value, no list, and two operands at least in every
`and` and `or`; no `not` directly under `not`, and under `ever` a condition; arithmetic
stays only where it is compared with neither a number nor a date. -/
inductive Normal (session : Session) : Expr → Prop
  | boolean {m value} : Normal session (.boolean m value)
  | field {m f} : Normal session (.field m f)
  | condition {m op left right} (hop : op ≠ .oneOf) (hright : session.NormalValue right)
      (hcarried : ∀ m' op' a b type, right = .arithmetic m' op' a b type →
        left.type ≠ .numeric ∧ left.type ≠ .date) :
      Normal session (.condition m op left right)
  | junction {m connective operands} (hmany : 2 ≤ operands.length)
      (hall : ∀ operand ∈ operands, Normal session operand) :
      Normal session (.junction m connective operands)
  | not {m operand} (hoperand : Normal session operand)
      (hsingle : ∀ m' e, operand ≠ .not m' e) : Normal session (.not m operand)
  | ever {m m' op left right} (hcondition : Normal session (.condition m' op left right)) :
      Normal session (.ever m (.condition m' op left right))

end Session

/-! ## Right sides without lists -/

namespace Expr

def isPlain : Expr → Bool
  | .string .. | .number .. | .boolean .. | .var .. | .field .. => true
  | .arithmetic _ _ left right _ => left.isPlain && right.isPlain
  | _ => false

/-- A list stands to the right of `in` only. -/
def isPlainRight (op : Comparison) : Expr → Bool
  | .list _ items => op == .oneOf && items.all isPlain
  | e => e.isPlain

/-- Lists stand to the right of `in` only, and truth values only where a clause may. -/
def isPlainPart : Expr → Bool
  | .condition _ op _ right => right.isPlainRight op
  | .list .. => false
  | _ => true

theorem isPlainRight_of_isPlain {op : Comparison} {e : Expr} (he : e.isPlain = true) :
    e.isPlainRight op = true := by
  cases e with
  | list m items => cases he
  | _ => exact he

theorem isPlainRight_list_iff {op : Comparison} {m : Mark} {items : List Expr} :
    (Expr.list m items).isPlainRight op = true ↔
      op = .oneOf ∧ ∀ item ∈ items, item.isPlain = true := by
  simp [isPlainRight]

theorem isPlain_of_printableSum {n : Nat} (e : Expr) (he : PrintableSum n e.unresolved) :
    e.isPlain = true := by
  induction e generalizing n with
  | arithmetic m op left right type ihleft ihright =>
      rw [unresolved] at he
      cases he with
      | value he => cases he
      | arithmetic _ hleft hright =>
          exact Bool.and_eq_true_iff.mpr ⟨ihleft hleft, ihright (.value (n := 0) hright)⟩
  | string | number | boolean | var | field => rfl
  | _ =>
      rw [unresolved] at he
      cases he with
      | value he => cases he

/-- A list that was read from a text stands to the right of `in`. -/
theorem isPlainRight_of_written {op : Comparison} {left : FieldRef} {right : Expr}
    (h : Written op left right) : right.isPlainRight op = true := by
  obtain ⟨-, -, -, hright⟩ := h
  generalize heq : right.unresolved = e at hright
  cases hright with
  | value hop he =>
      subst heq
      exact isPlainRight_of_isPlain (isPlain_of_printableSum (n := 0) right (.value he))
  | sum hop he =>
      subst heq
      exact isPlainRight_of_isPlain (isPlain_of_printableSum right he)
  | list hitems hall =>
      cases right with
      | list m items =>
          rw [unresolved, unresolvedAll_eq_map] at heq
          cases heq
          exact isPlainRight_list_iff.mpr ⟨rfl, fun item hitem =>
            isPlain_of_printableSum item (hall _ (List.mem_map_of_mem hitem))⟩
      | _ => cases heq
  | field hop hfield hdirection =>
      cases right with
      | field m f => rfl
      | _ => cases heq

end Expr

namespace Session

variable {session : Session} {again : Reduction} {scope : Scope}

theorem isPlain_of_simplifyWith {e s : Expr} (he : e.isPlain = true)
    (hsimplify : Expr.simplifyWith (session.reduce again) scope e = .ok s) : s.isPlain = true := by
  induction e generalizing s with
  | string | number | boolean | field =>
      cases hsimplify
      rfl
  | var m v =>
      cases hsimplify
      obtain ⟨_, _, hs⟩ | ⟨_, _, hs⟩ | hs := session.inlineVariable_cases m v <;> rw [hs] <;> rfl
  | arithmetic m op left right type ihleft ihright =>
      obtain ⟨hleft, hright⟩ := Bool.and_eq_true_iff.mp he
      obtain ⟨left', hleft', hsimplify⟩ := bind_eq_ok_iff.mp hsimplify
      obtain ⟨right', hright', hfold⟩ := bind_eq_ok_iff.mp hsimplify
      obtain ⟨_, _, rfl⟩ | ⟨_, _, rfl⟩ | rfl := foldArithmetic_eq_ok hfold
      · rfl
      · rfl
      · exact Bool.and_eq_true_iff.mpr ⟨ihleft hleft hleft', ihright hright hright'⟩
  | _ => cases he

theorem lasting_plainRight :
    session.Lasting scope fun op _ right => right.isPlainRight op = true where
  value {again op left right value} hright hsimplify := by
    cases right with
    | list m items =>
        obtain ⟨rfl, hall⟩ := Expr.isPlainRight_list_iff.mp hright
        obtain ⟨items', hitems, hreduce⟩ := bind_eq_ok_iff.mp hsimplify
        cases hreduce
        refine Expr.isPlainRight_list_iff.mpr ⟨rfl, Expr.forall_of_simplifyAll ?_ hitems⟩
        intro item hitem s hs
        exact isPlain_of_simplifyWith (hall item hitem) hs
    | _ => exact Expr.isPlainRight_of_isPlain (isPlain_of_simplifyWith hright hsimplify)
  item hright hitem :=
    Expr.isPlainRight_of_isPlain ((Expr.isPlainRight_list_iff.mp hright).2 _ hitem)
  project _ _ := rfl
  day _ _ := ⟨rfl, rfl⟩

/-! ## Values that stand for themselves -/

/-- A macro that stands for itself has no value. -/
theorem leavesOpen_of_settled {m : Mark} {v : Variable}
    (hresolved : (Expr.var m v).Resolved session.schema scope)
    (hsettled : session.Settled scope (.var m v)) : session.LeavesOpen v := by
  obtain ⟨⟨⟨target, left⟩, hfind, htarget, -⟩, -⟩ := hresolved
  have hstays : session.inlineVariable m v = .var m v := Option.some.inj hsettled
  have hcontext : session.context.has target = false := by
    cases hlookup : session.context.lookup target with
    | none => rw [Context.has, hlookup, Option.isSome_none]
    | some value =>
        simp only [inlineVariable, htarget, hlookup] at hstays
        cases value <;> cases hstays
  have hbuiltIn : target ≠ "me" ∧ target ≠ "today" := by
    have hlookup : session.context.lookup target = none := Option.not_isSome_iff_eq_none.mp (by
      rw [← Context.has, hcontext]
      decide)
    simp only [inlineVariable, htarget, hlookup] at hstays
    constructor
    · rintro rfl
      cases hstays
    · rintro rfl
      cases hstays
  change session.findVariable v.name = some ⟨target, left⟩ at hfind
  unfold findVariable at hfind
  split at hfind
  · rename_i hgiven
    cases hfind
    rw [hgiven] at hcontext
    cases hcontext
  · rename_i hgiven
    split at hfind
    · cases hfind
      exact absurd rfl hbuiltIn.1
    · rename_i hme
      split at hfind
      · cases hfind
        exact absurd rfl hbuiltIn.2
      · rename_i htoday
        exact ⟨Bool.eq_false_iff.mpr hgiven, Bool.eq_false_iff.mpr hme,
          Bool.eq_false_iff.mpr htoday⟩

theorem normalValue_of_settled {e : Expr} (hplain : e.isPlain = true)
    (hresolved : e.Resolved session.schema scope) (hsettled : session.Settled scope e) :
    session.NormalValue e := by
  induction e with
  | string => exact .string
  | number => exact .number
  | boolean => exact .boolean
  | field => exact .field
  | var m v => exact .var (leavesOpen_of_settled hresolved hsettled)
  | arithmetic m op left right type ihleft ihright =>
      obtain ⟨hplainLeft, hplainRight⟩ := Bool.and_eq_true_iff.mp hplain
      obtain ⟨hsettledLeft, hsettledRight⟩ := settled_of_arithmetic hsettled
      obtain ⟨hleft, hright, -⟩ := hresolved.1
      exact .arithmetic (ihleft hplainLeft hleft hsettledLeft)
        (ihright hplainRight hright hsettledRight)
  | _ => cases hplain

/-- Arithmetic that stands for itself is compared with neither a number nor a date. -/
theorem fieldType_of_settled {left : FieldRef} {m : Mark} {op : Arithmetic} {a b : Expr}
    {type : DataType}
    (hsettled : session.Settled (scope.withField left) (.arithmetic m op a b type)) :
    left.type ≠ .numeric ∧ left.type ≠ .date := by
  obtain ⟨a', -, hsettled⟩ := Option.bind_eq_some_iff.mp hsettled
  obtain ⟨b', -, hsettled⟩ := Option.bind_eq_some_iff.mp hsettled
  obtain ⟨-, fieldType, hfield, hdate, hnumeric⟩ :=
    foldArithmetic_stays (toOption_eq_some_iff.mp hsettled)
  cases hfield
  exact ⟨hnumeric, hdate⟩

/-! ## Clauses -/

def NormalPart (session : Session) (scope : Scope) (e : Expr) : Prop :=
  session.Tidy scope True (fun op _ right => right.isPlainRight op = true) e ∧
    session.Ruled scope False e ∧ e.everOverCondition

/-- A clause whose parts are normal is normal, truth values apart. -/
theorem normal_of_normalPart {e : Expr} (he : e.Everywhere (session.NormalPart scope))
    (htruth : e.truth? = none) : session.Normal e := by
  induction e with
  | condition m op left right =>
      obtain ⟨⟨hop, -, hplain⟩, hruled, -⟩ := he
      have hright : right.isPlain = true := by
        cases right with
        | list m items => exact absurd (Expr.isPlainRight_list_iff.mp hplain).1 hop
        | _ => exact hplain
      refine .condition hop (normalValue_of_settled hright hruled.value hruled.settled) ?_
      rintro m' op' a b type rfl
      exact fieldType_of_settled hruled.settled
  | junction m connective operands ih =>
      obtain ⟨⟨⟨hmany, htruths⟩, -⟩, hoperands⟩ := he
      refine .junction hmany fun operand hoperand => ?_
      exact ih operand hoperand (Expr.allEverywhere_iff.mp hoperands operand hoperand)
        (htruths operand hoperand)
  | not m operand ih =>
      obtain ⟨⟨⟨htruth, hsingle⟩, -⟩, hoperand⟩ := he
      exact .not (ih hoperand htruth) hsingle
  | ever m operand ih =>
      obtain ⟨⟨htruth, -, hever⟩, hoperand⟩ := he
      have hnormal := ih hoperand htruth
      cases operand with
      | condition m' op left right => exact .ever hnormal
      | _ => exact hever.elim
  | truth m value => cases htruth
  | boolean m value => exact .boolean
  | field m f => exact .field
  | _ => exact he.1.elim

/-- Of the values only literals and fields are true or false, and lists of these. -/
theorem madeOf_of_isPlainPart {e : Expr} (hresolved : e.Resolved session.schema scope)
    (htype : e.dataType = .bool) (he : e.isPlainPart = true) :
    Expr.MadeOf True (fun op _ right => right.isPlainRight op = true) e := by
  cases e with
  | condition m op left right => exact he
  | var m v =>
      obtain ⟨found, -, -, hv⟩ := hresolved.1
      exact absurd (hv.symm.trans htype) (variableType_ne_bool found.target)
  | arithmetic m op left right type => exact absurd htype (arithmeticType_ne_bool hresolved)
  | list m items => cases he
  | string m value | number m value => cases htype
  | _ => trivial

/-- A resolved clause whose lists stand to the right of `in` is simplified to a truth value
or to normal form. -/
theorem normal_of_simplify {e s : Expr} (hresolved : e.Resolved session.schema scope)
    (htype : e.dataType = .bool) (hplain : e.Everywhere (·.isPlainPart = true))
    (hsimplify : session.simplify scope e = .ok s) :
    (∃ m value, s = .truth m value) ∨ session.Normal s := by
  have hparts := (Expr.everywhere_of_resolved (fun _ => And.intro) e hresolved
    ⟨hresolved, htype⟩).and hplain
  have hmade := hparts.imp fun _ h => madeOf_of_isPlainPart h.1.1 h.1.2 h.2
  have htidy := everywhere_tidy_of_simplify lasting_plainRight hresolved hmade hsimplify
  have hruled : s.Everywhere (session.Ruled scope False) :=
    everywhere_ruled_of_simplify hresolved htype False.elim hsimplify
  have hever := everywhere_everOverCondition_of_simplify hresolved hsimplify
  cases s with
  | truth m value => exact .inl ⟨m, value, rfl⟩
  | _ => exact .inr (normal_of_normalPart (htidy.and (hruled.and hever)) rfl)

/-- The clauses that are read from a text are plain. -/
theorem isPlainPart_of_madeOf {e : Expr} (he : Expr.MadeOf False Expr.Written e) :
    e.isPlainPart = true := by
  cases e with
  | condition m op left right => exact Expr.isPlainRight_of_written he
  | list m items => cases he
  | _ => rfl

end Session

/-- A clause that has been resolved is simplified to a single truth value or to normal form,
if its lists stand to the right of `in` and if no truth value stands in the place of a value.
So it is with every clause that is read from a text. -/
theorem Session.simplify_normalizes (session : Session) :
    (∀ (scope : Scope) (clause bound simplified : Expr),
      (clause.bind session.schema scope).toExcept = .ok bound → bound.dataType = .bool →
      bound.Everywhere (·.isPlainPart = true) → session.simplify scope bound = .ok simplified →
        (∃ m value, simplified = .truth m value) ∨ session.Normal simplified) ∧
    ∀ (text : String) (optimized : Select) (filter : Expr),
      session.optimize text = .ok optimized → optimized.filter = some filter →
        (∃ m value, filter = .truth m value) ∨ session.Normal filter := by
  constructor
  · intro scope clause bound simplified hbind htype hplain hsimplify
    exact normal_of_simplify (Expr.resolved_of_bind hbind) htype hplain hsimplify
  · intro text optimized filter hoptimize hfilter
    obtain ⟨scope, bound, hresolved, htype, hwritten, hsimplify⟩ :=
      optimize_written hoptimize hfilter
    exact normal_of_simplify hresolved htype (hwritten.imp fun _ => isPlainPart_of_madeOf) hsimplify

/-- A literal beside a list of macros, and a text: a list with arithmetic that stays and with
a macro that is left to the server, a double negation, a condition that always holds, and the
user under `ever`. -/
theorem Session.simplify_normalizes_macros :
    ∃ session bound simplified optimized filter,
      let compiler : Compiler :=
        { catalog := { Catalog.core with currentUser := "Jane" },
          settings := { serverSideMacros := true } }
      let clause : Expr := .junction {} .or [.boolean {} true,
        .condition {} .oneOf { name := "System.Title" } (.list {} [.var {} { name := "me" }])]
      let text := "select * from WorkItems where [System.Title] in ('5' + 1, @other) " ++
        "and not not ([System.Title] <> '' or [System.Title] = '') " ++
        "and ever [Assigned To] = @me and [System.State] <> ''"
      compiler.session = .ok session ∧
      ((clause.bind session.schema {}).toExcept = .ok bound ∧ bound.dataType = .bool ∧
        bound.Everywhere (·.isPlainPart = true) ∧ session.simplify {} bound = .ok simplified ∧
        ((∃ m value, simplified = .truth m value) ∨ session.Normal simplified)) ∧
      session.optimize text = .ok optimized ∧ optimized.filter = some filter ∧
      ((∃ m value, filter = .truth m value) ∨ session.Normal filter) := by
  have hcompiles : (do
      let compiler : Compiler :=
        { catalog := { Catalog.core with currentUser := "Jane" },
          settings := { serverSideMacros := true } }
      let clause : Expr := .junction {} .or [.boolean {} true,
        .condition {} .oneOf { name := "System.Title" } (.list {} [.var {} { name := "me" }])]
      let text := "select * from WorkItems where [System.Title] in ('5' + 1, @other) " ++
        "and not not ([System.Title] <> '' or [System.Title] = '') " ++
        "and ever [Assigned To] = @me and [System.State] <> ''"
      let session ← compiler.session.toOption
      let bound ← (clause.bind session.schema {}).toExcept.toOption
      guard (bound.dataType = DataType.bool ∧ bound.Everywhere (·.isPlainPart = true))
      let simplified ← (session.simplify {} bound).toOption
      let optimized ← (session.optimize text).toOption
      let filter ← optimized.filter
      return (simplified, filter)).isSome = true := by
    decide +kernel
  obtain ⟨_, hcompiles⟩ := Option.isSome_iff_exists.mp hcompiles
  obtain ⟨session, hsession, hcompiles⟩ := toOption_bind_eq_some_iff.mp hcompiles
  obtain ⟨bound, hbind, hcompiles⟩ := toOption_bind_eq_some_iff.mp hcompiles
  obtain ⟨_, hguard, hcompiles⟩ := Option.bind_eq_some_iff.mp hcompiles
  obtain ⟨simplified, hsimplify, hcompiles⟩ := toOption_bind_eq_some_iff.mp hcompiles
  obtain ⟨optimized, hoptimize, hcompiles⟩ := toOption_bind_eq_some_iff.mp hcompiles
  obtain ⟨filter, hfilter, -⟩ := Option.bind_eq_some_iff.mp hcompiles
  obtain ⟨htype, hplain⟩ := guard_eq_some_iff.mp hguard
  exact ⟨session, bound, simplified, optimized, filter, hsession,
    ⟨hbind, htype, hplain, hsimplify,
      session.simplify_normalizes.1 {} _ bound simplified hbind htype hplain hsimplify⟩,
    hoptimize, hfilter, session.simplify_normalizes.2 _ optimized filter hoptimize hfilter⟩

def Expr.equalsList? : Expr → Option (Mark × FieldRef × Mark × List Expr)
  | .condition m .equals left (.list listMark items) => some (m, left, listMark, items)
  | _ => none

/-- A list that stands to the right of `=` can be resolved, and simplification leaves it. -/
theorem Session.simplify_keeps_list :
    ∃ session bound m left listMark items,
      let compiler : Compiler := {}
      let clause : Expr := .condition {} .equals { name := "System.Title" }
        (.list {} [.string {} "a", .string {} "b"])
      let simplified : Expr := .condition m .equals left (.list listMark items)
      compiler.session = .ok session ∧ (clause.bind session.schema {}).toExcept = .ok bound ∧
      bound.dataType = .bool ∧ session.simplify {} bound = .ok simplified ∧
      ¬ session.Normal simplified := by
  have hcompiles : (do
      let compiler : Compiler := {}
      let clause : Expr := .condition {} .equals { name := "System.Title" }
        (.list {} [.string {} "a", .string {} "b"])
      let session ← compiler.session.toOption
      let bound ← (clause.bind session.schema {}).toExcept.toOption
      guard (bound.dataType = DataType.bool)
      let simplified ← (session.simplify {} bound).toOption
      simplified.equalsList?).isSome = true := by
    decide +kernel
  obtain ⟨⟨m, left, listMark, items⟩, hcompiles⟩ := Option.isSome_iff_exists.mp hcompiles
  obtain ⟨session, hsession, hcompiles⟩ := toOption_bind_eq_some_iff.mp hcompiles
  obtain ⟨bound, hbind, hcompiles⟩ := toOption_bind_eq_some_iff.mp hcompiles
  obtain ⟨_, hguard, hcompiles⟩ := Option.bind_eq_some_iff.mp hcompiles
  obtain ⟨simplified, hsimplify, hshape⟩ := toOption_bind_eq_some_iff.mp hcompiles
  unfold Expr.equalsList? at hshape
  split at hshape
  · cases hshape
    refine ⟨session, bound, m, left, listMark, items, hsession, hbind,
      guard_eq_some_iff.mp hguard, hsimplify, ?_⟩
    rintro (_ | _ | ⟨-, hvalue, -⟩)
    cases hvalue
  · cases hshape

end TrackerQuery
