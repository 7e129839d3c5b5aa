import TrackerQuery.Proofs.RoundTrip
import TrackerQuery.Proofs.SimplifiedConditions
import TrackerQuery.Proofs.SpelledOut
import TrackerQuery.Proofs.Stages

/-!
# Resolved clauses as they were written

Resolving fills in what names stand for and leaves the rest of a clause alone.  Without
what was filled in, every condition of a clause that was read from a text is one that can
be printed and read back.
-/

namespace TrackerQuery

instance Scan.decidableIsBracketable (cs : List Char) : Decidable (Scan.IsBracketable cs) :=
  decidable_of_iff ((cs != [] && cs.all (· != ']') && Text.trimChars cs == cs) = true) (by
    simp only [Bool.and_eq_true, bne_iff_ne, List.all_eq_true, beq_iff_eq]
    exact ⟨fun h => ⟨h.1.1, h.1.2, h.2⟩, fun h => ⟨⟨h.nonempty, h.closed⟩, h.trimmed⟩⟩)

def FieldRef.unresolved (field : FieldRef) : FieldRef :=
  { field with id := none, type := .unknown }

namespace Expr

mutual

def unresolved : Expr → Expr
  | .string m value => .string m value
  | .number m value => .number m value
  | .boolean m value => .boolean m value
  | .truth m value => .truth m value
  | .var m v => .var m { name := v.name }
  | .field m f => .field m f.unresolved
  | .list m items => .list m (unresolvedAll items)
  | .condition m op left right => .condition m op left.unresolved right.unresolved
  | .arithmetic m op left right _ => .arithmetic m op left.unresolved right.unresolved .unknown
  | .junction m connective operands => .junction m connective (unresolvedAll operands)
  | .not m operand => .not m operand.unresolved
  | .ever m operand => .ever m operand.unresolved

def unresolvedAll : List Expr → List Expr
  | [] => []
  | e :: es => e.unresolved :: unresolvedAll es

end

theorem unresolvedAll_eq_map (es : List Expr) : unresolvedAll es = es.map unresolved := by
  induction es with
  | nil => rfl
  | cons e es ih => rw [unresolvedAll, ih, List.map_cons]

/-- A condition that can be printed and read back, apart from what resolving fills in. -/
structure Written (op : Comparison) (left : FieldRef) (right : Expr) : Prop where
  field : left.unresolved.Printable
  direction : left.direction = .unspecified
  operator : op ≠ .missing
  right : PrintableRight op right.unresolved

variable {schema : Schema} {scope : Scope}

/-! ## Values -/

theorem unresolved_of_bind_value {e bound : Expr} (he : PrintableValue e)
    (hbind : (e.bind schema scope).toExcept = .ok bound) : bound.unresolved = e := by
  obtain ⟨hparts, -⟩ := Attempt.check_eq_ok_iff.mp hbind
  cases he with
  | string | number | boolean =>
      cases hparts
      rfl
  | var hname =>
      unfold bindParts bindVariable at hparts
      split at hparts
      · cases hparts
      · cases hparts
        rfl

theorem unresolved_of_bind_sum {n : Nat} {e bound : Expr} (he : PrintableSum n e)
    (hbind : (e.bind schema scope).toExcept = .ok bound) : bound.unresolved = e := by
  induction he generalizing bound with
  | value he => exact unresolved_of_bind_value he hbind
  | arithmetic hop hleft hright ih =>
      obtain ⟨hparts, -⟩ := Attempt.check_eq_ok_iff.mp hbind
      rw [toExcept_bindParts_arithmetic] at hparts
      simp only [bind_eq_ok_iff, pure_eq_ok_iff] at hparts
      obtain ⟨left', hleft', right', hright', -, -, rfl⟩ := hparts
      rw [unresolved, ih hleft', unresolved_of_bind_value hright hright']

end Expr

namespace Session

variable {session : Session} {scope : Scope}

/-! ## Conditions -/

/-- The qualifiers that resolving gives fit between brackets. -/
theorem isBracketable_of_resolved {field : FieldRef}
    (hfield : field.Resolved session.schema scope) :
    ∀ qualifier ∈ field.qualifier, Scan.IsBracketable qualifier.toList := by
  obtain ⟨definition, -, -, hqualifies⟩ := knows_of_resolved hfield
  have hsource : Scan.IsBracketable sourceQualifier.toList := by decide
  have htarget : Scan.IsBracketable targetQualifier.toList := by decide
  intro qualifier hqualifier
  unfold Qualifies at hqualifies
  split at hqualifies
  · obtain hside | hside := hqualifies
    · cases hside.symm.trans hqualifier
      exact hsource
    · cases hside.symm.trans hqualifier
      exact htarget
  · cases hqualifies.symm.trans hqualifier

theorem name_of_bind {field bound : FieldRef}
    (hbind : (field.bind session.schema scope).toExcept = .ok bound) :
    bound.name = field.name ∧ bound.direction = field.direction := by
  unfold FieldRef.bind at hbind
  split at hbind
  · cases hbind
  · dsimp only at hbind
    split at hbind
    · cases hbind
      exact ⟨rfl, rfl⟩
    · cases hbind

/-- A resolved field can be written if its name can. -/
theorem printable_unresolved_of_bind {field bound : FieldRef}
    (hname : Scan.IsBracketable field.name.toList)
    (hbind : (field.bind session.schema scope).toExcept = .ok bound) :
    bound.unresolved.Printable ∧ bound.direction = field.direction := by
  obtain ⟨hsame, hdirection⟩ := name_of_bind hbind
  have hqualifier := isBracketable_of_resolved (FieldRef.resolved_of_bind hbind)
  exact ⟨⟨hsame ▸ hname, hqualifier, rfl, rfl⟩, hdirection⟩

/-- A right side can be printed after it is resolved. -/
theorem printableRight_of_bind {op : Comparison} {e bound : Expr} (he : Expr.PrintableRight op e)
    (hbind : (e.bind session.schema scope).toExcept = .ok bound) :
    Expr.PrintableRight op bound.unresolved := by
  cases he with
  | value hop hvalue =>
      rw [Expr.unresolved_of_bind_value hvalue hbind]
      exact .value hop hvalue
  | sum hop hsum =>
      rw [Expr.unresolved_of_bind_sum hsum hbind]
      exact .sum hop hsum
  | field hop hfield hdirection =>
      obtain ⟨hparts, -⟩ := Attempt.check_eq_ok_iff.mp hbind
      obtain ⟨found, hfound, rfl⟩ := Attempt.map_eq_ok_iff.mp hparts
      obtain ⟨hprintable, hsame⟩ := printable_unresolved_of_bind hfield.name hfound
      exact .field hop hprintable (hsame.trans hdirection)
  | @list span items hitems hall =>
      obtain ⟨items', hbound, rfl⟩ := bind_list_eq_ok_iff.mp hbind
      have hsame : items'.map Expr.unresolved = items := by
        clear hitems hbind
        induction hbound with
        | nil => rfl
        | cons hfirst _ ih =>
            obtain ⟨hsum, hall⟩ := List.forall_mem_cons.mp hall
            rw [List.map_cons, ih hall, Expr.unresolved_of_bind_sum hsum hfirst.1]
      rw [Expr.unresolved, Expr.unresolvedAll_eq_map, hsame]
      exact .list hitems hall

theorem written_of_bind {m : Mark} {op : Comparison} {left : FieldRef} {right bound : Expr}
    (hcondition : (Expr.condition m op left right).Printable)
    (hbind : ((Expr.condition m op left right).bind session.schema scope).toExcept = .ok bound) :
    ∃ left' right', bound = .condition m op left' right' ∧ Expr.Written op left' right' := by
  cases hcondition with
  | condition hleft hdirection hop hright =>
      obtain ⟨left', right', hleft', hright', -, -, rfl⟩ :=
        Expr.bind_condition_eq_ok_iff.mp hbind
      obtain ⟨hprintable, hsame⟩ :=
        printable_unresolved_of_bind hleft.name hleft'
      exact ⟨left', right', rfl, hprintable, hsame.trans hdirection, hop,
        printableRight_of_bind hright hright'⟩

/-! ## Clauses -/

/-- A clause that was read from a text is resolved to one of conditions that can be
written. -/
theorem everywhere_written_of_bind {e bound : Expr} (he : e.Printable)
    (hbind : (e.bind session.schema scope).toExcept = .ok bound) :
    bound.Everywhere (Expr.MadeOf False Expr.Written) := by
  induction he generalizing bound with
  | @condition m op left right hleft hdirection hop hright =>
      obtain ⟨_, _, rfl, hwritten⟩ :=
        written_of_bind (.condition hleft hdirection hop hright) hbind
      exact hwritten
  | not _ _ ih | ever _ _ ih =>
      obtain ⟨hparts, -⟩ := Attempt.check_eq_ok_iff.mp hbind
      obtain ⟨operand, hoperand, rfl⟩ := Attempt.map_eq_ok_iff.mp hparts
      obtain ⟨hchecked, -⟩ := Attempt.check_eq_ok_iff.mp hoperand
      exact ⟨trivial, ih hchecked⟩
  | junction _ _ _ ih =>
      obtain ⟨operands, hoperands, rfl⟩ := bind_junction_eq_ok_iff.mp hbind
      have hall := ((List.forall₂_and_left _ _).mpr ⟨fun e he => @ih e he, hoperands⟩).imp
        fun e b h => And.intro h.2 (h.1 h.2.1)
      exact ⟨trivial, Expr.allEverywhere_iff.mpr (forall₂_and_right_iff.mp hall).2⟩

/-- An optimized filter was simplified from a resolved one of conditions that can be
written. -/
theorem optimize_written {text : String} {query : Select} {filter : Expr}
    (hoptimize : session.optimize text = .ok query) (hfilter : query.filter = some filter) :
    ∃ scope bound, bound.Resolved session.schema scope ∧ bound.dataType = .bool ∧
      bound.Everywhere (Expr.MadeOf False Expr.Written) ∧
      session.simplify scope bound = .ok filter := by
  unfold optimize at hoptimize
  obtain ⟨parsed, hparsed, hoptimize⟩ := bind_eq_ok_iff.mp hoptimize
  obtain ⟨resolved, hresolved, hsimplified⟩ := bind_eq_ok_iff.mp hoptimize
  obtain ⟨bound, hbound, hsimplify⟩ := Select.simplifyWith_filter hsimplified hfilter
  obtain ⟨written, table, hwritten, htable, hbind, hboolean⟩ :=
    Select.written_of_bind_filter hresolved hbound
  have hprintable := (Select.printable_of_parse hparsed).filter written hwritten
  rw [htable] at hsimplify
  exact ⟨{ table := some table }, bound, Expr.resolved_of_bind hbind,
    Expr.ensureBoolean_eq_ok_iff.mp hboolean, everywhere_written_of_bind hprintable hbind,
    hsimplify⟩

end Session

end TrackerQuery
