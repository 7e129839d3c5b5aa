import TrackerQuery.Proofs.ComparedValues
import TrackerQuery.Proofs.LiteralText
import TrackerQuery.Proofs.SignedOperands
import TrackerQuery.Proofs.TextGrammar

/-!
# Sums, however they are spaced

In front of a digit a sign is scanned as part of the number, and in front of a blank as an
operator.  A sum of a literal and numbers can have blanks before and behind each operator, or
none; whichever way it is written, it is read as the same tree, grouped to the left, and the
query around it as the same query up to places.
-/

namespace TrackerQuery

open Decimal (isDigit)
open TrackerQuery.Parser

namespace Scan

theorem lexeme_operator {sign d : Char} (hsign : IsSign sign) (hd : Text.isBlank d = true)
    (next : List Char) :
    lexeme sign (d :: next) = ⟨0, .operation, .ofList [sign], none, true⟩ := by
  have hdigit : startsWithDigit (d :: next) = false := by
    rw [Bool.eq_false_iff]
    intro hdigit
    rw [(isNameStart_of_isDigit hdigit).2] at hd
    cases hd
  have hpairs : pairedOperations.all (fun pair => pair.1 != '+' && pair.1 != '-') = true := by
    decide
  have hpair : (sign, d) ∉ pairedOperations := fun hmem => by
    have hfirst := List.all_eq_true.mp hpairs _ hmem
    obtain rfl | rfl := hsign <;> cases hfirst
  have hsymbol : isSymbol sign = true := by
    obtain rfl | rfl := hsign <;> decide
  rw [lexeme_symbol hsymbol fun _ => hdigit]
  simp [operationLexeme, operationTail, hpair]

end Scan

/-! ## Sums -/

/-- An operator and the number that it adds or subtracts. -/
structure Summand where
  op : Arithmetic
  number : List Char
  signed : op ≠ .missing
  unsigned : Scan.IsUnsigned number

namespace Summand

def operand (s : Summand) : Expr :=
  .number {} (.ofList s.number)

/-- The tree of a sum, grouped to the left. -/
def sum (first : Expr) (summands : List Summand) : Expr :=
  summands.foldl (fun left s => .arithmetic {} s.op left s.operand .unknown) first

/-- The operators and numbers one after the other, each operator with or without blanks
before and behind it. -/
inductive Written : List Summand → List Char → Prop
  | nil : Written [] []
  | cons {s others gap gap' cs} (hgap : ∀ c ∈ gap, Text.isBlank c = true)
      (hgap' : ∀ c ∈ gap', Text.isBlank c = true) (hothers : Written others cs) :
      Written (s :: others) (gap ++ (s.op.render.toList ++ (gap' ++ (s.number ++ cs))))

/-- The tokens of operators and numbers, one operation for each. -/
inductive Read : List Summand → List Token → Prop
  | nil : Read [] []
  | cons {s others us vs e} (hus : Grammar.Operation us s.op e) (he : e.unplaced = s.operand)
      (hothers : Read others vs) : Read (s :: others) (us ++ vs)

theorem exists_sign (s : Summand) : ∃ sign, s.op.render.toList = [sign] ∧ Scan.IsSign sign := by
  cases hop : s.op with
  | missing => exact absurd hop s.signed
  | add => exact ⟨'+', rfl, .inl rfl⟩
  | subtract => exact ⟨'-', rfl, .inr rfl⟩

theorem exists_digit (s : Summand) : ∃ d ds, s.number = d :: ds ∧ isDigit d = true := by
  have hstart := s.unsigned.startsWithDigit []
  rw [List.append_nil] at hstart
  cases hnumber : s.number with
  | nil =>
      rw [hnumber] at hstart
      cases hstart
  | cons d ds =>
      rw [hnumber] at hstart
      exact ⟨d, ds, rfl, hstart⟩

theorem Written.start {summands : List Summand} {cs : List Char} (h : Written summands cs)
    (hsummands : summands ≠ []) : ∃ d next, cs = d :: next ∧ Scan.Breaks d := by
  cases h with
  | nil => exact absurd rfl hsummands
  | @cons s others gap gap' cs hgap hgap' hothers =>
      obtain ⟨sign, hrender, hsign⟩ := s.exists_sign
      cases gap with
      | nil => exact ⟨sign, _, by rw [hrender]; rfl, .inr hsign⟩
      | cons d gap => exact ⟨d, _, rfl, .inl (hgap d List.mem_cons_self)⟩

section Read

variable {summands : List Summand} {us us' l l' : List Token}

theorem Read.abreast (h : Read summands us) (h' : Read summands us')
    (hrest : Abreast [] [] true l l') : Abreast [] [] true (us ++ l) (us' ++ l') := by
  induction h generalizing us' with
  | nil =>
      cases h' with
      | nil => exact hrest
  | cons hus he hothers ih =>
      cases h' with
      | cons hus' he' hothers' =>
          rw [List.append_assoc, List.append_assoc]
          exact .operation hus hus' (he.trans he'.symm) (ih hothers')

theorem Read.expression (h : Read summands us) {n : Nat} {ts : List Token} {left : Expr}
    (hleft : Grammar.Expression n ts left) :
    ∃ e, Grammar.Expression (n + summands.length) (ts ++ us) e ∧
      e.unplaced = sum left.unplaced summands := by
  induction h generalizing n ts left with
  | nil => exact ⟨left, by simpa using hleft, rfl⟩
  | @cons s others us vs right hus hright hothers ih =>
      obtain ⟨e, hexpression, he⟩ := ih (.operation hleft hus)
      refine ⟨e, ?_, ?_⟩
      · rw [← List.append_assoc, List.length_cons, Nat.add_comm others.length, ← Nat.add_assoc]
        exact hexpression
      · rw [he]
        simp only [sum, List.foldl_cons, Expr.combine, Expr.unplaced, hright]
        rfl

end Read

/-- A number is read with its operator, which is a token of its own before a blank and the
sign of the number before a digit. -/
theorem exists_cuts_of_gaps (s : Summand) {gap gap' next : List Char}
    (hgap : ∀ c ∈ gap, Text.isBlank c = true) (hgap' : ∀ c ∈ gap', Text.isBlank c = true)
    (hnext : Scan.numberTail (s.number ++ next) = s.number.length) (pos : Nat) :
    ∃ us e, Scan.Cuts next pos (gap ++ (s.op.render.toList ++ (gap' ++ s.number))) us ∧
      Grammar.Operation us s.op e ∧ e.unplaced = s.operand := by
  obtain ⟨sign, hrender, hsign⟩ := s.exists_sign
  have hblank : Text.isBlank sign = false := by
    obtain rfl | rfl := hsign <;> decide
  rw [hrender]
  cases gap' with
  | nil =>
      have hcuts : Scan.Cuts next (pos + Text.byteLength gap) (sign :: s.number) _ :=
        Scan.cuts_lexeme hblank (Scan.lexeme_signed hsign s.unsigned hnext)
      refine ⟨_, _, (Scan.cuts_blanks hgap).append hcuts, .signed s.signed rfl ?_, rfl⟩
      apply String.toList_injective
      rw [String.toList_append, hrender, String.toList_ofList, String.toList_ofList]
      rfl
  | cons b gap' =>
      have hb : Text.isBlank b = true := hgap' b List.mem_cons_self
      obtain ⟨d, ds, hnumber, hd⟩ := s.exists_digit
      have hoperator : Scan.Cuts (b :: gap' ++ s.number ++ next) (pos + Text.byteLength gap) [sign]
          [⟨.operation, .ofList [sign], _⟩] :=
        Scan.cuts_lexeme hblank (Scan.lexeme_operator hsign hb _)
      have hdigits : ∀ pos, Scan.Cuts next pos s.number
          [⟨.number, .ofList s.number, ⟨pos, pos + Text.byteLength s.number⟩⟩] := by
        intro pos
        rw [hnumber] at hnext ⊢
        exact Scan.cuts_lexeme (Scan.isNameStart_of_isDigit hd).2 (Scan.lexeme_unsigned hd hnext)
      have hcuts := (Scan.cuts_blanks hgap).append
        (hoperator.append ((Scan.cuts_blanks hgap').append (hdigits _)))
      refine ⟨_, _, hcuts, .spaced s.signed ?_ (.number rfl), rfl⟩
      have hvalue : String.ofList [sign] = s.op.render := by
        rw [← hrender, String.ofList_toList]
      simp [Token.isOperation, hvalue]

/-- A written sum is cut into its operators and numbers. -/
theorem Written.exists_cuts {summands : List Summand} {cs after : List Char}
    (h : Written summands cs)
    (hlast : ∀ s ∈ summands.getLast?, Scan.numberTail (s.number ++ after) = s.number.length)
    (pos : Nat) : ∃ us, Scan.Cuts after pos cs us ∧ Read summands us := by
  induction h generalizing pos with
  | nil => exact ⟨[], .nil, .nil⟩
  | @cons s others gap gap' cs hgap hgap' hothers ih =>
      have hnumber : Scan.numberTail (s.number ++ (cs ++ after)) = s.number.length := by
        cases others with
        | nil =>
            cases hothers with
            | nil => exact hlast s rfl
        | cons other others =>
            obtain ⟨d, next, rfl, hd⟩ := hothers.start (List.cons_ne_nil other others)
            exact Scan.numberTail_append s.unsigned (Scan.halts_cons.mpr hd.continuesNumber_eq)
      obtain ⟨us, e, hcuts, hus, he⟩ := s.exists_cuts_of_gaps hgap hgap' hnumber pos
      have hlast' : ∀ t ∈ others.getLast?,
          Scan.numberTail (t.number ++ after) = t.number.length := by
        intro t ht
        refine hlast t ?_
        rw [List.getLast?_cons, Option.mem_def.mp ht]
        rfl
      obtain ⟨vs, hcuts', hvs⟩ := ih hlast' _
      refine ⟨us ++ vs, ?_, .cons hus he hvs⟩
      have hboth := hcuts.append hcuts'
      simpa only [List.append_assoc] using hboth

def last (value : List Char) (summands : List Summand) : List Char :=
  (summands.getLast?.map number).getD value

theorem numberTail_of_stands {s : Summand} {after : List Char}
    (h : Scan.Stands [] s.number after) :
    Scan.numberTail (s.number ++ after) = s.number.length := by
  obtain ⟨d, ds, hnumber, hd⟩ := s.exists_digit
  have hwhole : Scan.numberTail (s.number ++ []) = _ :=
    Scan.numberTail_append s.unsigned (by simp [Scan.Halts])
  obtain ⟨t, ht, hspan⟩ := h
  rw [hnumber] at hwhole ht hspan ⊢
  have hsame := Scan.lexeme_eq_of_span (Scan.isNameStart_of_isDigit hd).2 ht hspan
  have halone := Scan.lexeme_unsigned hd hwhole
  rw [List.append_nil] at halone
  rw [halone, Scan.lexeme_of_isDigit hd] at hsame
  have htail := congrArg Scan.Lexeme.tail hsame
  have hpos : 0 < Scan.numberTail (d :: ds ++ after) := Scan.numberTail_pos hd
  simp only [Scan.numberLexeme, hd, if_true, ← List.cons_append] at htail
  rw [List.length_cons]
  omega

/-- A sum between two texts, each writing of which is scanned as the same tokens before the
sum, a token for its first literal, and operations. -/
theorem exists_cuts_of_stands {before value written after : List Char} {first : Expr}
    {summands : List Summand} (hvalue : Expr.Literal value first)
    (hwritten : Written summands written) (hbefore : Scan.Stands before value (written ++ after))
    (hafter : Scan.Stands [] (last value summands) after) :
    ∃ ts v found, Expr.ofToken? v = some found ∧ found.unplaced = first ∧
      ∀ written', Written summands written' → ∃ us, Read summands us ∧
        Scan.Cuts (value ++ (written' ++ after)) 0 before ts ∧
        Scan.Cuts after (Text.byteLength before) (value ++ written') (v :: us) := by
  obtain ⟨t, ht, hspan⟩ := hbefore
  obtain ⟨ts, hcuts⟩ := Scan.exists_cuts ht (by rw [hspan, Nat.zero_add])
  obtain ⟨c, tail, kind, text, rfl, hc, halone, hfound⟩ := Scan.lexeme_literal hvalue
  obtain ⟨found, hdenotes, hsame⟩ := hfound ⟨Text.byteLength before, _⟩
  refine ⟨ts, _, found, hdenotes, hsame, fun written' hwritten' => ?_⟩
  have hparts : Scan.Cuts (c :: tail ++ (written' ++ after)) 0 before ts ∧
      Scan.lexeme c (tail ++ (written' ++ after)) = ⟨tail.length, kind, text, none, true⟩ := by
    cases summands with
    | nil =>
        cases hwritten with
        | nil =>
            cases hwritten' with
            | nil =>
                obtain ⟨u, hu, huspan⟩ := hafter
                refine ⟨hcuts, ?_⟩
                rw [List.nil_append, Scan.lexeme_eq_of_span hc hu huspan, halone]
    | cons s others =>
        obtain ⟨d, next, rfl, hd⟩ := hwritten'.start (List.cons_ne_nil s others)
        refine ⟨hcuts.before_literal hvalue hd, ?_⟩
        rw [List.cons_append, Scan.lexeme_append_breaks hvalue hc hd (List.nil_append _).symm
          (by rw [halone]), halone]
  have hlast : ∀ s ∈ summands.getLast?,
      Scan.numberTail (s.number ++ after) = s.number.length := by
    intro s hs
    rw [last, Option.mem_def.mp hs] at hafter
    exact numberTail_of_stands hafter
  obtain ⟨us, hwhole, hus⟩ := hwritten'.exists_cuts hlast
    (Text.byteLength before + Text.byteLength (c :: tail))
  exact ⟨us, hus, hparts.1, (Scan.cuts_lexeme hc hparts.2).append hwhole⟩

/-- The tokens of the whole text: those before the sum, one for its first literal, its
operations, and those behind it. -/
theorem exists_scan_of_stands {before value written after : List Char} {first : Expr}
    {summands : List Summand} (hvalue : Expr.Literal value first)
    (hwritten : Written summands written) (hbefore : Scan.Stands before value (written ++ after))
    (hafter : Scan.Stands [] (last value summands) after) :
    ∃ ts v found, Expr.ofToken? v = some found ∧ found.unplaced = first ∧
      (∀ t ∈ ts, t.span.stop ≤ Text.byteLength before) ∧
      ∀ written', Written summands written' →
        let stop := Text.byteLength before + Text.byteLength (value ++ written')
        ∃ us, Read summands us ∧
          (∀ t ∈ v :: us, Text.byteLength before ≤ t.span.start ∧ t.span.stop ≤ stop) ∧
          scan (.ofList (before ++ (value ++ (written' ++ after)))) =
            (Scan.ofChars stop after).after (ts ++ v :: us) := by
  obtain ⟨ts, v, found, hdenotes, hfirst, hall⟩ :=
    exists_cuts_of_stands hvalue hwritten hbefore hafter
  refine ⟨ts, v, found, hdenotes, hfirst, fun t ht => ?_, fun written' hwritten' => ?_⟩
  · obtain ⟨-, -, hfront, -⟩ := hall written hwritten
    simpa using (hfront.bounds t ht).2
  · obtain ⟨us, hus, hfront, hsum⟩ := hall written' hwritten'
    refine ⟨us, hus, hsum.bounds, ?_⟩
    rw [scan, String.toList_ofList, hfront.ofChars_eq, ← List.append_assoc, Nat.zero_add,
      hsum.ofChars_eq]
    simp [Scan.after]

end Summand

/-! ## Reading a sum -/

theorem Grammar.value_of_ofToken? {t : Token} {e : Expr} (h : Expr.ofToken? t = some e) :
    Value [t] e := by
  have hread : Expr.value? [t] = some (e, []) := by simp [Expr.value?, h]
  obtain ⟨used, hused, hvalue⟩ := value?_eq_some hread
  rw [List.append_nil] at hused
  rwa [hused]

theorem Grammar.expression_unique {ts : List Token} {e e' : Expr}
    (he : Expression maxNesting ts e) (he' : Expression maxNesting ts e') : e = e' := by
  have hend : Expr.nextOperation? [] = none := rfl
  have hread := expression_eq_ok he hend .expectingValue
  rw [expression_eq_ok he' hend] at hread
  exact (Prod.mk.inj (Except.ok.inj hread)).1.symm

namespace Select

section Spaced

variable {before value written after : List Char} {first : Expr} {summands : List Summand}
variable (hvalue : Expr.Literal value first) (hwritten : Summand.Written summands written)
variable (hbefore : Scan.Stands before value (written ++ after))
variable (hafter : Scan.Stands [] (Summand.last value summands) after)

include hvalue hwritten hbefore hafter

/-- Two ways of writing a sum are read alike, or neither is read. -/
theorem matches_parse_spaced {written' : List Char} (hwritten' : Summand.Written summands written') :
    Matches (fun query query' => query.unplaced = query'.unplaced)
      (parse (.ofList (before ++ (value ++ (written ++ after)))))
      (parse (.ofList (before ++ (value ++ (written' ++ after))))) := by
  obtain ⟨ts, v, found, hdenotes, -, -, hall⟩ :=
    Summand.exists_scan_of_stands hvalue hwritten hbefore hafter
  obtain ⟨us, hus, -, hscan⟩ := hall written hwritten
  obtain ⟨us', hus', -, hscan'⟩ := hall written' hwritten'
  obtain ⟨htokens, herror⟩ := Scan.ofChars_moved
    (Text.byteLength before + Text.byteLength (value ++ written))
    (Text.byteLength before + Text.byteLength (value ++ written')) after
  refine matches_parse ?_ ?_
  · rw [hscan, hscan']
    simpa [Scan.after] using congrArg Option.isNone herror
  · rw [hscan, hscan']
    have hrest := hus.abreast hus' (by simpa using abreast_append htokens)
    have hsum : Abreast [] [] false (v :: (us ++ _)) (v :: (us' ++ _)) :=
      .token rfl (by rwa [hdenotes])
    simpa [Scan.after] using hsum.append (rfl : ts.map Token.unplaced = _)

/-- A compared value in the place of a sum is the tree of the sum. -/
theorem unplaced_of_compares (hcount : summands.length ≤ maxNesting) {query : Select}
    (hparse : parse (.ofList (before ++ (value ++ (written ++ after)))) = .ok query) {e : Expr}
    (he : query.Compares e) (hplace : e.span = ⟨Text.byteLength before,
      Text.byteLength before + Text.byteLength (value ++ written)⟩) :
    e.unplaced = Summand.sum first summands := by
  obtain ⟨ts, v, found, hdenotes, hfirst, hfront, hall⟩ :=
    Summand.exists_scan_of_stands hvalue hwritten hbefore hafter
  obtain ⟨us, hus, hinside, hscan⟩ := hall written hwritten
  obtain ⟨all, htokens, hread⟩ := parse_eq_ok_iff.mp hparse
  have hordered := ordered_of_tokens htokens
  have htext : all = ts ++ (v :: us) ++ (Scan.ofChars (Text.byteLength before +
      Text.byteLength (value ++ written)) after).tokens := by
    rw [← (tokens_eq_ok_iff.mp htokens).2, hscan]
    rfl
  obtain ⟨vs, hvs, hcompared⟩ := Grammar.exists_compared_of_query
    (Grammar.query_of_ofTokens (solid_of_tokens htokens) hread) he
  have hsum : vs = v :: us := by
    have hvsOrdered : Token.Ordered vs := by
      obtain ⟨_, _, rfl⟩ := hvs
      exact hordered.left.right
    rw [(hcompared.reaches hvsOrdered).eq_filter hordered hvs, hplace]
    subst htext
    refine hordered.filter_eq hfront hinside fun t ht => ?_
    exact Scan.le_start_of_mem_ofChars ht
  rw [hsum] at hcompared
  have hliteral : Grammar.Expression 0 [v] found := .value (Grammar.value_of_ofToken? hdenotes)
  obtain ⟨e', hexpression, hunplaced⟩ := hus.expression hliteral
  have hexpression : Grammar.Expression maxNesting (v :: us) e' := hexpression.mono (by omega)
  rw [Grammar.expression_unique (hcompared.expression (by rw [hdenotes]; rfl)) hexpression,
    hunplaced, hfirst]

end Spaced

/-- A sum of a literal and numbers inside of any text.  A token starts with the literal, and
no number goes on over the end of the sum.  If the text, with the sum written in one way, is
read as a query that compares a field with what stands in the place of the sum, or the grammar
derives it so, then the value is the tree grouped to the left; and every way of writing the
operators is read as this query up to places. -/
theorem parse_spaced_sum {before value written after : List Char} {first : Expr}
    {summands : List Summand} (hvalue : Expr.Literal value first)
    (hcount : summands.length ≤ maxNesting) (hwritten : Summand.Written summands written)
    (hbefore : Scan.Stands before value (written ++ after))
    (hafter : Scan.Stands [] (Summand.last value summands) after) {query : Select} {e : Expr}
    (hquery :
      let text := String.ofList (before ++ (value ++ (written ++ after)))
      parse text = .ok query ∨
        ∃ ts, tokens text = .ok ts ∧ Grammar.Query Grammar.Unreserved ts query)
    (he : query.Compares e) (hplace : e.span = ⟨Text.byteLength before,
      Text.byteLength before + Text.byteLength (value ++ written)⟩) :
    e.unplaced = Summand.sum first summands ∧
      ∀ written', Summand.Written summands written' →
        ∃ query', parse (.ofList (before ++ (value ++ (written' ++ after)))) = .ok query' ∧
          query'.unplaced = query.unplaced := by
  have hparse : parse (.ofList (before ++ (value ++ (written ++ after)))) = .ok query := by
    obtain hparse | ⟨ts, htokens, hderived⟩ := hquery
    · exact hparse
    · exact parse_of_query htokens hderived
  refine ⟨unplaced_of_compares hvalue hwritten hbefore hafter hcount hparse he hplace,
    fun written' hwritten' => ?_⟩
  have hmatches := matches_parse_spaced hvalue hwritten hbefore hafter hwritten'
  rw [hparse] at hmatches
  generalize hresult : parse (.ofList (before ++ (value ++ (written' ++ after)))) = result
    at hmatches
  cases hmatches with
  | ok hsame => exact ⟨_, rfl, hsame.symm⟩

/-- The first item of a list that the whole filter compares a field with. -/
def firstItem? (query : Select) : Option Expr :=
  match query.filter with
  | some (.condition _ _ _ (.list _ (item :: _))) => some item
  | _ => none

theorem compares_of_firstItem? {query : Select} {e : Expr} (h : query.firstItem? = some e) :
    query.Compares e := by
  unfold firstItem? at h
  split at h
  · rename_i hfilter
    cases h
    exact ⟨_, hfilter, .item List.mem_cons_self⟩
  · cases h

/-- A sum in a list, with an exponent, and with blanks of several kinds. -/
theorem parse_spaced_sum_of_exponent :
    ∃ query e query', parse "select * from X where a in (TRUE-1e-5+2,'x')" = .ok query ∧
      query.Compares e ∧
      e.unplaced =
        .arithmetic {} .add
          (.arithmetic {} .subtract (.boolean {} true) (.number {} "1e-5") .unknown)
          (.number {} "2") .unknown ∧
      parse "select * from X where a in (TRUE\t-\u30001e-5 +2,'x')" = .ok query' ∧
      query'.unplaced = query.unplaced := by
  have hdigits : ∀ d ∈ ['1', '2', '5'], ∀ c ∈ [d], isDigit c = true := by simp [isDigit]
  have hfirst : Scan.IsUnsigned ['1', 'e', '-', '5'] :=
    @Scan.IsUnsigned.mk '1' [] _ _ (hdigits '1' (by simp)) .none
      (.signed (.inl rfl) (.inr rfl) (hdigits '5' (by simp)))
  have hsecond : Scan.IsUnsigned ['2'] :=
    @Scan.IsUnsigned.mk '2' [] _ _ (hdigits '2' (by simp)) .none .none
  have hblanks := List.all_eq_true.mp
    (by decide +kernel : ['\t', '\u3000', ' '].all Text.isBlank = true)
  have hnone : ∀ c ∈ ([] : List Char), Text.isBlank c = true := by simp
  let minus : Summand := ⟨.subtract, _, by decide, hfirst⟩
  let plus : Summand := ⟨.add, _, by decide, hsecond⟩
  have hplain : Summand.Written [minus, plus] "-1e-5+2".toList := by
    simpa [minus, plus, Arithmetic.render] using @Summand.Written.cons minus _ [] [] _
      hnone hnone (@Summand.Written.cons plus _ [] [] _ hnone hnone .nil)
  have hspaced : Summand.Written [minus, plus] "\t-\u30001e-5 +2".toList := by
    simpa [minus, plus, Arithmetic.render] using
      @Summand.Written.cons minus _ ['\t'] ['\u3000'] _
        (by simpa using hblanks '\t' (by simp)) (by simpa using hblanks '\u3000' (by simp))
        (@Summand.Written.cons plus _ [' '] [] _
          (by simpa using hblanks ' ' (by simp)) hnone .nil)
  have hbefore : Scan.Stands "select * from X where a in (".toList "TRUE".toList
      ("-1e-5+2".toList ++ ",'x')".toList) := by
    unfold Scan.Stands
    decide +kernel
  have hafter : Scan.Stands [] ['2'] ",'x')".toList := by
    unfold Scan.Stands
    decide +kernel
  have hvalue : Expr.Literal "TRUE".toList (.boolean {} true) := .boolean (by decide +kernel)
  have htext : String.ofList ("select * from X where a in (".toList ++ ("TRUE".toList ++
      ("-1e-5+2".toList ++ ",'x')".toList))) = "select * from X where a in (TRUE-1e-5+2,'x')" := by
    decide +kernel
  have htext' : String.ofList ("select * from X where a in (".toList ++ ("TRUE".toList ++
      ("\t-\u30001e-5 +2".toList ++ ",'x')".toList))) =
        "select * from X where a in (TRUE\t-\u30001e-5 +2,'x')" := by
    decide +kernel
  have hplace : (⟨28, 39⟩ : Span) = ⟨Text.byteLength "select * from X where a in (".toList,
      Text.byteLength "select * from X where a in (".toList +
        Text.byteLength ("TRUE".toList ++ "-1e-5+2".toList)⟩ := by
    decide +kernel
  have hitem : (parse "select * from X where a in (TRUE-1e-5+2,'x')").toOption.any (fun query =>
      query.firstItem?.any fun e => e.span = ⟨28, 39⟩) = true := by
    decide +kernel
  obtain ⟨query, hquery, hitem⟩ := (Option.any_eq_true _ _).mp hitem
  obtain ⟨e, hitem, hspan⟩ := (Option.any_eq_true _ _).mp hitem
  have hparse := toOption_eq_some_iff.mp hquery
  have hcompares := compares_of_firstItem? hitem
  obtain ⟨hsum, hall⟩ := parse_spaced_sum hvalue (by simp [maxNesting]) hplain hbefore hafter
    (.inl (htext ▸ hparse)) hcompares ((of_decide_eq_true hspan).trans hplace)
  obtain ⟨query', hparse', hsame⟩ := hall _ hspaced
  rw [htext'] at hparse'
  exact ⟨query, e, query', hparse, hcompares, hsum, hparse', hsame⟩

end Select

end TrackerQuery
