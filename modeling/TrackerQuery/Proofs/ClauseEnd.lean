import TrackerQuery.Proofs.GrammarComplete
import TrackerQuery.Proofs.ReadingStops
import TrackerQuery.Proofs.Unplaced

/-!
# The end of a clause

Nothing but the keyword of the next clause marks where a clause ends.  A reader that has
read a clause up to there reads the same before any other clause and at the end of the
query: it does not take the keyword for a part of what it reads, and it does not depend on
which keyword it is.

Nor does it depend on how operations are written.  Behind a value, a number with a sign is
an operator and its operand, and so are an operator and a number; no reader looks at the
tokens there but to find a whole operation, or something that begins none.
-/

namespace TrackerQuery

/-- An operation begins with a sign or an operator. -/
theorem Grammar.Operation.start {us : List Token} {op : Arithmetic} {e : Expr}
    (h : Operation us op e) : ∃ t vs, us = t :: vs ∧ continuesValue t = true := by
  cases h with
  | @spaced t op ts right hop hspelled hright =>
      refine ⟨t, ts, rfl, ?_⟩
      cases op with
      | missing => exact absurd rfl hop
      | add => simp [continuesValue, show t.isOperation "+" = true from hspelled]
      | subtract => simp [continuesValue, show t.isOperation "-" = true from hspelled]
  | @signed t op digits hop hkind hvalue => exact ⟨t, [], rfl, by simp [continuesValue, hkind]⟩

namespace Parser

/-- A clause begins, or the query ends. -/
def AtClause (rest : List Token) : Prop :=
  ∀ t ∈ rest.head?, (Select.ClauseKind.ofToken? t).isSome = true

section AtClause

variable {rest : List Token}

theorem AtClause.stops (hrest : AtClause rest) {p : Token → Bool}
    (hp : ∀ t kind, t.isKeyword (Grammar.clauseWord kind) = true → p t = false) :
    Stops p rest := by
  intro t ht
  obtain ⟨kind, hkind⟩ := Option.isSome_iff_exists.mp (hrest t ht)
  exact hp t kind (Grammar.isKeyword_of_clauseKind hkind)

theorem AtClause.kind_eq {t : Token} (hrest : AtClause (t :: rest)) : t.kind = .name := by
  obtain ⟨kind, hkind⟩ := Option.isSome_iff_exists.mp (hrest t rfl)
  exact Token.kind_of_isKeyword (Grammar.isKeyword_of_clauseKind hkind)

theorem AtClause.stops_operation (hrest : AtClause rest) (text : String) :
    Stops (·.isOperation text) rest :=
  hrest.stops fun t _ ht => Token.isOperation_eq_false (by simp [Token.kind_of_isKeyword ht])

theorem AtClause.stops_keyword (hrest : AtClause rest) {word : String}
    (hword : ∀ kind, Text.sameIgnoringCase (Grammar.clauseWord kind) word = false) :
    Stops (·.isKeyword word) rest :=
  hrest.stops fun t kind ht => by rw [Token.isKeyword_eq_of_isKeyword ht, hword]

theorem AtClause.stops_connective (hrest : AtClause rest) {word : String}
    (hword : ∀ kind, Text.sameIgnoringCase (Grammar.clauseWord kind) word = false)
    (symbol : String) : Stops (fun t => t.isKeyword word || t.isOperation symbol) rest :=
  fun t ht => Bool.or_eq_false_iff.mpr
    ⟨hrest.stops_keyword hword t ht, hrest.stops_operation symbol t ht⟩

end AtClause

/-- Two lists with the same tokens up to where `rest` is left of the one and `rest'` of the
other, where an operation behind a value may be written as a signed number in the one and as
two tokens in the other.  With `afterValue` the lists themselves stand behind a value. -/
inductive Abreast (rest rest' : List Token) : (afterValue : Bool) → List Token → List Token → Prop
  | here {afterValue} : Abreast rest rest' afterValue rest rest'
  | token {afterValue t t' l l'} (ht : t.unplaced = t'.unplaced)
      (h : Abreast rest rest' (Expr.ofToken? t).isSome l l') :
      Abreast rest rest' afterValue (t :: l) (t' :: l')
  | operation {us us' op e e' l l'} (hus : Grammar.Operation us op e)
      (hus' : Grammar.Operation us' op e') (he : e.unplaced = e'.unplaced)
      (h : Abreast rest rest' true l l') : Abreast rest rest' true (us ++ l) (us' ++ l')

/-- Tokens that are neither values nor begin an operation, whatever their places. -/
structure Plain (p : Token → Bool) : Prop where
  unplaced : ∀ t, p t.unplaced = p t
  value : ∀ {t}, p t = true → Expr.ofToken? t = none
  continues : ∀ {t}, p t = true → Grammar.continuesValue t = false

theorem plain_keyword (word : String) : Plain (·.isKeyword word) where
  unplaced _ := rfl
  value ht := by simp [Expr.ofToken?, Token.kind_of_isKeyword ht]
  continues ht := by
    simp [Grammar.continuesValue, Token.kind_of_isKeyword ht, Token.isOperation]

theorem plain_operation (text : String) (htext : text ≠ "+" ∧ text ≠ "-") :
    Plain (·.isOperation text) where
  unplaced _ := rfl
  value ht := by simp [Expr.ofToken?, Token.kind_of_isOperation ht]
  continues ht := by
    simp [Grammar.continuesValue, Token.kind_of_isOperation ht,
      Token.isOperation_eq_of_isOperation ht, htext]

theorem plain_isName : Plain Token.isName where
  unplaced _ := rfl
  value {t} ht := by
    have hkind : t.kind = .name ∨ t.kind = .bracketedName := by simpa [Token.isName] using ht
    obtain hkind | hkind := hkind <;> simp [Expr.ofToken?, hkind]
  continues {t} ht := by
    have hkind : t.kind = .name ∨ t.kind = .bracketedName := by simpa [Token.isName] using ht
    obtain hkind | hkind := hkind <;>
      simp [Grammar.continuesValue, hkind, Token.isOperation]

theorem Plain.or {p q : Token → Bool} (hp : Plain p) (hq : Plain q) :
    Plain fun t => p t || q t where
  unplaced t := by rw [hp.unplaced, hq.unplaced]
  value ht := ((Bool.or_eq_true_iff ..).mp ht).elim hp.value hq.value
  continues ht := ((Bool.or_eq_true_iff ..).mp ht).elim hp.continues hq.continues

section Abreast

variable {rest rest' l l' r : List Token} {p : Token → Bool} {afterValue : Bool}

theorem Plain.stops_operation (hp : Plain p) {us : List Token} {op : Arithmetic} {e : Expr}
    (hus : Grammar.Operation us op e) (l : List Token) : Stops p (us ++ l) := by
  obtain ⟨t, vs, rfl, ht⟩ := hus.start
  refine stops_cons.mpr (Bool.eq_false_iff.mpr fun hpt => ?_)
  rw [hp.continues hpt] at ht
  cases ht

theorem Abreast.mono (h : Abreast rest rest' false l l') : Abreast rest rest' afterValue l l' := by
  cases h with
  | here => exact .here
  | token ht h => exact .token ht h

theorem Abreast.append (h : Abreast rest rest' false l l') {ts ts' : List Token}
    (hts : ts.map Token.unplaced = ts'.map Token.unplaced) :
    Abreast rest rest' afterValue (ts ++ l) (ts' ++ l') := by
  induction ts generalizing ts' afterValue with
  | nil =>
      obtain rfl : ts' = [] := by simpa using hts.symm
      exact h.mono
  | cons t ts ih =>
      cases ts' with
      | nil => cases hts
      | cons t' ts' =>
          obtain ⟨ht, hts⟩ := List.cons.inj hts
          exact .token ht (ih hts)

theorem abreast_append {ts ts' : List Token}
    (hts : ts.map Token.unplaced = ts'.map Token.unplaced) :
    Abreast rest rest' afterValue (ts ++ rest) (ts' ++ rest') :=
  Abreast.here.append hts

/-- Nothing has been read beyond the end while the end is still to come. -/
theorem not_suffix_of_append {used : List Token} (hused : used ≠ []) (h : used ++ r <:+ r) :
    False := by
  have hlength := h.length_le
  have hpos := List.length_pos_iff.mpr hused
  rw [List.length_append] at hlength
  omega

theorem Abreast.suffix (h : Abreast rest rest' afterValue l l') : rest <:+ l := by
  induction h with
  | here => exact List.suffix_refl rest
  | @token _ t _ l _ _ _ ih => exact ih.trans (List.suffix_cons t l)
  | operation hus hus' he h ih => exact ih.trans (List.suffix_append ..)

theorem Abreast.eq_of_end (h : Abreast rest rest' afterValue rest l') : l' = rest' := by
  cases h with
  | here => rfl
  | @token _ t _ l _ _ h => exact (not_suffix_of_append (List.cons_ne_nil t []) h.suffix).elim
  | operation hus _ _ h =>
      obtain ⟨t, vs, rfl, -⟩ := hus.start
      exact (not_suffix_of_append (List.cons_ne_nil t vs) h.suffix).elim

theorem Abreast.token?_eq_some (h : Abreast rest rest' afterValue l l') (hp : Plain p)
    {t : Token} (hread : token? p l = some (t, r)) (hr : rest <:+ r) :
    ∃ t' r', token? p l' = some (t', r') ∧ t.unplaced = t'.unplaced ∧
      Abreast rest rest' false r r' := by
  cases h with
  | here =>
      obtain ⟨rfl, -⟩ := token?_eq_some_iff.mp hread
      exact (not_suffix_of_append (List.cons_ne_nil t []) hr).elim
  | @token _ _ t' _ r' heq h =>
      obtain ⟨htokens, ht⟩ := token?_eq_some_iff.mp hread
      cases htokens
      rw [hp.value ht] at h
      refine ⟨t', r', token?_eq_some_iff.mpr ⟨rfl, ?_⟩, heq, h⟩
      rw [← hp.unplaced t', ← heq, hp.unplaced t, ht]
  | operation hus hus' he h =>
      rw [Parser.token?_eq_none (hp.stops_operation hus _)] at hread
      cases hread

theorem Abreast.token?_eq_none (h : Abreast rest rest' afterValue l l') (hp : Plain p)
    (hend : l = rest → Stops p rest') (hread : token? p l = none) : token? p l' = none := by
  cases h with
  | here => exact Parser.token?_eq_none (hend rfl)
  | @token _ t t' _ _ heq h =>
      have ht : p t = false := by simpa [token?] using hread
      refine Parser.token?_eq_none (stops_cons.mpr ?_)
      rw [← hp.unplaced t', ← heq, hp.unplaced t, ht]
  | operation hus hus' he h => exact Parser.token?_eq_none (hp.stops_operation hus' _)

end Abreast

/-- What the one reads up to the end of a clause, the other reads up to another end, and it
is the same up to what `f` forgets.  With `start` and `stop` the readers start and stop
behind a value. -/
def Tracks (rest rest' : List Token) (start stop : Bool) {α γ : Type} (f : α → γ)
    (read read' : Parser α) : Prop :=
  ∀ ⦃l l' a r⦄, Abreast rest rest' start l l' → read l = .ok (a, r) → rest <:+ r →
    ∃ a' r', read' l' = .ok (a', r') ∧ f a = f a' ∧ Abreast rest rest' stop r r'

section Readers

variable {rest rest' : List Token} {start middle stop : Bool}
variable {α β γ δ : Type} {f : α → γ} {g : β → δ}

theorem Tracks.mono {read read' : Parser α} (h : Tracks rest rest' start false f read read') :
    Tracks rest rest' start stop f read read' := by
  intro l l' a r hl hread hr
  obtain ⟨a', r', hread', ha, hrest⟩ := h hl hread hr
  exact ⟨a', r', hread', ha, hrest.mono⟩

theorem tracks_here {a a' : α} (ha : f a = f a') :
    Tracks rest rest' start start f (fun l => .ok (a, l)) (fun l => .ok (a', l)) := by
  intro l l' _ r h hread hr
  cases hread
  exact ⟨a', l', rfl, ha, h⟩

theorem Tracks.bind {read read' : Parser α}
    {next next' : α × List Token → Except Error (β × List Token)}
    (hread : Tracks rest rest' start middle f read read')
    (hreads : ∀ a, Reads fun tokens => next (a, tokens))
    (hnext : ∀ a a', f a = f a' →
      Tracks rest rest' middle stop g (fun l => next (a, l)) (fun l => next' (a', l))) :
    Tracks rest rest' start stop g (fun l => read l >>= next) (fun l => read' l >>= next') := by
  intro l l' b r h hboth hr
  obtain ⟨⟨a, r₁⟩, hfirst, hsecond⟩ := bind_eq_ok_iff.mp hboth
  have hr₁ : rest <:+ r₁ := hr.trans ((hreads a).suffix hsecond)
  obtain ⟨a', r₁', hfirst', ha, h₁⟩ := hread h hfirst hr₁
  obtain ⟨b', r', hsecond', hb, h₂⟩ := hnext a a' ha h₁ hsecond hr
  exact ⟨b', r', bind_eq_ok_iff.mpr ⟨(a', r₁'), hfirst', hsecond'⟩, hb, h₂⟩

/-- What is found and what is expected. -/
theorem tracks_expect {cause : Fault} {read : List Token → Option (α × List Token)}
    (hread : ∀ {l l' a r}, Abreast rest rest' start l l' → read l = some (a, r) → rest <:+ r →
      ∃ a' r', read l' = some (a', r') ∧ f a = f a' ∧ Abreast rest rest' stop r r') :
    Tracks rest rest' start stop f (expect cause read) (expect cause read) := by
  intro l l' a r h hfound hr
  obtain ⟨a', r', hfound', ha, h⟩ := hread h (expect_eq_ok_iff.mp hfound) hr
  exact ⟨a', r', expect_eq_ok_iff.mpr hfound', ha, h⟩

theorem tracks_token {p : Token → Bool} (hp : Plain p) (cause : Fault) :
    Tracks rest rest' start false Token.unplaced (expect cause (token? p))
      (expect cause (token? p)) :=
  tracks_expect fun h hread hr => h.token?_eq_some hp hread hr

/-- Reading leaves fewer tokens than there were, so its guard is always passed. -/
theorem sepBy_eq {item : Parser α} {separator : Token → Bool}
    (hitem : Reads item) (tokens : List Token) :
    sepBy item separator tokens = (do
      let (first, rest) ← item tokens
      match token? separator rest with
      | none => return ([first], rest)
      | some (_, rest) =>
          let (others, rest) ← sepBy item separator rest
          return (first :: others, rest)) := by
  rw [sepBy]
  cases hfirst : item tokens with
  | error e => rfl
  | ok found =>
      obtain ⟨first, rest⟩ := found
      simp only [bind, Except.bind]
      cases hread : token? separator rest with
      | none => rfl
      | some found =>
          obtain ⟨t, others⟩ := found
          obtain ⟨rfl, -⟩ := token?_eq_some_iff.mp hread
          exact if_pos (hitem.suffix hfirst).length_le

/-- Lists are tracked if their items are. -/
theorem tracks_sepBy {item : Parser α} {separator : Token → Bool}
    (hreads : Reads item) (hseparator : Plain separator)
    (hstray : ∀ t, t.Stray → separator t = false) (hend : Stops separator rest') (hitem : Tracks rest rest' start true f item item) :
    Tracks rest rest' start true (List.map f) (sepBy item separator) (sepBy item separator) := by
  intro l
  induction hlength : l.length using Nat.strongRecOn generalizing l with
  | ind length ih =>
      intro l' as r h hread hr
      rw [sepBy_eq hreads] at hread ⊢
      obtain ⟨⟨first, r₁⟩, hfirst, hread⟩ := bind_eq_ok_iff.mp hread
      dsimp only at hread
      split at hread
      · rename_i hnone
        cases hread
        obtain ⟨first', r', hfirst', hsame, h⟩ := hitem h hfirst hr
        refine ⟨[first'], r', ?_, by simp [hsame], h⟩
        rw [hfirst']
        simp only [bind, Except.bind, h.token?_eq_none hseparator (fun _ => hend) hnone]
        rfl
      · rename_i t r₂ hsome
        obtain ⟨rfl, -⟩ := token?_eq_some_iff.mp hsome
        obtain ⟨⟨more, r₃⟩, hmore, hread⟩ := bind_eq_ok_iff.mp hread
        cases hread
        have hr₂ : rest <:+ r₂ := hr.trans ((reads_sepBy hreads hstray).suffix hmore)
        have hshorter : r₂.length < length :=
          hlength ▸ (hreads.suffix hfirst).length_le
        obtain ⟨first', r₁', hfirst', hsame, h₁⟩ :=
          hitem h hfirst (hr₂.trans (List.suffix_cons t r₂))
        obtain ⟨t', r₂', hsome', -, h₂⟩ := h₁.token?_eq_some hseparator hsome hr₂
        obtain ⟨more', r', hmore', hsames, h₃⟩ := ih r₂.length hshorter rfl h₂.mono hmore hr
        refine ⟨first' :: more', r', ?_, by simp [hsame, hsames], h₃⟩
        rw [hfirst']
        simp only [bind, Except.bind, hsome', hmore']
        rfl

/-- Items in parentheses are tracked, and what is made of them is the same but for places. -/
theorem tracks_bracketed (hend : AtClause rest') {item : Parser α} (hreads : Reads item)
    (hitem : Tracks rest rest' false true f item item) {make : Span → List α → β}
    (hmake : ∀ span span' as as', as.map f = as'.map f → g (make span as) = g (make span' as')) :
    Tracks rest rest' start true g (bracketed item make) (bracketed item make) := by
  refine (tracks_token (plain_operation "(" (by decide)) _).bind (fun _ => ?_)
    fun opening opening' _ => ?_
  · exact (reads_sepBy hreads isComma_eq).bind fun _ =>
      (reads_closing rfl).bind fun _ => reads_here _
  · refine (tracks_sepBy hreads (plain_operation "," (by decide)) isComma_eq
      (hend.stops_operation ",") hitem).bind (fun _ => ?_) fun items items' hitems => ?_
    · exact (reads_closing rfl).bind fun _ => reads_here _
    · exact Tracks.mono ((tracks_token (plain_operation ")" (by decide)) _).bind
        (fun _ => reads_here _) fun _ _ _ => tracks_here (hmake _ _ _ _ hitems))

end Readers

end Parser

open TrackerQuery.Parser

namespace Expr

/-! ## Trees without places -/

theorem unplaced_compare {op : Comparison} {left left' : FieldRef} {right right' : Expr}
    (hleft : left.unplaced = left'.unplaced) (hright : right.unplaced = right'.unplaced) :
    (compare op left right).unplaced = (compare op left' right').unplaced := by
  simp only [compare, unplaced, hleft, hright]
  rfl

theorem unplaced_combine {op : Arithmetic} {left left' right right' : Expr}
    (hleft : left.unplaced = left'.unplaced) (hright : right.unplaced = right'.unplaced) :
    (combine op left right).unplaced = (combine op left' right').unplaced := by
  simp only [combine, unplaced, hleft, hright]
  rfl

theorem unplaced_joined {connective : Connective} {es es' : List Expr}
    (hes : es.map unplaced = es'.map unplaced) :
    (joined connective es).unplaced = (joined connective es').unplaced := by
  have hjoin : (join connective es).unplaced = (join connective es').unplaced := by
    simp only [join, unplaced, unplacedAll_eq_map, hes]
    rfl
  cases es with
  | nil =>
      obtain rfl : es' = [] := by simpa using hes.symm
      rfl
  | cons e es =>
      cases es' with
      | nil => cases hes
      | cons e' es' =>
          obtain ⟨he, hothers⟩ := List.cons.inj hes
          cases es with
          | nil =>
              obtain rfl : es' = [] := by simpa using hothers.symm
              exact he
          | cons d es =>
              cases es' with
              | nil => cases hothers
              | cons d' es' => exact hjoin

theorem unplaced_apply (op : Leading) {e e' : Expr} (he : e.unplaced = e'.unplaced) :
    (op.apply e).unplaced = (op.apply e').unplaced := by
  cases op with
  | not | ever | never =>
      simp only [Leading.apply, negate, once, unplaced, he]
      rfl

theorem unplaced_withSpan (e : Expr) (span : Span) : (e.withSpan span).unplaced = e.unplaced := by
  cases e <;> rfl

/-! ## Expressions -/

section Readers

variable {rest rest' l l' r : List Token} {start : Bool}

/-- The same field is read of either list. -/
theorem abreast_fieldRef? (hend : AtClause rest') (h : Abreast rest rest' start l l')
    {field : FieldRef} (hread : fieldRef? l = some (field, r)) (hr : rest <:+ r) :
    ∃ field' r', fieldRef? l' = some (field', r') ∧ field.unplaced = field'.unplaced ∧
      Abreast rest rest' false r r' := by
  have hdots : Plain (·.isOperation ".") := plain_operation "." (by decide)
  obtain ⟨⟨first, r₁⟩, hfirst, hothers⟩ := Option.bind_eq_some_iff.mp hread
  dsimp only at hothers
  split at hothers
  · rename_i hnone
    cases hothers
    obtain ⟨first', r', hfirst', hsame, h⟩ := h.token?_eq_some plain_isName hfirst hr
    have hnone' := h.token?_eq_none hdots (fun _ => hend.stops_operation ".") hnone
    refine ⟨{ name := first'.value, span := first'.span }, r',
      Option.bind_eq_some_iff.mpr ⟨(first', r'), hfirst', ?_⟩, ?_, h⟩
    · simp only [operation?, hnone']
      rfl
    · simp [FieldRef.unplaced, Token.value_eq_of_unplaced hsame]
  · rename_i dot r₂ hdot
    obtain ⟨⟨second, r₃⟩, hsecond, hfield⟩ := Option.bind_eq_some_iff.mp hothers
    cases hfield
    have hr₂ : rest <:+ r₂ := by
      obtain ⟨rfl, -⟩ := token?_eq_some_iff.mp hsecond
      exact hr.trans (List.suffix_cons second _)
    have hr₁ : rest <:+ r₁ := by
      obtain ⟨rfl, -⟩ := operation?_eq_some_iff.mp hdot
      exact hr₂.trans (List.suffix_cons dot r₂)
    obtain ⟨first', r₁', hfirst', hsame, h₁⟩ := h.token?_eq_some plain_isName hfirst hr₁
    obtain ⟨dot', r₂', hdot', -, h₂⟩ := h₁.token?_eq_some hdots hdot hr₂
    obtain ⟨second', r', hsecond', hsame', h₃⟩ := h₂.token?_eq_some plain_isName hsecond hr
    refine ⟨{ qualifier := some first'.value, name := second'.value,
              span := first'.span.cover second'.span }, r',
      Option.bind_eq_some_iff.mpr ⟨(first', r₁'), hfirst', ?_⟩, ?_, h₃⟩
    · simp only [operation?, hdot', hsecond']
      rfl
    · simp [FieldRef.unplaced, Token.value_eq_of_unplaced hsame,
        Token.value_eq_of_unplaced hsame']

theorem tracks_fieldRef? (hend : AtClause rest') (cause : Fault) :
    Tracks rest rest' start false FieldRef.unplaced (expect cause fieldRef?)
      (expect cause fieldRef?) :=
  tracks_expect fun h => abreast_fieldRef? hend h

theorem ofToken?_unplaced {t t' : Token} (ht : t.unplaced = t'.unplaced) :
    (ofToken? t).map unplaced = (ofToken? t').map unplaced := by
  unfold ofToken?
  rw [Token.kind_eq_of_unplaced ht, Token.value_eq_of_unplaced ht]
  cases t'.kind <;> rfl

theorem abreast_value? (h : Abreast rest rest' false l l') {e : Expr}
    (hread : value? l = some (e, r)) (hr : rest <:+ r) :
    ∃ e' r', value? l' = some (e', r') ∧ e.unplaced = e'.unplaced ∧
      Abreast rest rest' true r r' := by
  cases h with
  | here =>
      obtain ⟨used, rfl, hvalue⟩ := Grammar.value?_eq_some hread
      exact (not_suffix_of_append (by cases hvalue <;> simp) hr).elim
  | @token _ t t' _ _ ht h =>
      obtain ⟨value, hvalue, heq⟩ := Option.map_eq_some_iff.mp hread
      cases heq
      rw [hvalue] at h
      have hsame := ofToken?_unplaced ht
      rw [hvalue, Option.map_some] at hsame
      obtain ⟨value', hvalue', hsame⟩ := Option.map_eq_some_iff.mp hsame.symm
      exact ⟨value', _, by simp [value?, hvalue'], hsame.symm, h⟩

theorem tracks_value? (cause : Fault) :
    Tracks rest rest' false true unplaced (expect cause value?) (expect cause value?) :=
  tracks_expect fun h => abreast_value? h

theorem abreast_value?_eq_none (hend : AtClause rest') (h : Abreast rest rest' false l l')
    (hread : value? l = none) : value? l' = none := by
  cases h with
  | here =>
      cases rest' with
      | nil => rfl
      | cons t _ => simp [value?, ofToken?, hend.kind_eq]
  | @token _ t t' _ _ ht h =>
      have hnone : ofToken? t = none := by simpa [value?] using hread
      have hsame := ofToken?_unplaced ht
      rw [hnone, Option.map_none] at hsame
      simp [value?, Option.map_eq_none_iff.mp hsame.symm]

theorem splitSigned?_unplaced {t t' : Token} (ht : t.unplaced = t'.unplaced) :
    (splitSigned? t).map (Prod.map id unplaced) = (splitSigned? t').map (Prod.map id unplaced) := by
  unfold splitSigned?
  rw [Token.value_eq_of_unplaced ht]
  split
  · split <;> rfl
  · rfl

/-- Behind a value the same operation comes next, however it is written. -/
theorem abreast_nextOperation? (h : Abreast rest rest' true l l') {op : Arithmetic} {e : Expr}
    (hread : nextOperation? l = some (op, e, r)) (hr : rest <:+ r) :
    ∃ e' r', nextOperation? l' = some (op, e', r') ∧ e.unplaced = e'.unplaced ∧
      Abreast rest rest' true r r' := by
  cases h with
  | here =>
      obtain ⟨used, rfl, hoperation⟩ := Grammar.nextOperation?_eq_some hread
      exact (not_suffix_of_append (by cases hoperation <;> simp) hr).elim
  | @token _ t t' l l' ht h =>
      unfold nextOperation? at hread ⊢
      dsimp only at hread ⊢
      rw [← Token.kind_eq_of_unplaced ht, ← Token.value_eq_of_unplaced ht]
      split at hread
      · rename_i hkind
        obtain ⟨⟨found, operand⟩, hsplit, heq⟩ := Option.map_eq_some_iff.mp hread
        cases heq
        have hvalue : (ofToken? t).isSome = true := by simp [ofToken?, hkind]
        rw [hvalue] at h
        have hmap := splitSigned?_unplaced ht
        rw [hsplit, Option.map_some] at hmap
        obtain ⟨⟨found', operand'⟩, hsplit', heq⟩ := Option.map_eq_some_iff.mp hmap.symm
        obtain ⟨rfl, hsame⟩ := Prod.mk.inj heq
        exact ⟨operand', l', by simp [hsplit'], hsame.symm, h⟩
      · rename_i hkind
        have hvalue : (ofToken? t).isSome = false := by simp [ofToken?, hkind]
        rw [hvalue] at h
        split at hread
        · cases hread
        · rename_i hmissing
          obtain ⟨⟨e', r'⟩, hvalue, heq⟩ := Option.map_eq_some_iff.mp hread
          cases heq
          obtain ⟨e', r', hvalue', hsame, h⟩ := abreast_value? h hvalue hr
          exact ⟨e', r', by simp [hvalue'], hsame, h⟩
      · cases hread
  | operation hus hus' he h =>
      rw [Grammar.nextOperation?_of_operation hus] at hread
      cases hread
      exact ⟨_, _, Grammar.nextOperation?_of_operation hus' _, he, h⟩

/-- Where no operation comes next in the one list, none does in the other. -/
theorem abreast_nextOperation?_eq_none (hend : AtClause rest') (h : Abreast rest rest' true l l')
    (hread : nextOperation? l = none) : nextOperation? l' = none := by
  cases h with
  | here =>
      cases rest' with
      | nil => rfl
      | cons t _ => simp [nextOperation?, hend.kind_eq]
  | @token _ t t' l l' ht h =>
      unfold nextOperation? at hread ⊢
      dsimp only at hread ⊢
      rw [← Token.kind_eq_of_unplaced ht, ← Token.value_eq_of_unplaced ht]
      split at hread
      · have hsame := splitSigned?_unplaced ht
        rw [Option.map_eq_none_iff.mp hread, Option.map_none] at hsame
        simp [Option.map_eq_none_iff.mp hsame.symm]
      · rename_i hkind
        have hvalue : (ofToken? t).isSome = false := by simp [ofToken?, hkind]
        rw [hvalue] at h
        split at hread
        · rfl
        · have hnone := abreast_value?_eq_none hend h (Option.map_eq_none_iff.mp hread)
          simp [hnone]
      · rfl
  | operation hus hus' he h =>
      rw [Grammar.nextOperation?_of_operation hus] at hread
      cases hread

/-- The same chain of operations is read, however each is written. -/
theorem tracks_arithmeticFrom (hend : AtClause rest') (budget : Nat) {left left' : Expr}
    (hleft : left.unplaced = left'.unplaced) :
    Tracks rest rest' true true unplaced (arithmeticFrom left budget)
      (arithmeticFrom left' budget) := by
  intro l l' e r h hread hr
  induction budget generalizing left left' l l' with
  | zero =>
      unfold arithmeticFrom at hread ⊢
      split at hread
      · rename_i hnone
        cases hread
        rw [abreast_nextOperation?_eq_none hend h hnone]
        exact ⟨left', l', rfl, hleft, h⟩
      · cases hread
  | succ budget ih =>
      unfold arithmeticFrom at hread ⊢
      split at hread
      · rename_i hnone
        cases hread
        rw [abreast_nextOperation?_eq_none hend h hnone]
        exact ⟨left', l', rfl, hleft, h⟩
      · rename_i op operand r₁ hsome
        have hr₁ : rest <:+ r₁ := hr.trans ((reads_arithmeticFrom _ _).suffix hread)
        obtain ⟨operand', r₁', hsome', hsame, h₁⟩ := abreast_nextOperation? h hsome hr₁
        rw [hsome']
        exact ih (unplaced_combine hleft hsame) h₁ hread

theorem tracks_expression (hend : AtClause rest') (cause : Fault) :
    Tracks rest rest' false true unplaced (expression cause) (expression cause) :=
  (tracks_value? cause).bind (fun first => reads_arithmeticFrom first _) fun _ _ hfirst =>
    tracks_arithmeticFrom hend _ hfirst

theorem tracks_valueList (hend : AtClause rest') :
    Tracks rest rest' start true unplaced valueList valueList := by
  refine tracks_bracketed hend (reads_expression rfl) (tracks_expression hend _) ?_
  intro span span' items items' hitems
  simp only [unplaced, unplacedAll_eq_map, hitems]
  rfl

/-! ## Conditions -/

/-- A comparison with something after it.  At the very end of a clause it would depend on the
keyword that follows: `in` goes with `group`. -/
theorem abreast_comparison {afterLeading : Bool} (h : Abreast rest rest' false l l')
    {op : Comparison} (hread : comparison afterLeading l = .ok (op, r)) (hr : rest <:+ r)
    (hne : r ≠ rest) :
    ∃ r', comparison afterLeading l' = .ok (op, r') ∧ Abreast rest rest' false r r' := by
  cases h with
  | here =>
      have hsuffix := (reads_comparison afterLeading).suffix hread
      exact absurd (hsuffix.eq_of_length_le hr.length_le) hne
  | @token _ t t' l l' ht h =>
      have hotherwise : (if afterLeading then .ok (.equals, t :: l)
          else fail .expectingComparisonOperator (t :: l) :
            Except Error (Comparison × List Token)) = .ok (op, r) →
          ∃ r', (if afterLeading then .ok (.equals, t' :: l')
            else fail .expectingComparisonOperator (t' :: l') :
              Except Error (Comparison × List Token)) = .ok (op, r') ∧
            Abreast rest rest' false r r' := by
        intro hread
        cases afterLeading with
        | false => cases hread
        | true =>
            cases hread
            exact ⟨t' :: l', rfl, .token ht h⟩
      unfold comparison at hread ⊢
      dsimp only at hread ⊢
      rw [← Token.kind_eq_of_unplaced ht, ← Token.value_eq_of_unplaced ht]
      by_cases hkind : (t.kind == .name || (t.kind == .operation && !afterLeading)) = true
      · have hvalue : (ofToken? t).isSome = false := by
          have hkind : t.kind = .name ∨ t.kind = .operation := by
            simp only [Bool.or_eq_true, Bool.and_eq_true, beq_iff_eq] at hkind
            exact hkind.imp_right And.left
          obtain hkind | hkind := hkind <;> simp [ofToken?, hkind]
        rw [hvalue] at h
        rw [if_pos hkind] at hread ⊢
        cases hop : Comparison.ofSpelling t.value with
        | missing =>
            rw [hop] at hread
            exact hotherwise hread
        | oneOf | contains =>
            rw [hop] at hread
            dsimp only at hread ⊢
            split at hread
            · rename_i u _ hword
              cases hread
              obtain ⟨u', r', hword', -, h⟩ := h.token?_eq_some (plain_keyword _) hword hr
              exact ⟨r', by simp only [keyword?, hword'], h⟩
            · rename_i hword
              cases hread
              have hword' := h.token?_eq_none (plain_keyword _) (absurd · hne) hword
              exact ⟨l', by simp only [keyword?, hword'], h⟩
        | _ =>
            rw [hop] at hread
            cases hread
            exact ⟨l', rfl, h⟩
      · rw [if_neg hkind] at hread ⊢
        exact hotherwise hread

/-- A value is not a name, so no field is read in its place. -/
theorem tracks_operand (hend : AtClause rest') :
    Tracks rest rest' false true unplaced Grammar.operand Grammar.operand := by
  intro l l' e r h hread hr
  unfold Grammar.operand at hread
  split at hread
  · rename_i other _ hfield
    cases hread
    obtain ⟨other', r', hfield', hsame, h⟩ := abreast_fieldRef? hend h hfield hr
    refine ⟨ofField other', r', by simp only [Grammar.operand, hfield'], ?_, h.mono⟩
    simp only [ofField, unplaced, hsame]
    rfl
  · obtain ⟨e', r', hread', hsame, htail⟩ := tracks_expression hend _ h hread hr
    obtain ⟨used, hused, hexpression⟩ := Grammar.sound_expression _ _ _ _ hread
    obtain ⟨t, us, rfl, ht⟩ := hexpression.start
    refine ⟨e', r', ?_, hsame, htail⟩
    cases h with
    | here => exact (not_suffix_of_append (List.cons_ne_nil t us) (hused ▸ hr)).elim
    | @token _ _ t' _ _ heq h =>
        cases hused
        have hname : t'.isName = false := by
          rw [← ht, Token.isName, Token.isName, Token.kind_eq_of_unplaced heq]
        rw [Grammar.operand, Grammar.fieldRef?_eq_none hname]
        exact hread'

theorem tracks_rightSide (hend : AtClause rest') (op : Comparison) :
    Tracks rest rest' false true unplaced (rightSide op) (rightSide op) := by
  cases op with
  | inGroup => exact tracks_value? _
  | under => exact tracks_value? _
  | oneOf => exact tracks_valueList hend
  | _ => exact tracks_operand hend

/-- A right side takes a token. -/
theorem ne_of_rightSide {op : Comparison} {e : Expr} (hread : rightSide op l = .ok (e, r))
    (hr : rest <:+ r) : l ≠ rest := by
  rintro rfl
  obtain ⟨used, rfl, hright⟩ := Grammar.sound_rightSide _ _ _ _ hread
  refine not_suffix_of_append ?_ hr
  cases hright with
  | group hvalue | path hvalue =>
      obtain ⟨t, rfl, -⟩ := hvalue.start
      exact List.cons_ne_nil _ _
  | list hlist =>
      obtain @⟨opening, ts, items, closing, -, -, -⟩ := hlist
      exact List.cons_ne_nil _ _
  | field hop hfield =>
      obtain ⟨t, us, rfl, -⟩ := hfield.start
      exact List.cons_ne_nil _ _
  | expression hop hexpression =>
      obtain ⟨t, us, rfl, -⟩ := hexpression.start
      exact List.cons_ne_nil _ _

/-- No clause begins like an operator in front of an operand. -/
theorem leading_ofToken?_eq_none {t : Token} (hrest : AtClause (t :: rest)) :
    Leading.ofToken? t = none := by
  have hword : ∀ word, (∀ kind, Text.sameIgnoringCase (Grammar.clauseWord kind) word = false) →
      t.isKeyword word = false := fun word hword => stops_cons.mp (hrest.stops_keyword hword)
  simp [Leading.ofToken?, hword "not" (fun kind => by cases kind <;> decide),
    hword "ever" (fun kind => by cases kind <;> decide),
    hword "never" (fun kind => by cases kind <;> decide)]

theorem leadingRun_eq_nil (hrest : AtClause rest) : leadingRun rest = [] := by
  cases rest with
  | nil => rfl
  | cons t ts => rw [leadingRun, leading_ofToken?_eq_none hrest]

theorem leading?_eq_none (hrest : AtClause rest) : leading? rest = none := by
  cases rest with
  | nil => rfl
  | cons t ts =>
      exact Grammar.leading?_eq_none (leading_ofToken?_eq_none hrest)
        (stops_cons.mp (hrest.stops_operation "!")) ts

theorem leading_ofToken?_unplaced {t t' : Token} (ht : t.unplaced = t'.unplaced) :
    Leading.ofToken? t = Leading.ofToken? t' := by
  change Leading.ofToken? t.unplaced = Leading.ofToken? t'.unplaced
  rw [ht]

theorem ofToken?_of_leading {t : Token} {op : Leading} (h : Leading.ofToken? t = some op) :
    ofToken? t = none := by
  simp [ofToken?, Token.kind_of_isKeyword (Grammar.isKeyword_of_ofToken? h)]

theorem abreast_leadingRun (hstart : AtClause rest) (hend : AtClause rest')
    (h : Abreast rest rest' false l l') :
    leadingRun l = leadingRun l' ∧
      Abreast rest rest' false (l.drop (leadingRun l).length)
        (l'.drop (leadingRun l).length) := by
  induction l generalizing l' with
  | nil =>
      cases h with
      | here => exact ⟨(leadingRun_eq_nil hend).symm, .here⟩
  | cons t l ih =>
      cases h with
      | here =>
          rw [leadingRun_eq_nil hstart, leadingRun_eq_nil hend]
          exact ⟨rfl, .here⟩
      | @token _ _ t' _ l' ht h =>
          unfold leadingRun
          rw [← leading_ofToken?_unplaced ht]
          cases hleading : Leading.ofToken? t with
          | none => exact ⟨rfl, .token ht h⟩
          | some op =>
              rw [ofToken?_of_leading hleading] at h
              exact ⟨congrArg (op :: ·) (ih h).1, (ih h).2⟩

theorem unplaced_foldr_apply (operators : List Leading) {e e' : Expr}
    (he : e.unplaced = e'.unplaced) :
    (operators.foldr (fun op e => op.apply e) e).unplaced =
      (operators.foldr (fun op e => op.apply e) e').unplaced := by
  induction operators with
  | nil => exact he
  | cons op operators ih => exact unplaced_apply op ih

/-- The same condition is read before any clause. -/
theorem tracks_condition? (hstart : AtClause rest) (hend : AtClause rest') :
    Tracks rest rest' start true unplaced condition? condition? := by
  intro l l' e r h hread hr
  obtain ⟨⟨left, r₁⟩, hleft, hread⟩ := bind_eq_ok_iff.mp hread
  dsimp only at hread
  split at hread
  · cases hread
  · rename_i hcount
    obtain ⟨⟨op, r₂⟩, hop, hread⟩ := bind_eq_ok_iff.mp hread
    obtain ⟨⟨right, r₃⟩, hright, hread⟩ := bind_eq_ok_iff.mp hread
    cases hread
    have hr₂ : rest <:+ r₂ := hr.trans ((reads_rightSide op).suffix hright)
    have hr₁ : rest <:+ r₁ :=
      (hr₂.trans ((reads_comparison _).suffix hop)).trans (List.drop_suffix _ r₁)
    obtain ⟨left', r₁', hleft', hsame, h₁⟩ := tracks_fieldRef? hend _ h hleft hr₁
    obtain ⟨hrun, hdrop⟩ := abreast_leadingRun hstart hend h₁
    obtain ⟨r₂', hop', h₂⟩ := abreast_comparison hdrop hop hr₂ (ne_of_rightSide hright hr)
    obtain ⟨right', r', hright', hsame', h₃⟩ := tracks_rightSide hend op h₂ hright hr
    refine ⟨_, r', bind_eq_ok_iff.mpr ⟨(left', r₁'), hleft', ?_⟩,
      unplaced_foldr_apply (leadingRun r₁) (unplaced_compare hsame hsame'), h₃⟩
    dsimp only
    rw [← hrun, if_neg hcount]
    exact bind_eq_ok_iff.mpr ⟨(op, r₂'), hop', bind_eq_ok_iff.mpr ⟨(right', r'), hright', rfl⟩⟩

/-! ## Filters -/

theorem tracks_conjunction (hend : AtClause rest') {item : Parser Expr} (hreads : Reads item)
    (hitem : Tracks rest rest' start true unplaced item item) :
    Tracks rest rest' start true unplaced (conjunction item) (conjunction item) := by
  have hstops : Stops Grammar.isAnd rest' :=
    hend.stops_connective (fun kind => by cases kind <;> decide) "&&"
  exact (tracks_sepBy hreads ((plain_keyword "and").or (plain_operation "&&" (by decide)))
    isAnd_eq hstops hitem).bind (fun _ => reads_here _) fun _ _ hes => tracks_here (unplaced_joined hes)

theorem tracks_disjunction (hend : AtClause rest') {item : Parser Expr} (hreads : Reads item)
    (hitem : Tracks rest rest' start true unplaced item item) :
    Tracks rest rest' start true unplaced (disjunction item) (disjunction item) := by
  have hstops : Stops Grammar.isOr rest' :=
    hend.stops_connective (fun kind => by cases kind <;> decide) "||"
  exact (tracks_sepBy (reads_conjunction hreads)
    ((plain_keyword "or").or (plain_operation "||" (by decide))) isOr_eq hstops
    (tracks_conjunction hend hreads hitem)).bind (fun _ => reads_here _)
    fun _ _ hes => tracks_here (unplaced_joined hes)

theorem tracks_parenthesised (hend : AtClause rest') {item : Parser Expr} (hreads : Reads item)
    (hitem : Tracks rest rest' start true unplaced item item) (opening opening' : Token) :
    Tracks rest rest' start true unplaced (parenthesised item opening)
      (parenthesised item opening') := by
  refine (tracks_disjunction hend hreads hitem).bind
    (fun _ => (reads_closing rfl).bind fun _ => reads_here _) fun inner inner' hinner => ?_
  refine Tracks.mono ((tracks_token (plain_operation ")" (by decide)) _).bind
    (fun _ => reads_here _) fun _ _ _ => tracks_here ?_)
  rw [unplaced_withMark, unplaced_withMark, hinner]
  rfl

/-- No operation begins like an operator in front of an operand. -/
theorem leading?_operation_eq_none {us : List Token} {op : Arithmetic} {e : Expr}
    (hus : Grammar.Operation us op e) (l : List Token) : leading? (us ++ l) = none := by
  obtain ⟨t, vs, rfl, ht⟩ := hus.start
  have hplain : ∀ {p}, Plain p → p t = false := fun hp =>
    Bool.eq_false_iff.mpr fun hpt => by simp [hp.continues hpt] at ht
  refine Grammar.leading?_eq_none ?_ (hplain (plain_operation "!" (by decide))) _
  simp [Leading.ofToken?, hplain (plain_keyword _)]

/-- The same operator leads either list, or none does. -/
theorem abreast_leading? (hstart : AtClause rest) (hend : AtClause rest')
    (h : Abreast rest rest' start l l') :
    (leading? l = none ∧ leading? l' = none) ∨
      ∃ op span span' r r', leading? l = some (op, span, r) ∧ leading? l' = some (op, span', r') ∧
        Abreast rest rest' false r r' := by
  cases h with
  | here => exact .inl ⟨leading?_eq_none hstart, leading?_eq_none hend⟩
  | @token _ t t' l l' ht h =>
      have hmark : t.isOperation "!" = t'.isOperation "!" := congrArg (·.isOperation "!") ht
      simp only [leading?, ← leading_ofToken?_unplaced ht, ← hmark]
      cases hleading : Leading.ofToken? t with
      | some op =>
          rw [ofToken?_of_leading hleading] at h
          exact .inr ⟨op, t.span, t'.span, l, l', rfl, rfl, h⟩
      | none =>
          cases hexclamation : t.isOperation "!" with
          | true =>
              rw [(plain_operation "!" (by decide)).value hexclamation] at h
              exact .inr ⟨.not, t.span, t'.span, l, l', rfl, rfl, h⟩
          | false => exact .inl ⟨rfl, rfl⟩
  | operation hus hus' he h =>
      exact .inl ⟨leading?_operation_eq_none hus _, leading?_operation_eq_none hus' _⟩

/-- Operands are tracked at every depth. -/
theorem tracks_nested (hstart : AtClause rest) (hend : AtClause rest') (budget : Nat) :
    Tracks rest rest' start true unplaced (operand budget) (operand budget) := by
  have hopens : Plain (·.isOperation "(") := plain_operation "(" (by decide)
  induction budget using Nat.strongRecOn generalizing start with
  | ind budget ih =>
      intro l l' e r h hread hr
      rw [operand.eq_def] at hread ⊢
      dsimp only at hread ⊢
      obtain ⟨hnone, hnone'⟩ | ⟨op, span, span', r₁, r₁', hsome, hsome', h₁⟩ :=
        abreast_leading? hstart hend h
      · rw [hnone] at hread
        rw [hnone']
        dsimp only at hread ⊢
        cases hopening : operation? "(" l with
        | none =>
            rw [hopening] at hread
            have hopening' : operation? "(" l' = none :=
              h.token?_eq_none hopens (fun _ => hend.stops_operation "(") hopening
            rw [hopening']
            exact tracks_condition? hstart hend h hread hr
        | some found =>
            obtain ⟨opening, r₁⟩ := found
            rw [hopening] at hread
            cases budget with
            | zero => cases hread
            | succ budget =>
                have hreads := reads_operand budget
                have hr₁ : rest <:+ r₁ :=
                  hr.trans ((reads_parenthesised hreads opening).suffix hread)
                obtain ⟨opening', r₁', hopening', -, h₁⟩ :=
                  h.token?_eq_some hopens hopening hr₁
                rw [operation?, hopening']
                exact tracks_parenthesised hend hreads (ih budget (Nat.lt_succ_self budget))
                  opening opening' h₁ hread hr
      · rw [hsome] at hread
        rw [hsome']
        cases budget with
        | zero => cases hread
        | succ budget =>
            obtain ⟨⟨inner, r₂⟩, hinner, hread⟩ := bind_eq_ok_iff.mp hread
            cases hread
            obtain ⟨inner', r', hinner', hsame, h₂⟩ :=
              ih budget (Nat.lt_succ_self budget) h₁ hinner hr
            refine ⟨_, r', bind_eq_ok_iff.mpr ⟨(inner', r'), hinner', rfl⟩, ?_, h₂⟩
            rw [unplaced_withSpan, unplaced_withSpan, unplaced_apply op hsame]

theorem tracks_filter (hstart : AtClause rest) (hend : AtClause rest') :
    Tracks rest rest' start true unplaced filter filter :=
  tracks_disjunction hend (reads_operand maxNesting) (tracks_nested hstart hend maxNesting)

end Readers

end Expr

end TrackerQuery
