import Mathlib.Data.List.Nodup
import Mathlib.Data.List.Perm.Basic
import TrackerQuery.Proofs.AlikeDocument
import TrackerQuery.Proofs.ClauseEnd
import TrackerQuery.Proofs.Moved
import TrackerQuery.Proofs.Respelled

/-!
# The order of clauses

A query may give its clauses in any order.  The tokens after the columns fall into segments,
one for what each clause took.  With the segments in another order the same clauses are
read, each from its own segment, and they fill the same query up to places.  So the query
compiles to the same document, columns and order, or is refused for the same reason.
-/

namespace TrackerQuery

open TrackerQuery.Parser

namespace Select

section Readers

variable {rest rest' : List Token} {start : Bool}

/-- A reader that makes something of one token. -/
theorem tracks_map {α γ : Type} {f : α → γ} {p : Token → Bool}
    {g : Token × List Token → α × List Token} (hp : Plain p)
    (hg : ∀ t t' rest rest', t.unplaced = t'.unplaced →
      f (g (t, rest)).1 = f (g (t', rest')).1) (hrest : ∀ t rest, (g (t, rest)).2 = rest)
    (cause : Fault) :
    Tracks rest rest' start false f (expect cause fun l => (token? p l).map g)
      (expect cause fun l => (token? p l).map g) := by
  refine tracks_expect fun {l l' a r} h hread hr => ?_
  obtain ⟨⟨t, r₁⟩, hfound, heq⟩ := Option.map_eq_some_iff.mp hread
  obtain rfl : r₁ = r := by rw [← hrest t r₁, heq]
  obtain ⟨t', r', hfound', ht, h⟩ := h.token?_eq_some hp hfound hr
  refine ⟨(g (t', r')).1, r', Option.map_eq_some_iff.mpr ⟨(t', r'), hfound', ?_⟩, ?_, h⟩
  · exact Prod.ext rfl (hrest t' r')
  · rw [← hg t t' r₁ r' ht, heq]

theorem tracks_tableRef? (cause : Fault) :
    Tracks rest rest' start false TableRef.unplaced (expect cause tableRef?)
      (expect cause tableRef?) :=
  tracks_map plain_isName
    (fun _ _ _ _ ht => by simp [TableRef.unplaced, Token.value_eq_of_unplaced ht])
    (fun _ _ => rfl) cause

theorem tracks_modeItem? (cause : Fault) :
    Tracks rest rest' start false ModeItem.unplaced (expect cause modeItem?)
      (expect cause modeItem?) :=
  tracks_map plain_isName
    (fun _ _ _ _ ht => by simp [ModeItem.unplaced, Token.value_eq_of_unplaced ht])
    (fun _ _ => rfl) cause

theorem tracks_modeList (hend : AtClause rest') :
    Tracks rest rest' start true ModeList.unplaced modeList modeList := by
  refine tracks_bracketed hend (reads_modeItem? rfl) (tracks_modeItem? _).mono ?_
  intro span span' items items' hitems
  simp [ModeList.unplaced, hitems]

theorem unplaced_directed {field field' : FieldRef} (h : field.unplaced = field'.unplaced)
    (direction : Direction) (span span' : Span) :
    FieldRef.unplaced { field with direction, span } =
      FieldRef.unplaced { field' with direction, span := span' } :=
  congrArg (fun f : FieldRef => { f with direction }) h

theorem tracks_directed (hend : AtClause rest') {field field' : FieldRef}
    (hfield : field.unplaced = field'.unplaced) :
    Tracks rest rest' false true FieldRef.unplaced (directed field) (directed field') := by
  intro l l' found r h hread hr
  unfold directed at hread ⊢
  split at hread
  · rename_i t _ hasc
    cases hread
    obtain ⟨t', r', hasc', -, h⟩ := h.token?_eq_some (plain_keyword _) hasc hr
    rw [keyword?, hasc']
    exact ⟨_, r', rfl, unplaced_directed hfield .ascending _ _, h.mono⟩
  · rename_i hasc
    have hasc' : keyword? "asc" l' = none := h.token?_eq_none (plain_keyword _)
      (fun _ => hend.stops_keyword fun kind => by cases kind <;> decide) hasc
    rw [hasc']
    split at hread
    · rename_i t _ hdesc
      cases hread
      obtain ⟨t', r', hdesc', -, h⟩ := h.token?_eq_some (plain_keyword _) hdesc hr
      rw [keyword?, hdesc']
      exact ⟨_, r', rfl, unplaced_directed hfield .descending _ _, h.mono⟩
    · rename_i hdesc
      cases hread
      have hdesc' : keyword? "desc" l' = none := h.token?_eq_none (plain_keyword _)
        (fun _ => hend.stops_keyword fun kind => by cases kind <;> decide) hdesc
      rw [hdesc']
      exact ⟨field', l', rfl, hfield, h.mono⟩

theorem tracks_orderedField (hend : AtClause rest') :
    Tracks rest rest' start true FieldRef.unplaced orderedField orderedField :=
  (Expr.tracks_fieldRef? hend _).bind reads_directed fun _ _ => tracks_directed hend

theorem tracks_fieldList (hend : AtClause rest') (kind : FieldListKind) :
    Tracks rest rest' start true FieldList.unplaced (fieldList kind) (fieldList kind) := by
  have hitem : Tracks rest rest' start true FieldRef.unplaced (listItem kind) (listItem kind) := by
    cases kind with
    | order => exact tracks_orderedField hend
    | _ => exact (Expr.tracks_fieldRef? hend _).mono
  refine (tracks_sepBy (reads_listItem kind) (plain_operation "," (by decide)) isComma_eq
    (hend.stops_operation ",") hitem).bind (fun _ => reads_here _) fun _ _ hfields =>
    tracks_here ?_
  simp [FieldList.unplaced, hfields]

/-- The columns, with `none` for `*`. -/
theorem tracks_columns (hend : AtClause rest') :
    Tracks rest rest' false true (Option.map FieldList.unplaced) Grammar.columns
      Grammar.columns := by
  have hstars : Plain (·.isOperation "*") := plain_operation "*" (by decide)
  intro l l' list r h hread hr
  unfold Grammar.columns at hread ⊢
  split at hread
  · rename_i t _ hstar
    cases hread
    obtain ⟨t', r', hstar', -, h⟩ := h.token?_eq_some hstars hstar hr
    rw [operation?, hstar']
    exact ⟨none, r', rfl, rfl, h.mono⟩
  · rename_i hstar
    obtain ⟨⟨list, _⟩, hlist, heq⟩ := map_eq_ok_iff.mp hread
    cases heq
    have hstar' : operation? "*" l' = none :=
      h.token?_eq_none hstars (fun _ => hend.stops_operation "*") hstar
    obtain ⟨list', r', hlist', hsame, h⟩ := tracks_fieldList hend .select h hlist hr
    rw [hstar']
    exact ⟨some list', r', map_eq_ok_iff.mpr ⟨(list', r'), hlist', rfl⟩, congrArg some hsame, h⟩

end Readers

/-! ## What a clause says -/

inductive ClauseBody where
  | table (table : TableRef)
  | filter (filter : Expr)
  | grouping (list : FieldList)
  | ordering (list : FieldList)
  | asOf (moment : Expr)
  | modes (modes : ModeList)

namespace ClauseBody

def kind : ClauseBody → ClauseKind
  | .table _ => .from
  | .filter _ => .where
  | .grouping _ => .group
  | .ordering _ => .order
  | .asOf _ => .asOf
  | .modes _ => .mode

def unplaced : ClauseBody → ClauseBody
  | .table ref => .table ref.unplaced
  | .filter e => .filter e.unplaced
  | .grouping list => .grouping list.unplaced
  | .ordering list => .ordering list.unplaced
  | .asOf moment => .asOf moment.unplaced
  | .modes list => .modes list.unplaced

theorem kind_unplaced (body : ClauseBody) : body.unplaced.kind = body.kind := by
  cases body <;> rfl

def read : ClauseKind → Parser ClauseBody
  | .from, tokens => do
      let (ref, rest) ← expect .expectingTableName tableRef? tokens
      return (.table ref, rest)
  | .where, tokens => do
      let (e, rest) ← Expr.filter tokens
      return (.filter e, rest)
  | .group, tokens => do
      let (_, rest) ← expect .expectingBy (keyword? "by") tokens
      let (list, rest) ← fieldList .group rest
      return (.grouping list, rest)
  | .order, tokens => do
      let (_, rest) ← expect .expectingBy (keyword? "by") tokens
      let (list, rest) ← fieldList .order rest
      return (.ordering list, rest)
  | .asOf, tokens => do
      let (moment, rest) ← expect .expectingValue Expr.value? tokens
      return (.asOf moment, rest)
  | .mode, tokens => do
      let (list, rest) ← modeList tokens
      return (.modes list, rest)

theorem kind_of_read {kind : ClauseKind} {tokens rest : List Token} {body : ClauseBody}
    (hread : read kind tokens = .ok (body, rest)) : body.kind = kind := by
  cases kind with
  | «from» | «where» | asOf | mode =>
      obtain ⟨_, -, hread⟩ := bind_eq_ok_iff.mp hread
      cases hread
      rfl
  | group | order =>
      obtain ⟨_, -, hread⟩ := bind_eq_ok_iff.mp hread
      obtain ⟨_, -, hread⟩ := bind_eq_ok_iff.mp hread
      cases hread
      rfl

theorem reads_read (kind : ClauseKind) : Reads (read kind) := by
  cases kind with
  | «from» => exact (reads_tableRef? rfl).bind fun _ => reads_here _
  | «where» => exact Expr.reads_filter.bind fun _ => reads_here _
  | asOf => exact (Expr.finds_value?.reads rfl).bind fun _ => reads_here _
  | mode => exact reads_modeList.bind fun _ => reads_here _
  | group =>
      exact ((finds_keyword "by").reads rfl).bind fun _ =>
        (reads_fieldList .group).bind fun _ => reads_here _
  | order =>
      exact ((finds_keyword "by").reads rfl).bind fun _ =>
        (reads_fieldList .order).bind fun _ => reads_here _

/-- What a clause says does not depend on the clause that follows. -/
theorem tracks_read {rest rest' : List Token} (hstart : AtClause rest) (hend : AtClause rest')
    (kind : ClauseKind) : Tracks rest rest' false true unplaced (read kind) (read kind) := by
  cases kind with
  | «from» =>
      exact (tracks_tableRef? _).mono.bind (fun _ => reads_here _) fun _ _ h =>
        tracks_here (congrArg table h)
  | «where» =>
      exact (Expr.tracks_filter hstart hend).bind (fun _ => reads_here _) fun _ _ h =>
        tracks_here (congrArg filter h)
  | asOf =>
      exact (Expr.tracks_value? _).bind (fun _ => reads_here _) fun _ _ h =>
        tracks_here (congrArg asOf h)
  | mode =>
      exact (tracks_modeList hend).bind (fun _ => reads_here _) fun _ _ h =>
        tracks_here (congrArg modes h)
  | group =>
      refine (tracks_token (plain_keyword "by") _).bind (fun _ => ?_) fun _ _ _ => ?_
      · exact (reads_fieldList .group).bind fun _ => reads_here _
      · exact (tracks_fieldList hend .group).bind (fun _ => reads_here _) fun _ _ h =>
          tracks_here (congrArg grouping h)
  | order =>
      refine (tracks_token (plain_keyword "by") _).bind (fun _ => ?_) fun _ _ _ => ?_
      · exact (reads_fieldList .order).bind fun _ => reads_here _
      · exact (tracks_fieldList hend .order).bind (fun _ => reads_here _) fun _ _ h =>
          tracks_here (congrArg ordering h)

end ClauseBody

def put (query : Select) : ClauseBody → Select
  | .table table => { query with table := some table }
  | .filter filter => { query with filter := some filter }
  | .grouping list => { query with grouping := some list }
  | .ordering list => { query with ordering := some list }
  | .asOf moment => { query with asOf := some moment }
  | .modes modes => { query with modes := some modes }

def has (query : Select) : ClauseKind → Bool
  | .from => query.table.isSome
  | .where => query.filter.isSome
  | .group => query.grouping.isSome
  | .order => query.ordering.isSome
  | .asOf => query.asOf.isSome
  | .mode => query.modes.isSome

section Put

variable {query : Select} {body other : ClauseBody}

theorem has_put (kind : ClauseKind) :
    (query.put body).has kind = (decide (body.kind = kind) || query.has kind) := by
  cases body <;> cases kind <;> rfl

theorem has_unplaced (kind : ClauseKind) : query.unplaced.has kind = query.has kind := by
  cases kind <;> exact Option.isSome_map

theorem unplaced_put : (query.put body).unplaced = query.unplaced.put body.unplaced := by
  cases body <;> rfl

/-- Clauses of two kinds do not meet. -/
theorem put_comm (h : body.kind ≠ other.kind) :
    (query.put body).put other = (query.put other).put body := by
  cases body <;> cases other <;> first | rfl | exact absurd rfl h

theorem once_bind_eq_ok_iff {α β : Type} {earlier : Option β} {cause : Fault} {word : Token}
    {f : Unit → Except Error α} {a : α} :
    (once earlier cause word >>= f) = .ok a ↔ earlier.isSome = false ∧ f () = .ok a := by
  rw [check_bind_eq_ok_iff, once, Error.ensure_eq_ok_iff]
  cases earlier <;> simp

/-- A clause is read if the query has none of its kind, and put into it. -/
theorem clause_eq_ok_iff {word : Token} {kind : ClauseKind} {tokens rest : List Token}
    {next : Select} :
    clause query word kind tokens = .ok (next, rest) ↔
      query.has kind = false ∧ ∃ body, ClauseBody.read kind tokens = .ok (body, rest) ∧
        next = query.put body := by
  cases kind with
  | «from» | «where» | asOf | mode =>
      constructor
      · intro hread
        obtain ⟨honce, hread⟩ := once_bind_eq_ok_iff.mp hread
        obtain ⟨⟨found, _⟩, hfound, hread⟩ := bind_eq_ok_iff.mp hread
        cases hread
        exact ⟨honce, _, bind_eq_ok_iff.mpr ⟨(found, rest), hfound, rfl⟩, rfl⟩
      · rintro ⟨honce, body, hread, rfl⟩
        obtain ⟨⟨found, _⟩, hfound, hread⟩ := bind_eq_ok_iff.mp hread
        cases hread
        exact once_bind_eq_ok_iff.mpr ⟨honce, bind_eq_ok_iff.mpr ⟨(found, rest), hfound, rfl⟩⟩
  | group | order =>
      constructor
      · intro hread
        obtain ⟨⟨by_, others⟩, hby, hread⟩ := bind_eq_ok_iff.mp hread
        obtain ⟨honce, hread⟩ := once_bind_eq_ok_iff.mp hread
        obtain ⟨⟨found, _⟩, hfound, hread⟩ := bind_eq_ok_iff.mp hread
        cases hread
        exact ⟨honce, _, bind_eq_ok_iff.mpr ⟨(by_, others), hby,
          bind_eq_ok_iff.mpr ⟨(found, rest), hfound, rfl⟩⟩, rfl⟩
      · rintro ⟨honce, body, hread, rfl⟩
        obtain ⟨⟨by_, others⟩, hby, hread⟩ := bind_eq_ok_iff.mp hread
        obtain ⟨⟨found, _⟩, hfound, hread⟩ := bind_eq_ok_iff.mp hread
        cases hread
        exact bind_eq_ok_iff.mpr ⟨(by_, others), hby, once_bind_eq_ok_iff.mpr ⟨honce,
          bind_eq_ok_iff.mpr ⟨(found, rest), hfound, rfl⟩⟩⟩

end Put

/-! ## Segments -/

/-- The tokens that each clause takes, with its keyword. -/
def clauseSegments (query : Select) : List Token → List (List Token)
  | [] => []
  | word :: tokens =>
      match ClauseKind.ofToken? word with
      | none => []
      | some kind =>
          match clause query word kind tokens with
          | .error _ => []
          | .ok (next, rest) =>
              if rest.length ≤ tokens.length then
                (word :: tokens.take (tokens.length - rest.length)) :: clauseSegments next rest
              else []
termination_by tokens => tokens.length

/-- The word `select` with the columns, and the segments of the clauses. -/
def layout (tokens : List Token) : List Token × List (List Token) :=
  match Grammar.columns (tokens.drop 1) with
  | .error _ => (tokens, [])
  | .ok (columns, rest) =>
      (tokens.take (tokens.length - rest.length), clauseSegments { columns } rest)

/-- The segment is a clause that says this where another clause or the end of the query
follows. -/
inductive Says : List Token → ClauseBody → Prop
  | mk {word : Token} {used rest : List Token} {body : ClauseBody}
      (hword : ClauseKind.ofToken? word = some body.kind) (hrest : AtClause rest)
      (hread : ClauseBody.read body.kind (used ++ rest) = .ok (body, rest)) :
      Says (word :: used) body

/-- Clauses that may be read into the query one after the other. -/
structure Fits (query : Select) (bodies : List ClauseBody) : Prop where
  nodup : (bodies.map ClauseBody.kind).Nodup
  free : ∀ body ∈ bodies, query.has body.kind = false

/-- A segment says the same in front of any other clause. -/
theorem Says.read {segment segment' : List Token} {body : ClauseBody} (h : Says segment body)
    (hsegment : segment.map Token.unplaced = segment'.map Token.unplaced) {rest' : List Token}
    (hrest' : AtClause rest') :
    ∃ word used body', segment' = word :: used ∧
      ClauseKind.ofToken? word = some body.kind ∧
      ClauseBody.read body.kind (used ++ rest') = .ok (body', rest') ∧
      body.unplaced = body'.unplaced := by
  obtain @⟨word, used, rest, body, hword, hrest, hread⟩ := h
  cases segment' with
  | nil => cases hsegment
  | cons word' used' =>
      obtain ⟨heq, hused⟩ := List.cons.inj hsegment
      obtain ⟨body', r', hread', hsame, h⟩ := ClauseBody.tracks_read hrest hrest' body.kind
        (abreast_append hused) hread (List.suffix_refl rest)
      obtain rfl := h.eq_of_end
      refine ⟨word', used', body', rfl, ?_, hread', hsame⟩
      change ClauseKind.ofToken? word'.unplaced = some body.kind
      rw [← heq]
      exact hword

theorem atClause_of_clauses {query last : Select} {tokens : List Token}
    (hread : clauses query tokens = .ok (last, [])) : AtClause tokens := by
  cases tokens with
  | nil => exact fun _ h => nomatch h
  | cons word tokens =>
      intro t ht
      cases ht
      rw [clauses] at hread
      split at hread
      · cases hread
      · rename_i hkind
        exact Option.isSome_iff_exists.mpr ⟨_, hkind⟩

/-- One clause is read, and the others into the query that has it. -/
theorem clauses_cons {query : Select} {word : Token} {used rest : List Token} {body : ClauseBody}
    (hword : ClauseKind.ofToken? word = some body.kind) (hfree : query.has body.kind = false)
    (hread : ClauseBody.read body.kind (used ++ rest) = .ok (body, rest)) :
    clauses query (word :: (used ++ rest)) = clauses (query.put body) rest ∧
      clauseSegments query (word :: (used ++ rest)) =
        (word :: used) :: clauseSegments (query.put body) rest := by
  have hclause : clause query word body.kind (used ++ rest) = .ok (query.put body, rest) :=
    clause_eq_ok_iff.mpr ⟨hfree, body, hread, rfl⟩
  have hshorter : rest.length ≤ (used ++ rest).length := by simp
  constructor
  · rw [clauses]
    simp only [hword, hclause]
    exact if_pos hshorter
  · rw [clauseSegments]
    simp only [hword, hclause, hshorter, if_true]
    simp

theorem clauses_eq_ok_cons {query last : Select} {word : Token} {tokens : List Token}
    (hread : clauses query (word :: tokens) = .ok (last, [])) :
    ∃ body used rest, tokens = used ++ rest ∧
      ClauseKind.ofToken? word = some body.kind ∧ query.has body.kind = false ∧
      ClauseBody.read body.kind (used ++ rest) = .ok (body, rest) ∧
      clauses (query.put body) rest = .ok (last, []) := by
  rw [clauses] at hread
  split at hread
  · cases hread
  · rename_i kind hkind
    obtain ⟨⟨next, rest⟩, hclause, hothers⟩ := bind_eq_ok_iff.mp hread
    dsimp only at hothers
    split at hothers
    · obtain ⟨hfree, body, hbody, rfl⟩ := clause_eq_ok_iff.mp hclause
      obtain rfl := ClauseBody.kind_of_read hbody
      obtain ⟨used, rfl⟩ := (ClauseBody.reads_read body.kind).suffix hbody
      exact ⟨body, used, rest, rfl, hkind, hfree, hbody, hothers⟩
    · cases hothers

/-- Clauses fit if the first does and the others fit behind it. -/
theorem fits_cons {query : Select} {body : ClauseBody} {bodies : List ClauseBody} :
    query.Fits (body :: bodies) ↔ query.has body.kind = false ∧ (query.put body).Fits bodies := by
  constructor
  · rintro ⟨hnodup, hfree⟩
    obtain ⟨hnotMem, hnodup⟩ := List.nodup_cons.mp hnodup
    refine ⟨hfree body List.mem_cons_self, hnodup, fun other hother => ?_⟩
    have hkind : body.kind ≠ other.kind := fun h =>
      hnotMem (h ▸ List.mem_map_of_mem hother)
    simp [has_put, hkind, hfree other (List.mem_cons_of_mem body hother)]
  · rintro ⟨hfirst, hnodup, hfree⟩
    have hothers : ∀ other ∈ bodies, body.kind ≠ other.kind ∧ query.has other.kind = false := by
      intro other hother
      simpa [has_put] using hfree other hother
    refine ⟨List.nodup_cons.mpr ⟨?_, hnodup⟩, List.forall_mem_cons.mpr ⟨hfirst, ?_⟩⟩
    · intro hmem
      obtain ⟨other, hother, heq⟩ := List.mem_map.mp hmem
      exact (hothers other hother).1 heq.symm
    · exact fun other hother => (hothers other hother).2

/-- A query is read from segments that each say one clause. -/
theorem said_of_clauses {query last : Select} {tokens : List Token}
    (hread : clauses query tokens = .ok (last, [])) :
    (query.clauseSegments tokens).flatten = tokens ∧
      ∃ bodies, List.Forall₂ Says (query.clauseSegments tokens) bodies ∧ query.Fits bodies ∧
        last = bodies.foldl put query := by
  induction hlength : tokens.length using Nat.strongRecOn generalizing query tokens with
  | ind length ih =>
      cases tokens with
      | nil =>
          rw [clauses] at hread
          cases hread
          rw [clauseSegments]
          exact ⟨rfl, [], .nil, ⟨List.nodup_nil, by simp⟩, rfl⟩
      | cons word tokens =>
          obtain ⟨body, used, rest, rfl, hword, hfree, hbody, hothers⟩ := clauses_eq_ok_cons hread
          obtain ⟨hflatten, bodies, hsaid, hfits, hlast⟩ :=
            ih rest.length (by rw [← hlength, List.length_cons, List.length_append]; omega) hothers rfl
          rw [(clauses_cons hword hfree hbody).2]
          refine ⟨by simp [hflatten], body :: bodies, ?_, fits_cons.mpr ⟨hfree, hfits⟩, hlast⟩
          exact .cons (.mk hword (atClause_of_clauses hothers) hbody) hsaid

theorem atClause_nil : AtClause [] := fun _ ht => nomatch ht

section Segments

variable {segments : List (List Token)} {bodies : List ClauseBody} {tokens tail : List Token}

theorem atClause_of_said (hsaid : List.Forall₂ Says segments bodies)
    (htokens : tokens.map Token.unplaced = segments.flatten.map Token.unplaced)
    (htail : AtClause tail) : AtClause (tokens ++ tail) := by
  cases hsaid with
  | nil =>
      obtain rfl : tokens = [] := by simpa using htokens
      exact htail
  | cons hsegment hsaid =>
      obtain @⟨word, used, rest, _, hword, -, -⟩ := hsegment
      obtain ⟨t, others, rfl, hplace, -⟩ := List.map_eq_cons_iff.mp htokens
      rintro _ ⟨⟩
      change (ClauseKind.ofToken? t.unplaced).isSome = true
      rw [hplace]
      exact Option.isSome_iff_exists.mpr ⟨_, hword⟩

/-- Segments that say clauses are read as those clauses, whatever clause comes next. -/
theorem clauses_of_said {query query' : Select} (hsaid : List.Forall₂ Says segments bodies)
    (hfits : query.Fits bodies) (hquery : query.unplaced = query'.unplaced)
    (htokens : tokens.map Token.unplaced = segments.flatten.map Token.unplaced)
    (htail : AtClause tail) :
    ∃ last, clauses query' (tokens ++ tail) = clauses last tail ∧
      (bodies.foldl put query).unplaced = last.unplaced := by
  induction hsaid generalizing query query' tokens with
  | nil =>
      obtain rfl : tokens = [] := by simpa using htokens
      exact ⟨query', rfl, hquery⟩
  | @cons segment body segments bodies hsegment hsaid ih =>
      obtain ⟨hfree, hfits⟩ := fits_cons.mp hfits
      rw [List.flatten_cons, List.map_append] at htokens
      obtain ⟨segment', rest', rfl, hsegment', hrest'⟩ := List.map_eq_append_iff.mp htokens
      have hfree' : query'.has body.kind = false := by
        rw [← has_unplaced, ← hquery, has_unplaced, hfree]
      obtain ⟨word, used, body', rfl, hword, hread, hsame⟩ :=
        hsegment.read hsegment'.symm (atClause_of_said hsaid hrest' htail)
      have hkind : body'.kind = body.kind := by
        rw [← body'.kind_unplaced, ← hsame, body.kind_unplaced]
      rw [← hkind] at hword hread hfree'
      rw [List.append_assoc, List.cons_append, (clauses_cons hword hfree' hread).1]
      exact ih hfits (by rw [unplaced_put, unplaced_put, hquery, hsame]) hrest'

end Segments

/-! ## Orders -/

theorem Fits.perm {query : Select} {bodies order : List ClauseBody} (hfits : query.Fits bodies)
    (hperm : order.Perm bodies) : query.Fits order :=
  ⟨(hperm.map ClauseBody.kind).nodup_iff.mpr hfits.nodup,
    fun body hbody => hfits.free body (hperm.mem_iff.mp hbody)⟩

theorem Fits.foldl_put {query : Select} {bodies order : List ClauseBody}
    (hfits : query.Fits bodies) (hperm : order.Perm bodies) :
    order.foldl put query = bodies.foldl put query := by
  refine hperm.foldl_eq' (fun body hbody other hother query => ?_) query
  by_cases hkind : body.kind = other.kind
  · rw [List.inj_on_of_nodup_map (hfits.perm hperm).nodup hbody hother hkind]
  · exact put_comm hkind

theorem layout_eq {word : Token} {used rest : List Token} {columns : Option FieldList}
    (hcolumns : Grammar.columns (used ++ rest) = .ok (columns, rest)) :
    layout (word :: used ++ rest) = (word :: used, clauseSegments { columns } rest) := by
  have hlength : (word :: used ++ rest).length - rest.length = (word :: used).length := by
    rw [List.length_append]
    omega
  have hdrop : (word :: used ++ rest).drop 1 = used ++ rest := rfl
  simp only [layout, hdrop, hcolumns, hlength, List.take_left]

/-- With its segments in another order, and wherever its tokens stand, a query is read as the
same query up to places. -/
theorem ofTokens_of_perm {tokens : List Token} {query : Select}
    (hsolid : ∀ t ∈ tokens, t.isOperation "" = false) (hread : ofTokens tokens = .ok query) :
    (layout tokens).1 ++ (layout tokens).2.flatten = tokens ∧
      ∀ order : List (List Token), order.Perm (layout tokens).2 → ∀ tokens' : List Token,
        tokens'.map Token.unplaced = ((layout tokens).1 ++ order.flatten).map Token.unplaced →
          ∃ query', ofTokens tokens' = .ok query' ∧ query'.unplaced = query.unplaced := by
  obtain ⟨word, others, columns, rest, last, rfl, hword, hcolumns, hclauses, rfl⟩ :=
    (Grammar.ofTokens_eq_ok_iff hsolid).mp hread
  obtain ⟨used, rfl, -⟩ := Grammar.sound_columns _ _ _ hcolumns
  obtain ⟨hflatten, bodies, hsaid, hfits, rfl⟩ := said_of_clauses hclauses
  rw [← List.cons_append, layout_eq hcolumns]
  refine ⟨by rw [hflatten], fun order hperm tokens' htokens' => ?_⟩
  obtain ⟨bodies', hsaid', hperm'⟩ := List.perm_comp_forall₂ hperm hsaid
  rw [List.map_append] at htokens'
  obtain ⟨_, rest', rfl, hhead, hrest'⟩ := List.map_eq_append_iff.mp htokens'
  obtain ⟨word', used', rfl, hplace, hused⟩ := List.map_eq_cons_iff.mp hhead
  have hstart := atClause_of_said hsaid' hrest' atClause_nil
  rw [List.append_nil] at hstart
  obtain ⟨columns', _, hcolumns', hsame, h⟩ := tracks_columns hstart
    (abreast_append hused.symm) hcolumns (List.suffix_refl rest)
  obtain rfl := h.eq_of_end
  have hfirst : Select.unplaced { columns } = Select.unplaced { columns := columns' } := by
    simp [unplaced, hsame]
  obtain ⟨last', hclauses', hlast⟩ :=
    clauses_of_said hsaid' (hfits.perm hperm') hfirst hrest' atClause_nil
  rw [List.append_nil, clauses] at hclauses'
  have hword' : word'.isKeyword "select" = true := by
    change word'.unplaced.isKeyword "select" = true
    rw [hplace]
    exact hword
  refine ⟨_, Grammar.ofTokens_eq_ok_iff_isTail.mpr
    ⟨word', used' ++ _, columns', _, last', [], rfl, hword', hcolumns', hclauses', rfl, rfl⟩, ?_⟩
  rw [hfits.foldl_put hperm'] at hlast
  exact hlast.symm

end Select

/-! ## Compiling -/

namespace Compiler

/-- The order of its clauses does not matter to a query.  The tokens of a text that parses are
the columns and one segment for each clause.  With the segments in any other order the tokens
make up the same query up to places, and there are texts of them; each such text parses to
that query, and it compiles to the same document, columns and order as the first, or both are
refused for the same reason. -/
theorem compile_of_reordered {text : String} {query : Select}
    (hparse : Select.parse text = .ok query) :
    ∃ ts head segments, tokens text = .ok ts ∧ Select.layout ts = (head, segments) ∧
      ts = head ++ segments.flatten ∧
      ∀ order : List (List Token), order.Perm segments →
        (∃ query', Select.ofTokens (head ++ order.flatten) = .ok query' ∧
          query'.unplaced = query.unplaced) ∧
        (∃ text' ts', tokens text' = .ok ts' ∧
          ts'.map Token.unplaced = (head ++ order.flatten).map Token.unplaced) ∧
        ∀ text' ts', tokens text' = .ok ts' →
          ts'.map Token.unplaced = (head ++ order.flatten).map Token.unplaced →
          (∃ query', Select.parse text' = .ok query' ∧ query'.unplaced = query.unplaced) ∧
          ∀ compiler : Compiler, compiler.settings.serverSideMacros = false →
            (∃ compiled compiled', compiler.compile text = .ok compiled ∧
              compiler.compile text' = .ok compiled' ∧ compiled.Same compiled') ∨
            ∃ error error', compiler.compile text = .error error ∧
              compiler.compile text' = .error error' ∧ error.kind = error'.kind := by
  obtain ⟨ts, htokens, hread⟩ := bind_eq_ok_iff.mp hparse
  obtain ⟨hflatten, hreorder⟩ := Select.ofTokens_of_perm (solid_of_tokens htokens) hread
  refine ⟨ts, (Select.layout ts).1, (Select.layout ts).2, htokens, rfl, hflatten.symm,
    fun order hperm => ⟨?_, ?_, ?_⟩⟩
  · exact hreorder order hperm _ rfl
  · refine exists_tokens_of_subset htokens ?_
    have hsubset := (hperm.flatten.append_left (Select.layout ts).1).subset
    rwa [hflatten] at hsubset
  · intro text' ts' htokens' hts'
    obtain ⟨query', hread', hsame⟩ := hreorder order hperm ts' hts'
    have hparse' : Select.parse text' = .ok query' := bind_eq_ok_iff.mpr ⟨ts', htokens', hread'⟩
    refine ⟨⟨query', hparse', hsame⟩, fun compiler hmacros => ?_⟩
    have halike : query.Alike (FieldRef.Alike compiler.catalog) query' :=
      Select.alike_of_unplaced (fun _ _ => FieldRef.alike_of_unplaced) hsame.symm
    exact (agree_compile hmacros hparse hparse' halike).ok_or_error

/-- Three clauses from the last to the first. -/
theorem compile_of_reordered_links :
    ∃ query query' compiled compiled',
      let compiler : Compiler := {}
      let text := "select Title from links where [Source].[Title] <> @me order by Id desc"
      let text' := "select Title order by Id desc where [Source].[Title] <> @me from links"
      Select.parse text = .ok query ∧ Select.parse text' = .ok query' ∧
      query'.unplaced = query.unplaced ∧
      compiler.compile text = .ok compiled ∧ compiler.compile text' = .ok compiled' ∧
      compiled.Same compiled' := by
  let compiler : Compiler := {}
  let text := "select Title from links where [Source].[Title] <> @me order by Id desc"
  let text' := "select Title order by Id desc where [Source].[Title] <> @me from links"
  have hparse : (Select.parse text).toOption.isSome = true := by decide +kernel
  have hreverse : (do
      let ts ← (tokens text).toOption
      let ts' ← (tokens text').toOption
      guard (ts'.map Token.unplaced =
        ((Select.layout ts).1 ++ (Select.layout ts).2.reverse.flatten).map Token.unplaced)).isSome =
          true := by
    decide +kernel
  have hcompile : (compiler.compile text).toOption.isSome = true := by decide +kernel
  obtain ⟨query, hparse⟩ := Option.isSome_iff_exists.mp hparse
  have hquery := toOption_eq_some_iff.mp hparse
  obtain ⟨_, hreverse⟩ := Option.isSome_iff_exists.mp hreverse
  obtain ⟨ts, htokens, hreverse⟩ := toOption_bind_eq_some_iff.mp hreverse
  obtain ⟨ts', htokens', hreverse⟩ := toOption_bind_eq_some_iff.mp hreverse
  have hts' := guard_eq_some_iff.mp hreverse
  obtain ⟨compiled, hcompiled⟩ := Option.isSome_iff_exists.mp hcompile
  have hcompiled := toOption_eq_some_iff.mp hcompiled
  obtain ⟨_, head, segments, hfound, hlayout, -, horder⟩ := compile_of_reordered hquery
  cases htokens.symm.trans hfound
  rw [hlayout] at hts'
  obtain ⟨⟨query', hquery', hsame⟩, hcompiler⟩ :=
    (horder segments.reverse (List.reverse_perm segments)).2.2 text' ts' htokens' hts'
  obtain ⟨found, compiled', hfound, hcompiled', hdocument⟩ | ⟨error, error', herror, -, -⟩ :=
    hcompiler compiler rfl
  · cases hcompiled.symm.trans hfound
    exact ⟨query, query', compiled, compiled', hquery, hquery', hsame, hcompiled, hcompiled',
      hdocument⟩
  · cases hcompiled.symm.trans herror

end Compiler

end TrackerQuery
