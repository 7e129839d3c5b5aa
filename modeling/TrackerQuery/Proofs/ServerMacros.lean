import TrackerQuery.Proofs.BoundQuery
import TrackerQuery.Proofs.Resolving
import TrackerQuery.Proofs.Stages

/-!
# Macros that the server evaluates

A query whose macros are left to the server is sent as it was written, with a context
beside it: what the caller gave, then every other macro that the query mentions, once and
under its own name, unless it is built in.  Resolving notes the macros in the order in which
it meets them, which is the order of the text, so the context can be read off the text.
-/

namespace TrackerQuery

namespace Attempt

variable {α β : Type}

theorem macros_andThen {a : Attempt α} {value : α} (h : a.toExcept = .ok value) (place : α → β)
    (next : α → Attempt β) : (a.andThen place next).macros = a.macros ++ (next value).macros := by
  rcases a with ⟨found, _ | error, macros⟩
  · cases h
    rfl
  · cases h

theorem macros_map (f : α → β) (a : Attempt α) : (a.map f).macros = a.macros :=
  rfl

theorem macros_check (a : Attempt α) (test : α → Except Error Unit) :
    (a.check test).macros = a.macros := by
  rcases a with ⟨value, _ | error, macros⟩
  · cases htest : test value <;> simp [check, andThen, htest, done, stopped]
  · rfl

end Attempt

def Schema.leftToServer (schema : Schema) (vs : List Variable) : List String :=
  (vs.filter fun v => (schema.findVariable v.name).any Macro.leftToServer).map Variable.name

theorem Schema.leftToServer_append (schema : Schema) (vs others : List Variable) :
    schema.leftToServer (vs ++ others) = schema.leftToServer vs ++ schema.leftToServer others := by
  simp [leftToServer]

theorem FieldRef.macros_bind (schema : Schema) (scope : Scope) (field : FieldRef) :
    (field.bind schema scope).macros = [] := by
  unfold FieldRef.bind
  split
  · rfl
  · dsimp only
    split <;> rfl

namespace Expr

theorem macros_of_bindVariable (schema : Schema) (m : Mark) (v : Variable) :
    (bindVariable schema m v).macros = schema.leftToServer [v] := by
  unfold bindVariable Schema.leftToServer
  cases hname : schema.findVariable v.name with
  | none => simp [hname, Attempt.stopped]
  | some found => cases hleft : found.leftToServer <;> simp [hname, hleft]

variable {schema : Schema} {scope : Scope}

/-! ## Macros met on the way -/

/-- Resolving the parts of an expression notes, in order, its macros that are left to the
server. -/
theorem macros_of_bindAll {test : Expr → Except Error Unit} {es bound : List Expr}
    (ih : ∀ e ∈ es, ∀ scope b, (e.bindParts schema scope).toExcept = .ok b →
      (e.bindParts schema scope).macros = schema.leftToServer e.variableRefs)
    (hbind : (bindAll schema scope test es).toExcept = .ok bound) :
    (bindAll schema scope test es).macros = schema.leftToServer (variableRefsOfAll es) := by
  induction es generalizing bound with
  | nil => rfl
  | cons e es ihes =>
      rw [bindAll] at hbind ⊢
      obtain ⟨first, hfirst, hbind⟩ := Attempt.andThen_eq_ok_iff.mp hbind
      obtain ⟨others, hothers, -⟩ := Attempt.map_eq_ok_iff.mp hbind
      obtain ⟨hchecked, -⟩ := Attempt.check_eq_ok_iff.mp hfirst
      obtain ⟨hparts, -⟩ := Attempt.check_eq_ok_iff.mp hchecked
      rw [Attempt.macros_andThen hfirst, Attempt.macros_check, Attempt.macros_check,
        Attempt.macros_map, ih e List.mem_cons_self scope first hparts,
        ihes (fun e he => ih e (List.mem_cons_of_mem _ he)) hothers, variableRefsOfAll,
        Schema.leftToServer_append]

/-- Resolving notes the macros of an expression in the order of the text. -/
theorem macros_of_bindParts (e : Expr) (scope : Scope) (bound : Expr)
    (hbind : (e.bindParts schema scope).toExcept = .ok bound) :
    (e.bindParts schema scope).macros = schema.leftToServer e.variableRefs := by
  induction e generalizing scope bound with
  | string m value | number m value | boolean m value | truth m value => rfl
  | var m v => exact macros_of_bindVariable schema m v
  | field m f => exact FieldRef.macros_bind schema scope f
  | list m items ih | junction m connective operands ih =>
      obtain ⟨found, hfound, rfl⟩ := Attempt.map_eq_ok_iff.mp hbind
      exact macros_of_bindAll ih hfound
  | condition m op left right ih =>
      rw [bindParts] at hbind ⊢
      obtain ⟨left', hleft, hbind⟩ := Attempt.andThen_eq_ok_iff.mp hbind
      obtain ⟨right', hright, -⟩ := Attempt.map_eq_ok_iff.mp hbind
      obtain ⟨hchecked, -⟩ := Attempt.check_eq_ok_iff.mp hright
      obtain ⟨hparts, -⟩ := Attempt.check_eq_ok_iff.mp hchecked
      rw [Attempt.macros_andThen hleft, FieldRef.macros_bind, Attempt.macros_map,
        Attempt.macros_check, Attempt.macros_check, ih _ _ hparts]
      rfl
  | arithmetic m op left right type ihleft ihright =>
      rw [bindParts] at hbind ⊢
      obtain ⟨left', hleft, hbind⟩ := Attempt.andThen_eq_ok_iff.mp hbind
      obtain ⟨right', hright, -⟩ := Attempt.andThen_eq_ok_iff.mp hbind
      obtain ⟨hpartsLeft, -⟩ := Attempt.check_eq_ok_iff.mp hleft
      obtain ⟨hpartsRight, -⟩ := Attempt.check_eq_ok_iff.mp hright
      rw [Attempt.macros_andThen hleft, Attempt.macros_andThen hright, Attempt.macros_check,
        Attempt.macros_check, ihleft _ _ hpartsLeft, ihright _ _ hpartsRight, variableRefs,
        Schema.leftToServer_append]
      split
      · simp [Attempt.done]
      · simp [Attempt.stopped]
  | not m operand ih | ever m operand ih =>
      obtain ⟨found, hfound, rfl⟩ := Attempt.map_eq_ok_iff.mp hbind
      obtain ⟨hchecked, -⟩ := Attempt.check_eq_ok_iff.mp hfound
      obtain ⟨hparts, -⟩ := Attempt.check_eq_ok_iff.mp hchecked
      rw [bindParts, Attempt.macros_map, Attempt.macros_check, Attempt.macros_check]
      exact ih scope found hparts

theorem macros_of_bind {e bound : Expr} (hbind : (e.bind schema scope).toExcept = .ok bound) :
    (e.bind schema scope).macros = schema.leftToServer e.variableRefs := by
  obtain ⟨hparts, -⟩ := Attempt.check_eq_ok_iff.mp hbind
  rw [Expr.bind, Attempt.macros_check]
  exact macros_of_bindParts e scope bound hparts

end Expr

namespace Select

/-- A clause that is resolved notes its macros, whatever else is asked of it. -/
theorem clauseMacros_of_onClause {schema : Schema} {scope : Scope} {clause bound : Option Expr}
    {checked : Expr → Except Error Expr}
    (hbind : onClause clause (fun e => (e.bind schema scope).toExcept >>= checked) = .ok bound) :
    clauseMacros schema scope clause =
      schema.leftToServer ((clause.map Expr.variableRefs).getD []) := by
  cases clause with
  | none => rfl
  | some e =>
      obtain ⟨b, hb, rfl⟩ := map_eq_ok_iff.mp hbind
      obtain ⟨found, hfound, -⟩ := bind_eq_ok_iff.mp hb
      exact Expr.macros_of_bind hfound

/-- Resolving a query notes its macros that are left to the server, those of the filter
first and then those of the point in time. -/
theorem macros_of_resolve {schema : Schema} {query bound : Select} {macros : List String}
    (hresolve : (query.resolve schema).run [] = .ok (bound, macros)) :
    query.bind schema = .ok bound ∧ macros = schema.leftToServer query.variableRefs := by
  rw [run_resolve] at hresolve
  obtain ⟨_, hbind, heq⟩ := bind_eq_ok_iff.mp hresolve
  cases heq
  refine ⟨hbind, ?_⟩
  obtain ⟨table, hbinds⟩ := exists_binds hbind
  rw [hbinds.found, clauseMacros_of_onClause hbinds.filter, clauseMacros_of_onClause hbinds.asOf,
    variableRefs, Schema.leftToServer_append, List.nil_append]

end Select

/-! ## The context -/

namespace Context

theorem has_eq_true_iff {context : Context} {name : String} :
    context.has name = true ↔ name ∈ context.map Prod.fst := by
  induction context with
  | nil => simp [has]
  | cons entry context ih =>
      rw [List.map_cons, List.mem_cons, ← ih, has, has, List.lookup_cons]
      cases hname : name == entry.1 with
      | true => simp [beq_iff_eq.mp hname]
      | false => simp [beq_eq_false_iff_ne.mp hname]

theorem has_append (context : Context) (name other : String) (value : ContextValue) :
    (context ++ [(name, value)] : Context).has other = (context.has other || other == name) := by
  rw [Bool.eq_iff_iff, Bool.or_eq_true, has_eq_true_iff, has_eq_true_iff, beq_iff_eq]
  simp

end Context

namespace Session

/-- A macro that is neither given by the caller nor built in. -/
def isLeftToServer (context : Context) (name : String) : Bool :=
  !context.has name && !Text.sameIgnoringCase name "me" && !Text.sameIgnoringCase name "today"

/-- The names of such macros in a query, in the order in which they first occur. -/
def leftToServer (context : Context) (query : Select) : List String :=
  ((query.variableRefs.map Variable.name).filter (isLeftToServer context)).eraseDups

/-- Each name that is not a key yet becomes one, once, in the order of the names. -/
theorem foldl_leaveToServer (names : List String) (context : Context) :
    names.foldl leaveToServer context =
      context ++ ((names.filter fun name => !context.has name).eraseDups.map
        fun name => (name, .string name)) := by
  induction names generalizing context with
  | nil => simp
  | cons name names ih =>
      rw [List.foldl_cons, ih, leaveToServer]
      cases hhas : context.has name with
      | true => simp [hhas]
      | false =>
          have hlater : (fun other => !(context ++ [(name, .string name)] : Context).has other) =
              fun other => !other == name && !context.has other := by
            funext other
            rw [Context.has_append, Bool.not_or, Bool.and_comm]
          simp [hhas, hlater, List.eraseDups_cons, List.filter_filter]

theorem nodup_leaveToServer {context : Context} (hkeys : (context.map Prod.fst).Nodup)
    (name : String) : ((leaveToServer context name).map Prod.fst).Nodup := by
  unfold leaveToServer
  split
  · exact hkeys
  · rename_i hnew
    rw [Context.has_eq_true_iff] at hnew
    rw [List.map_append, List.nodup_append]
    refine ⟨hkeys, by simp, ?_⟩
    rintro key hkey other hother rfl
    obtain rfl : key = name := List.mem_singleton.mp hother
    exact hnew hkey

theorem nodup_foldl_leaveToServer (names : List String) {context : Context}
    (hkeys : (context.map Prod.fst).Nodup) :
    ((names.foldl leaveToServer context).map Prod.fst).Nodup := by
  induction names generalizing context with
  | nil => exact hkeys
  | cons name names ih => exact ih (nodup_leaveToServer hkeys name)

/-- What resolving notes is what is neither given by the caller nor built in. -/
theorem leftToServer_schema {session : Session}
    (hmacros : session.settings.serverSideMacros = true) (vs : List Variable) :
    session.schema.leftToServer vs =
      (vs.map Variable.name).filter (isLeftToServer session.context) := by
  have hsame : ∀ v : Variable, (session.findVariable v.name).any Macro.leftToServer =
      isLeftToServer session.context v.name := by
    intro v
    unfold findVariable isLeftToServer
    cases session.context.has v.name <;> cases Text.sameIgnoringCase v.name "me" <;>
      cases Text.sameIgnoringCase v.name "today" <;> simp [hmacros]
  rw [List.filter_map]
  exact congrArg (List.map Variable.name) (List.filter_congr fun v _ => hsame v)

theorem serverContext_eq {session : Session} (hmacros : session.settings.serverSideMacros = true)
    {query bound : Select} {macros : List String}
    (hresolve : session.resolve query = .ok (bound, macros)) :
    session.serverContext macros =
      session.context ++
        (leftToServer session.context query).map fun name => (name, .string name) := by
  obtain ⟨-, rfl⟩ := Select.macros_of_resolve hresolve
  have hnew : ∀ name, (!session.context.has name && isLeftToServer session.context name) =
      isLeftToServer session.context name := by
    intro name
    unfold isLeftToServer
    cases session.context.has name <;> rfl
  unfold serverContext
  rw [foldl_leaveToServer, leftToServer_schema hmacros, List.filter_filter]
  simp only [hnew, leftToServer]

theorem textDocument_of_compile {session : Session}
    (hmacros : session.settings.serverSideMacros = true) {text : String} {compiled : Compiled}
    (hcompile : session.compile text = .ok compiled) :
    ∃ query macros, Select.parse text = .ok query ∧
      session.resolve query = .ok (compiled.query, macros) ∧
      compiled.document = textDocument text (session.serverContext macros)
        compiled.query.isLinkQuery session.settings.dayPrecision := by
  unfold compile at hcompile
  rw [if_pos hmacros] at hcompile
  obtain ⟨query, hparse, hcompile⟩ := bind_eq_ok_iff.mp hcompile
  obtain ⟨⟨bound, macros⟩, hresolve, hcompile⟩ := bind_eq_ok_iff.mp hcompile
  cases hcompile
  exact ⟨query, macros, hparse, hresolve, rfl⟩

end Session

/-! ## The document -/

/-- The entries of the context that a document carries. -/
def Xml.Element.contextEntries (document : Xml.Element) : List Xml.Element :=
  document.children.filter (·.name == "Context")

theorem contextEntries_textDocument (text : String) (context : Context)
    (isLinkQuery dayPrecision : Bool) :
    (textDocument text context isLinkQuery dayPrecision).contextEntries =
      context.map contextElement := by
  have hall : (context.map contextElement).filter (·.name == "Context") =
      context.map contextElement :=
    List.filter_eq_self.mpr (List.forall_mem_map.mpr fun _ _ => rfl)
  simp [textDocument, Xml.Element.contextEntries, Xml.Element.ofText, hall]

theorem wiql_textDocument (text : String) (context : Context) (isLinkQuery dayPrecision : Bool) :
    (textDocument text context isLinkQuery dayPrecision).children.filter (·.name == "Wiql") =
      [.ofText "Wiql" text] := by
  have hnone : (context.map contextElement).filter (·.name == "Wiql") = [] :=
    List.filter_eq_nil_iff.mpr (List.forall_mem_map.mpr fun _ _ => Bool.false_ne_true)
  simp [textDocument, Xml.Element.ofText, hnone]

/-- A compiled query whose macros are left to the server.  The context in its document is
what the caller gave, in the same order, and then each macro of the text that has no value
there and is not built in, where it first occurs, under its own name.  No key comes twice,
provided the caller gave none twice.  The document is one of a link query exactly if the
query was resolved to one, and it carries the text as it is. -/
theorem Compiler.compile_serverSide {compiler : Compiler}
    (hmacros : compiler.settings.serverSideMacros = true) {text : String} {compiled : Compiled}
    (hcompile : compiler.compile text = .ok compiled) :
    ∃ query, Select.parse text = .ok query ∧ compiler.bind text = .ok compiled.query ∧
      compiled.document.contextEntries = compiler.context.map contextElement ++
        (Session.leftToServer compiler.context query).map (fun name =>
          { name := "Context"
            attributes := [("Key", name), ("Value", name), ("ValueType", "String")] }) ∧
      ((compiler.context.map Prod.fst).Nodup →
        (compiled.document.contextEntries.map (·.attribute? "Key")).Nodup) ∧
      (compiled.document.name = "LinksQuery" ↔ compiled.query.mode.isLinkQuery = true) ∧
      (compiled.document.name = "Query" ↔ compiled.query.mode.isLinkQuery = false) ∧
      compiled.document.children.filter (·.name == "Wiql") = [.ofText "Wiql" text] := by
  obtain ⟨session, hsession, hcompile⟩ := bind_eq_ok_iff.mp hcompile
  have hfrom := hsession
  obtain ⟨zone, -, hfrom⟩ := bind_eq_ok_iff.mp hfrom
  have hcontext : session.context = compiler.context := by
    cases hfrom
    rfl
  rw [← (Compiler.session_eq_ok hsession).2] at hmacros
  obtain ⟨query, macros, hparse, hresolve, hdocument⟩ :=
    Session.textDocument_of_compile hmacros hcompile
  obtain ⟨hbind, -⟩ := Select.macros_of_resolve hresolve
  have hentries : compiled.document.contextEntries =
      (session.serverContext macros).map contextElement := by
    rw [hdocument, contextEntries_textDocument]
  refine ⟨query, hparse, ?_, ?_, ?_, ?_, ?_, ?_⟩
  · exact bind_eq_ok_iff.mpr ⟨query, hparse, bind_eq_ok_iff.mpr ⟨session, hsession, hbind⟩⟩
  · rw [hentries, Session.serverContext_eq hmacros hresolve, hcontext, List.map_append, List.map_map]
    rfl
  · intro hkeys
    have hnodup : ((session.serverContext macros).map Prod.fst).Nodup :=
      Session.nodup_foldl_leaveToServer _ (by rwa [hcontext])
    have hkey : (fun entry => entry.attribute? "Key") ∘ contextElement = some ∘ Prod.fst := rfl
    rw [hentries, List.map_map, hkey, ← List.map_map]
    exact List.Pairwise.map some (fun _ _ hother hsame => hother (Option.some.inj hsame)) hnodup
  · rw [hdocument, textDocument, Select.isLinkQuery]
    cases compiled.query.mode.isLinkQuery <;> simp
  · rw [hdocument, textDocument, Select.isLinkQuery]
    cases compiled.query.mode.isLinkQuery <;> simp
  · rw [hdocument, wiql_textDocument]

/-- A link query in which names of macros differ by case only: `Me` and `team` are given,
`ME` is built in, and `TEAM` is a macro of its own, as are `Sprint` and `sprint`. -/
theorem Compiler.compile_serverSide_of_cases :
    let context : Context := [("Me", .string "Ada"), ("team", .string "Tools")]
    let compiler : Compiler := { settings := { serverSideMacros := true }, context }
    let text := "select [System.Id] from WorkItemLinks where [Source].[System.Title] = @Sprint " ++
      "or [System.Title] in (@ME, @team, @Me, @sprint, @Sprint, @TEAM) asof @When " ++
      "mode (MayContain)"
    ∃ query compiled, Select.parse text = .ok query ∧ compiler.compile text = .ok compiled ∧
      Session.leftToServer context query = ["Sprint", "sprint", "TEAM", "When"] ∧
      compiled.document.contextEntries = context.map contextElement ++
        ["Sprint", "sprint", "TEAM", "When"].map (fun name =>
          { name := "Context"
            attributes := [("Key", name), ("Value", name), ("ValueType", "String")] }) ∧
      (compiled.document.contextEntries.map (·.attribute? "Key")).Nodup := by
  intro context compiler text
  have hcompile : (compiler.compile text).toOption.isSome = true := by decide +kernel
  have hleft : (Select.parse text).toOption.map (Session.leftToServer context) =
      some ["Sprint", "sprint", "TEAM", "When"] := by
    decide +kernel
  obtain ⟨compiled, hcompiled⟩ := Option.isSome_iff_exists.mp hcompile
  have hcompiled := toOption_eq_some_iff.mp hcompiled
  obtain ⟨query, hparse, -, hentries, hnodup, -⟩ := compile_serverSide rfl hcompiled
  rw [hparse] at hleft
  have hnames : Session.leftToServer context query = ["Sprint", "sprint", "TEAM", "When"] :=
    Option.some.inj hleft
  refine ⟨query, compiled, hparse, hcompiled, hnames, ?_, hnodup (by decide)⟩
  rw [hentries, ← hnames]

end TrackerQuery
