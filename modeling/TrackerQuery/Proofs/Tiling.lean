import Mathlib.Data.List.Pairwise
import TrackerQuery.Proofs.Places
import TrackerQuery.Proofs.Scanned
import TrackerQuery.Proofs.Truncated

/-!
# Tokens tile the text

The lexemes of a text lie side by side with nothing but blanks between them.  Where
scanning stops at a faulty lexeme, this is so up to the lexeme, and the tokens before it
are those of the text before it.
-/

namespace TrackerQuery

/-- The character `c` of the text starts at the byte `offset`. -/
def Text.StandsAt (text : String) (offset : Nat) (c : Char) : Prop :=
  ∃ before after, text.toList = before ++ c :: after ∧ byteLength before = offset

/-- All bytes of a character that starts at `offset` lie in the span. -/
def Span.Holds (span : Span) (offset : Nat) (c : Char) : Prop :=
  span.start ≤ offset ∧ offset + c.utf8Size ≤ span.stop

/-- Of two beginnings of one text, the one with fewer bytes begins the other. -/
theorem Text.isPrefix_of_byteLength_le {cs ds text : List Char} (hcs : cs <+: text)
    (hds : ds <+: text) (hle : byteLength cs ≤ byteLength ds) : cs <+: ds := by
  obtain hleads | ⟨more, rfl⟩ := List.prefix_or_prefix_of_prefix hcs hds
  · exact hleads
  · have hmore : more = [] := by
      by_contra hne
      have hpos := byteLength_pos hne
      rw [Scan.byteLength_append] at hle
      omega
    simp [hmore]

/-- The characters that a span holds are those of its stretch of the text. -/
theorem Span.Holds.mem {text : String} {before lexeme after : List Char}
    (htext : text.toList = before ++ (lexeme ++ after)) {offset : Nat} {c : Char}
    (hc : Text.StandsAt text offset c)
    (hholds : Span.Holds ⟨Text.byteLength before,
      Text.byteLength before + Text.byteLength lexeme⟩ offset c) : c ∈ lexeme := by
  obtain ⟨skipped, others, hskipped, rfl⟩ := hc
  obtain ⟨hstart, hstop⟩ := hholds
  obtain ⟨inner, rfl⟩ : before <+: skipped :=
    Text.isPrefix_of_byteLength_le ⟨_, htext.symm⟩ ⟨_, hskipped.symm⟩ hstart
  have hleads : before ++ inner ++ [c] <+: before ++ lexeme := by
    have hupto : before ++ inner ++ [c] <+: text.toList := ⟨others, by rw [hskipped]; simp⟩
    have hwhole : before ++ lexeme <+: text.toList := ⟨after, by rw [htext, List.append_assoc]⟩
    refine Text.isPrefix_of_byteLength_le hupto hwhole ?_
    rw [Scan.byteLength_append _ [c], Scan.byteLength_append before lexeme]
    exact hstop
  rw [List.append_assoc, List.prefix_append_right_inj] at hleads
  exact hleads.subset (by simp)

namespace Scan

open Decimal (isDigit)

/-! ## Characters of lexemes -/

def isNumeric (c : Char) : Bool :=
  isDigit c || ['.', 'e', 'E', '+', '-'].contains c

theorem IsNumber.isNumeric {cs : List Char} (hcs : IsNumber cs) :
    ∀ c ∈ cs, isNumeric c = true := by
  have hrun : ∀ {ds : List Char}, (∀ c ∈ ds, isDigit c = true) →
      ∀ c ∈ ds, Scan.isNumeric c = true :=
    fun hds c hc => by simp [Scan.isNumeric, hds c hc]
  have hcons : ∀ {d : Char} {ds : List Char}, d ∈ ['.', 'e', 'E', '+', '-'] →
      (∀ c ∈ ds, Scan.isNumeric c = true) → ∀ c ∈ d :: ds, Scan.isNumeric c = true :=
    fun {d ds} hd hds => List.forall_mem_cons.mpr
      ⟨Bool.or_eq_true_iff.mpr (.inr (List.contains_iff_mem.mpr hd)), hds⟩
  have hunsigned : ∀ {ds : List Char}, IsUnsigned ds → ∀ c ∈ ds, Scan.isNumeric c = true := by
    rintro _ ⟨hwhole, hfraction, hexponent⟩
    refine List.forall_mem_append.mpr ⟨hrun hwhole, List.forall_mem_append.mpr ⟨?_, ?_⟩⟩
    · cases hfraction with
      | none => simp
      | digits hds => exact hcons (by simp) (hrun hds)
    · cases hexponent with
      | none => simp
      | digits hmark hds => exact hcons (by obtain rfl | rfl := hmark <;> simp) (hrun hds)
      | signed hmark hsign hds =>
          refine hcons (by obtain rfl | rfl := hmark <;> simp) (hcons ?_ (hrun hds))
          obtain rfl | rfl := hsign <;> simp
  cases hcs with
  | unsigned hcs => exact hunsigned hcs
  | signed hsign hcs => exact hcons (by obtain rfl | rfl := hsign <;> simp) (hunsigned hcs)

theorem isBlank_of_mem_number {cs : List Char} (hcs : IsNumber cs) :
    ∀ c ∈ cs, Text.isBlank c = false := by
  have hmarks : ['.', 'e', 'E', '+', '-'].all (!Text.isBlank ·) = true := by decide
  intro c hc
  obtain hdigit | hmark := Bool.or_eq_true_iff.mp (hcs.isNumeric c hc)
  · exact (isNameStart_of_isDigit hdigit).2
  · simpa using List.all_eq_true.mp hmarks c (List.contains_iff_mem.mp hmark)

theorem isBlank_of_mem_word {c : Char} (hc : isNameStart c = true) (cs : List Char) :
    ∀ d ∈ c :: cs.take (nameTail cs), Text.isBlank d = false := by
  refine List.forall_mem_cons.mpr ⟨isBlank_of_isNameStart hc, fun d hd => ?_⟩
  obtain hname | rfl := isNameChar_or_dot_of_mem (isWordTail_take cs) hd
  · exact isBlank_of_isNameChar hname
  · decide

theorem isBlank_of_mem_variable (cs : List Char) :
    ∀ d ∈ '@' :: cs.take (runLength Text.isAlphanumeric cs), Text.isBlank d = false := by
  refine List.forall_mem_cons.mpr ⟨by decide, fun d hd => isBlank_of_isNameChar ?_⟩
  rw [take_runLength] at hd
  have hd := List.all_eq_true.mp List.all_takeWhile d hd
  exact Bool.or_eq_true_iff.mpr (.inl hd)

theorem isBlank_of_mem_operation {c : Char} (hc : Text.isBlank c = false) (cs : List Char) :
    ∀ d ∈ c :: cs.take (operationTail c cs), Text.isBlank d = false := by
  refine List.forall_mem_cons.mpr ⟨hc, ?_⟩
  have hpairs : pairedOperations.all (fun pair => !Text.isBlank pair.2) = true := by decide
  unfold operationTail
  cases cs with
  | nil => simp
  | cons d cs =>
      split
      · rename_i hpair
        have hpair : (c, d) ∈ pairedOperations := by simpa using hpair
        simpa using List.all_eq_true.mp hpairs _ hpair
      · simp

/-- Only strings and names in brackets have blanks in them. -/
theorem isBlank_of_mem_lexeme {c : Char} {cs : List Char} (hc : Text.isBlank c = false)
    (hstring : (lexeme c cs).kind ≠ .string) (hname : (lexeme c cs).kind ≠ .bracketedName) :
    ∀ d ∈ c :: cs.take (lexeme c cs).tail, Text.isBlank d = false := by
  revert hstring hname
  unfold lexeme
  split
  · rename_i hstart
    exact fun _ _ => isBlank_of_mem_word hstart cs
  · split
    · rename_i hsign
      obtain rfl : c = '@' := by simpa using hsign
      exact fun _ _ => isBlank_of_mem_variable cs
    · split
      · intro _ hname
        refine absurd ?_ hname
        unfold bracketLexeme
        split
        · rfl
        · dsimp only
          split <;> rfl
      · split
        · rename_i hnumber
          have hvalue : IsNumber (numberLexeme c cs).value.toList := isValueOf_numberLexeme hnumber
          rw [numberLexeme, String.toList_ofList] at hvalue
          exact fun _ _ => isBlank_of_mem_number hvalue
        · split
          · intro hstring _
            refine absurd ?_ hstring
            unfold quoteLexeme
            split <;> rfl
          · exact fun _ _ => isBlank_of_mem_operation hc cs

theorem toList_value_of_number {c : Char} {cs : List Char} (hkind : (lexeme c cs).kind = .number) :
    (lexeme c cs).value.toList = c :: cs.take (lexeme c cs).tail := by
  revert hkind
  unfold lexeme
  split
  · unfold wordLexeme
    dsimp only
    split <;> simp
  · split
    · simp [variableLexeme]
    · split
      · unfold bracketLexeme
        split
        · simp
        · dsimp only
          split <;> simp
      · split
        · simp [numberLexeme]
        · split
          · unfold quoteLexeme
            split <;> simp
          · simp [operationLexeme]

/-! ## Tiles -/

/-- What the characters of a token have to be. -/
structure Spells (lexeme : List Char) (t : Token) : Prop where
  nonempty : lexeme ≠ []
  solid : t.kind ≠ .string → t.kind ≠ .bracketedName → ∀ c ∈ lexeme, Text.isBlank c = false
  number : t.kind = .number → t.value.toList = lexeme

theorem spells_lexeme {c : Char} {cs : List Char} (hc : Text.isBlank c = false) (span : Span) :
    Spells (c :: cs.take (lexeme c cs).tail) ⟨(lexeme c cs).kind, (lexeme c cs).value, span⟩ :=
  ⟨by simp, isBlank_of_mem_lexeme hc, toList_value_of_number⟩

/-- The tokens cover the characters that start at the byte `pos`, side by side and up to
blanks. -/
inductive Tiles : (pos : Nat) → List Char → List Token → Prop
  | nil {pos} : Tiles pos [] []
  | blank {pos c cs ts} (hblank : Text.isBlank c = true) (hrest : Tiles (pos + c.utf8Size) cs ts) :
      Tiles pos (c :: cs) ts
  | token {pos lexeme cs t ts} (hlexeme : Spells lexeme t)
      (hspan : t.span = ⟨pos, pos + Text.byteLength lexeme⟩)
      (hrest : Tiles (pos + Text.byteLength lexeme) cs ts) :
      Tiles pos (lexeme ++ cs) (t :: ts)

theorem Tiles.append {pos : Nat} {cs ds : List Char} {ts us : List Token} (hcs : Tiles pos cs ts)
    (hds : Tiles (pos + Text.byteLength cs) ds us) : Tiles pos (cs ++ ds) (ts ++ us) := by
  induction hcs with
  | nil => exact hds
  | blank hblank hrest ih =>
      refine .blank hblank (ih ?_)
      rwa [byteLength_cons, ← Nat.add_assoc] at hds
  | token hlexeme hspan hrest ih =>
      rw [List.append_assoc]
      refine .token hlexeme hspan (ih ?_)
      rwa [byteLength_append, ← Nat.add_assoc] at hds

theorem Tiles.le_start {pos : Nat} {cs : List Char} {ts : List Token} (htiles : Tiles pos cs ts) :
    ∀ t ∈ ts, pos ≤ t.span.start := by
  induction htiles with
  | nil => simp
  | blank hblank hrest ih => exact fun t ht => Nat.le_trans (Nat.le_add_right ..) (ih t ht)
  | token hlexeme hspan hrest ih =>
      refine List.forall_mem_cons.mpr ⟨?_, fun t ht => ?_⟩
      · exact Nat.le_of_eq (congrArg Span.start hspan).symm
      · exact Nat.le_trans (Nat.le_add_right ..) (ih t ht)

/-- The tokens lie one after the other. -/
theorem Tiles.pairwise {pos : Nat} {cs : List Char} {ts : List Token} (htiles : Tiles pos cs ts) :
    ts.Pairwise fun t u => t.span.stop ≤ u.span.start := by
  induction htiles with
  | nil => exact .nil
  | blank hblank hrest ih => exact ih
  | token hlexeme hspan hrest ih =>
      refine .cons (fun u hu => ?_) ih
      rw [hspan]
      exact hrest.le_start u hu

/-- Each token has its lexeme among the characters. -/
theorem Tiles.exists_lexeme {pos : Nat} {cs : List Char} {ts : List Token}
    (htiles : Tiles pos cs ts) {t : Token} (ht : t ∈ ts) :
    ∃ before lexeme after, cs = before ++ (lexeme ++ after) ∧ Spells lexeme t ∧
      t.span = ⟨pos + Text.byteLength before,
        pos + Text.byteLength before + Text.byteLength lexeme⟩ := by
  induction htiles with
  | nil => cases ht
  | @blank pos c cs ts hblank hrest ih =>
      obtain ⟨before, lexeme, after, rfl, hlexeme, hspan⟩ := ih ht
      refine ⟨c :: before, lexeme, after, rfl, hlexeme, ?_⟩
      rw [hspan, byteLength_cons, Nat.add_assoc pos]
  | @token pos first cs t' ts hfirst hspan hrest ih =>
      obtain rfl | ht := List.mem_cons.mp ht
      · exact ⟨[], first, cs, rfl, hfirst, hspan⟩
      · obtain ⟨before, lexeme, after, rfl, hlexeme, hspan⟩ := ih ht
        refine ⟨first ++ before, lexeme, after, by simp, hlexeme, ?_⟩
        rw [hspan, byteLength_append, Nat.add_assoc pos]

/-- Each character is blank or belongs to one of the tokens. -/
theorem Tiles.blank_or_held {pos : Nat} {cs : List Char} {ts : List Token}
    (htiles : Tiles pos cs ts) {before : List Char} {c : Char} {after : List Char}
    (hcs : cs = before ++ c :: after) :
    Text.isBlank c = true ∨ ∃ t ∈ ts, t.span.Holds (pos + Text.byteLength before) c := by
  induction htiles generalizing before with
  | nil => simp at hcs
  | @blank pos d ds ts hblank hrest ih =>
      cases before with
      | nil =>
          cases hcs
          exact .inl hblank
      | cons _ before =>
          cases hcs
          rw [byteLength_cons, ← Nat.add_assoc]
          exact ih rfl
  | @token pos lexeme ds t ts hlexeme hspan hrest ih =>
      obtain ⟨skipped, rfl, hds⟩ | ⟨inner, rfl, hinner⟩ := List.append_eq_append_iff.mp hcs
      · rw [byteLength_append, ← Nat.add_assoc]
        refine (ih hds).imp_right ?_
        rintro ⟨u, hu, hholds⟩
        exact ⟨u, List.mem_cons_of_mem _ hu, hholds⟩
      · cases inner with
        | nil =>
            rw [List.append_nil] at ih
            refine (ih (hinner.symm.trans (List.nil_append _).symm)).imp_right ?_
            rintro ⟨u, hu, hholds⟩
            exact ⟨u, List.mem_cons_of_mem _ hu, hholds⟩
        | cons d inner =>
            obtain ⟨rfl, -⟩ := List.cons.inj hinner
            refine .inr ⟨t, List.mem_cons_self, ?_⟩
            rw [Span.Holds, hspan, byteLength_append, byteLength_cons]
            exact ⟨Nat.le_add_right .., by simp only; omega⟩

/-! ## Scanning -/

/-- How scanning gives up at the characters of a span when `rest` follows them: with which
fault, and with which token for what it has read of them. -/
inductive GivesUp (span : Span) : (rest : List Char) → Fault → List Token → Prop
  | emptyName {rest} : GivesUp span rest .emptyName []
  | bracket : GivesUp span [] .expectingClosingSquareBracket []
  | quote {value} : GivesUp span [] .expectingClosingQuote [⟨.string, value, span⟩]

/-- What scanning makes of the characters that start at the byte `pos`: it reads all of
them, or it reads those before a faulty lexeme as it would read them alone. -/
inductive Outcome (pos : Nat) (cs : List Char) : Scan → Prop
  | whole {ts} (htiles : Tiles pos cs ts) : Outcome pos cs ⟨ts, none⟩
  | stopped {before bad rest ts us cause span} (hcs : cs = before ++ (bad ++ rest))
      (hbad : bad ≠ []) (htiles : Tiles pos before ts)
      (hbefore : ofChars pos before = ⟨ts, none⟩)
      (hspan : span = ⟨pos + Text.byteLength before,
        pos + Text.byteLength before + Text.byteLength bad⟩)
      (hcause : GivesUp span rest cause us) :
      Outcome pos cs ⟨ts ++ us, some (.located cause span)⟩

theorem Outcome.blank {pos : Nat} {c : Char} {cs : List Char} {result : Scan}
    (hblank : Text.isBlank c = true) (hrest : Outcome (pos + c.utf8Size) cs result) :
    Outcome pos (c :: cs) result := by
  cases hrest with
  | whole htiles => exact .whole (.blank hblank htiles)
  | @stopped before bad rest ts us cause span hcs hbad htiles hbefore hspan hcause =>
      subst hcs
      refine .stopped (List.cons_append ..).symm hbad (.blank hblank htiles) ?_ ?_ hcause
      · rw [ofChars, if_pos hblank, hbefore]
      · rw [hspan, byteLength_cons, Nat.add_assoc pos]

/-- The lexeme stays the same in any beginning of the text that has all of it. -/
theorem ofChars_cons_take {pos : Nat} {c : Char} {cs before : List Char} {ts : List Token}
    (hblank : Text.isBlank c = false) (hfault : (lexeme c cs).fault = none)
    (hleads : before <+: cs.drop (lexeme c cs).tail)
    (hbefore : ofChars (pos + Text.byteLength (c :: cs.take (lexeme c cs).tail)) before =
      ⟨ts, none⟩) :
    ofChars pos (c :: cs.take (lexeme c cs).tail ++ before) =
      ⟨⟨(lexeme c cs).kind, (lexeme c cs).value,
        ⟨pos, pos + Text.byteLength (c :: cs.take (lexeme c cs).tail)⟩⟩ :: ts, none⟩ := by
  have htake : cs.take (lexeme c cs).tail ++ before =
      cs.take ((lexeme c cs).tail + before.length) := by
    rw [List.take_add, ← List.prefix_iff_eq_take.mp hleads]
  have hsame := lexeme_take hfault (Nat.le_add_right _ before.length)
  have hdrop : (cs.take ((lexeme c cs).tail + before.length)).drop (lexeme c cs).tail = before := by
    rw [List.drop_take, Nat.add_sub_cancel_left, ← List.prefix_iff_eq_take.mp hleads]
  rw [byteLength_cons, ← Nat.add_assoc] at hbefore ⊢
  rw [List.cons_append, htake, ofChars, if_neg (by simp [hblank])]
  simp only [hsame, hfault, List.take_take, Nat.min_eq_left (Nat.le_add_right ..), hdrop, hbefore]

theorem Outcome.token {pos : Nat} {c : Char} {cs : List Char} {result : Scan}
    (hblank : Text.isBlank c = false) (hfault : (lexeme c cs).fault = none)
    (hrest : Outcome (pos + Text.byteLength (c :: cs.take (lexeme c cs).tail))
      (cs.drop (lexeme c cs).tail) result) :
    Outcome pos (c :: cs) ⟨⟨(lexeme c cs).kind, (lexeme c cs).value,
      ⟨pos, pos + Text.byteLength (c :: cs.take (lexeme c cs).tail)⟩⟩ :: result.tokens,
      result.error⟩ := by
  have hcs : c :: cs = c :: cs.take (lexeme c cs).tail ++ cs.drop (lexeme c cs).tail := by simp
  cases hrest with
  | whole htiles =>
      refine .whole ?_
      rw [hcs]
      exact .token (spells_lexeme hblank _) rfl htiles
  | @stopped before bad rest ts us cause span hdrop hbad htiles hbefore hspan hcause =>
      have hleads : before <+: cs.drop (lexeme c cs).tail := ⟨_, hdrop.symm⟩
      rw [hdrop, ← List.append_assoc] at hcs
      refine .stopped hcs hbad (.token (spells_lexeme hblank _) rfl htiles)
        (ofChars_cons_take hblank hfault hleads hbefore) ?_ hcause
      rw [hspan, byteLength_append, Nat.add_assoc pos]

/-- A faulty lexeme is a pair of brackets with nothing in it, or it goes on to the end. -/
theorem givesUp_of_fault {c : Char} {cs : List Char} {cause : Fault}
    (hfault : (lexeme c cs).fault = some cause) (span : Span) :
    GivesUp span (cs.drop (lexeme c cs).tail) cause
      (if (lexeme c cs).kept then [⟨(lexeme c cs).kind, (lexeme c cs).value, span⟩] else []) := by
  revert hfault
  unfold lexeme
  split
  · simp [wordLexeme]
  · split
    · simp [variableLexeme]
    · split
      · unfold bracketLexeme
        split
        · rintro ⟨⟩
          rw [List.drop_length]
          exact .bracket
        · dsimp only
          split
          · rintro ⟨⟩
            exact .emptyName
          · simp
      · split
        · simp [numberLexeme]
        · split
          · unfold quoteLexeme
            split
            · rintro ⟨⟩
              rw [List.drop_length]
              exact .quote
            · simp
          · simp [operationLexeme]

/-- Scanning has one of the outcomes. -/
theorem outcome_ofChars (pos : Nat) (cs : List Char) : Outcome pos cs (ofChars pos cs) := by
  fun_induction ofChars pos cs with
  | case1 pos => exact .whole .nil
  | case2 pos c cs hblank ih => exact ih.blank hblank
  | case3 pos c cs hblank found stop token cause hfault =>
      have hspan : token.span = ⟨pos, pos + Text.byteLength (c :: cs.take found.tail)⟩ := by
        rw [byteLength_cons, ← Nat.add_assoc]
      have hcs : c :: cs = [] ++ (c :: cs.take found.tail ++ cs.drop found.tail) := by simp
      exact .stopped hcs (by simp) .nil (by rw [ofChars]) hspan
        (givesUp_of_fault hfault token.span)
  | case4 pos c cs hblank found stop token hfault rest ih =>
      have hstop : stop = pos + Text.byteLength (c :: cs.take found.tail) := by
        rw [byteLength_cons, ← Nat.add_assoc]
      rw [hstop] at ih
      have hwhole := ih.token (Bool.eq_false_iff.mpr hblank) hfault
      rwa [← hstop] at hwhole

theorem GivesUp.tiles {pos : Nat} {bad rest : List Char} {cause : Fault} {us : List Token}
    (hcause : GivesUp ⟨pos, pos + Text.byteLength bad⟩ rest cause us) (hbad : bad ≠ []) :
    us = [] ∨ Tiles pos bad us := by
  cases hcause with
  | emptyName => exact .inl rfl
  | bracket => exact .inl rfl
  | @quote value =>
      have hspells : Spells bad ⟨.string, value, ⟨pos, pos + Text.byteLength bad⟩⟩ :=
        ⟨hbad, fun hkind => absurd rfl hkind, nofun⟩
      have htiles := Tiles.token hspells rfl .nil
      rw [List.append_nil] at htiles
      exact .inr htiles

/-- The tokens tile the characters up to the fault, or up to the end. -/
theorem Outcome.exists_tiles {pos : Nat} {cs : List Char} {result : Scan}
    (houtcome : Outcome pos cs result) :
    ∃ read rest, cs = read ++ rest ∧ Tiles pos read result.tokens ∧
      (rest = [] ∨
        ∃ span ∈ result.error.bind Error.span?, span.start ≤ pos + Text.byteLength read) := by
  cases houtcome with
  | whole htiles => exact ⟨cs, [], by simp, htiles, .inl rfl⟩
  | @stopped before bad rest ts us cause span hcs hbad htiles hbefore hspan hcause =>
      subst hspan hcs
      obtain rfl | hus := hcause.tiles hbad
      · rw [List.append_nil]
        exact ⟨before, bad ++ rest, rfl, htiles, .inr ⟨_, rfl, Nat.le_refl _⟩⟩
      · refine ⟨before ++ bad, rest, by simp, htiles.append hus, .inr ⟨_, rfl, ?_⟩⟩
        rw [byteLength_append]
        exact Nat.add_le_add_left (Nat.le_add_right ..) pos

/-! ## The partition -/

/-- The tokens that were read to their end: an unterminated string is none of them. -/
def wholeTokens (result : Scan) : List Token :=
  match result.error with
  | some (.fault .expectingClosingQuote _) => result.tokens.dropLast
  | _ => result.tokens

/-- The tokens are the tokens of the text before the span of the error. -/
structure StopsAt (text : String) (result : Scan) (cause : Fault) (span : Span) : Prop where
  lexical : cause ∈ [.emptyName, .expectingClosingSquareBracket, .expectingClosingQuote]
  placed : span.PlacedIn text
  before : ∃ read rest, text = read ++ rest ∧ read.utf8ByteSize = span.start ∧
    TrackerQuery.tokens read = .ok result.wholeTokens
  unclosed : cause = .expectingClosingSquareBracket ∨ cause = .expectingClosingQuote →
    span.stop = text.utf8ByteSize
  unfinished : cause = .expectingClosingQuote →
    ∃ value, result.tokens = result.wholeTokens ++ [⟨.string, value, span⟩]

/-- The spans of the tokens cut the text, up to the span of the error, into lexemes and
blanks. -/
structure Partitions (text : String) (result : Scan) : Prop where
  placed : ∀ t ∈ result.tokens, t.span.PlacedIn text
  increasing : result.tokens.Pairwise fun t u => t.span.stop ≤ u.span.start
  gaps : ∀ offset c, Text.StandsAt text offset c →
    (∀ span ∈ result.error.bind Error.span?, offset < span.start) →
    (∀ t ∈ result.tokens, ¬ t.span.Holds offset c) → Text.isBlank c = true
  solid : ∀ t ∈ result.tokens, t.kind ≠ .string → t.kind ≠ .bracketedName →
    ∀ offset c, Text.StandsAt text offset c → t.span.Holds offset c → Text.isBlank c = false
  covered : result.error = none → ∀ offset c, Text.StandsAt text offset c →
    Text.isBlank c = false → ∃! t, t ∈ result.tokens ∧ t.span.Holds offset c
  stops : ∀ error ∈ result.error, ∃ cause span, error = .located cause span ∧
    result.StopsAt text cause span

/-- A scan that fails has read the tokens before the fault. -/
theorem Outcome.stopsAt {text : String} {result : Scan} (houtcome : Outcome 0 text.toList result)
    {error : Error} (herror : error ∈ result.error) :
    ∃ cause span, error = .located cause span ∧ result.StopsAt text cause span := by
  cases houtcome with
  | whole htiles => cases herror
  | @stopped before bad rest ts us cause span htext hbad htiles hbefore hspan hcause =>
      cases herror
      refine ⟨cause, span, rfl, ?_⟩
      rw [Nat.zero_add] at hspan
      have hplaced : span.PlacedIn text := hspan ▸ Span.placedIn_of_append htext hbad
      have hwhole : (⟨ts ++ us, some (.located cause span)⟩ : Scan).wholeTokens = ts := by
        cases hcause <;> simp [wholeTokens, Error.located]
      have hend : rest = [] → span.stop = text.utf8ByteSize := by
        rintro rfl
        rw [hspan, ← Text.byteLength_toList, htext, List.append_nil, byteLength_append]
      refine ⟨?_, hplaced, ⟨String.ofList before, String.ofList (bad ++ rest), ?_, ?_, ?_⟩, ?_, ?_⟩
      · cases hcause <;> simp
      · rw [← String.ofList_append, ← htext, String.ofList_toList]
      · rw [hspan, ← Text.byteLength_toList, String.toList_ofList]
      · rw [hwhole, tokens_eq_ok_iff, scan, String.toList_ofList, hbefore]
        exact ⟨rfl, rfl⟩
      · intro hunclosed
        cases hcause with
        | emptyName => simp at hunclosed
        | bracket => exact hend rfl
        | quote => exact hend rfl
      · rintro rfl
        rw [hwhole]
        cases hcause with
        | quote => exact ⟨_, rfl⟩

/-- A character before the fault is blank or belongs to a token. -/
theorem Outcome.blank_or_held {text : String} {result : Scan}
    (houtcome : Outcome 0 text.toList result) {offset : Nat} {c : Char}
    (hc : Text.StandsAt text offset c)
    (herror : ∀ span ∈ result.error.bind Error.span?, offset < span.start) :
    Text.isBlank c = true ∨ ∃ t ∈ result.tokens, t.span.Holds offset c := by
  obtain ⟨before, after, hbefore, rfl⟩ := hc
  obtain ⟨read, rest, htext, htiles, hend⟩ := houtcome.exists_tiles
  have hinside : ∃ inner, read = before ++ c :: inner := by
    have hrest : rest = [] ∨ Text.byteLength before < Text.byteLength read := by
      refine hend.imp_right ?_
      rintro ⟨span, hspan, hle⟩
      have hlt := herror span hspan
      omega
    obtain ⟨more, rfl, hmore⟩ | ⟨inner, rfl, hinner⟩ :=
      List.append_eq_append_iff.mp (htext.symm.trans hbefore)
    · rw [byteLength_append] at hrest
      obtain rfl | hlt := hrest
      · simp at hmore
      · omega
    · cases inner with
      | nil =>
          obtain rfl | hlt := hrest
          · cases hinner
          · simp at hlt
      | cons d inner =>
          obtain ⟨rfl, -⟩ := List.cons.inj hinner
          exact ⟨inner, rfl⟩
  obtain ⟨inner, hread⟩ := hinside
  simpa using htiles.blank_or_held hread

/-- Each token of a text has its lexeme there. -/
theorem exists_lexeme_of_mem_scan {text : String} {t : Token} (ht : t ∈ (scan text).tokens) :
    ∃ before lexeme after, text.toList = before ++ (lexeme ++ after) ∧ Spells lexeme t ∧
      t.span = ⟨Text.byteLength before, Text.byteLength before + Text.byteLength lexeme⟩ := by
  obtain ⟨read, rest, htext, htiles, -⟩ := (outcome_ofChars 0 text.toList).exists_tiles
  obtain ⟨before, lexeme, after, rfl, hlexeme, hspan⟩ := htiles.exists_lexeme ht
  refine ⟨before, lexeme, after ++ rest, by simp [htext], hlexeme, ?_⟩
  rw [hspan, Nat.zero_add]

theorem placedIn_of_mem_scan {text : String} {t : Token} (ht : t ∈ (scan text).tokens) :
    t.span.PlacedIn text := by
  obtain ⟨before, lexeme, after, htext, hlexeme, hspan⟩ := exists_lexeme_of_mem_scan ht
  rw [hspan]
  exact Span.placedIn_of_append htext hlexeme.nonempty

/-- The tokens of a text lie one after the other. -/
theorem pairwise_scan (text : String) :
    (scan text).tokens.Pairwise fun t u => t.span.stop ≤ u.span.start := by
  obtain ⟨_, _, -, htiles, -⟩ := (outcome_ofChars 0 text.toList).exists_tiles
  exact htiles.pairwise

/-- No character belongs to two tokens that lie one after the other. -/
theorem eq_of_holds {ts : List Token}
    (hts : ts.Pairwise fun t u => t.span.stop ≤ u.span.start) {t u : Token} (ht : t ∈ ts)
    (hu : u ∈ ts) {offset : Nat} {c : Char} (htc : t.span.Holds offset c)
    (huc : u.span.Holds offset c) : t = u := by
  have hsymm : Std.Symm fun t u : Token =>
      t.span.stop ≤ u.span.start ∨ u.span.stop ≤ t.span.start := ⟨fun _ _ => Or.symm⟩
  have hapart : ts.Pairwise fun t u =>
      t.span.stop ≤ u.span.start ∨ u.span.stop ≤ t.span.start := hts.imp Or.inl
  by_contra hne
  have hapart := hapart.forall ht hu hne
  have hsize := c.utf8Size_pos
  obtain ⟨htstart, htstop⟩ := htc
  obtain ⟨hustart, hustop⟩ := huc
  omega

/-- Scanning any text partitions it. -/
theorem scan_partitions_text (text : String) : Partitions text (scan text) := by
  have houtcome : Outcome 0 text.toList (scan text) := outcome_ofChars 0 text.toList
  obtain ⟨read, rest, -, htiles, -⟩ := houtcome.exists_tiles
  constructor
  case placed => exact fun t ht => placedIn_of_mem_scan ht
  case increasing => exact htiles.pairwise
  case gaps =>
    intro offset c hc herror houtside
    refine (houtcome.blank_or_held hc herror).resolve_right ?_
    rintro ⟨t, ht, hholds⟩
    exact houtside t ht hholds
  case solid =>
    intro t ht hstring hname offset c hc hholds
    obtain ⟨before, lexeme, after, htext, hlexeme, hspan⟩ := exists_lexeme_of_mem_scan ht
    exact hlexeme.solid hstring hname c (Span.Holds.mem htext hc (hspan ▸ hholds))
  case covered =>
    intro herror offset c hc hblank
    obtain hheld | ⟨t, ht, hholds⟩ := houtcome.blank_or_held hc (by simp [herror])
    · rw [hblank] at hheld
      cases hheld
    · refine ⟨t, ⟨ht, hholds⟩, fun u hu => ?_⟩
      exact eq_of_holds htiles.pairwise hu.1 ht hu.2 hholds
  case stops => exact fun error herror => houtcome.stopsAt herror

end Scan

end TrackerQuery
