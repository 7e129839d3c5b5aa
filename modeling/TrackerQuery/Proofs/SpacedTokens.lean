import TrackerQuery.Proofs.Outcome
import TrackerQuery.Proofs.Respelled
import TrackerQuery.Proofs.Tiling

/-!
# Tokens written apart

A lexeme without brackets or quotes does not go on over a blank, and brackets and quotes
end at their closing character whatever follows.  So tokens that are written with blanks
between them are read as the same tokens, and the characters of a token, by themselves,
are read as that token.
-/

namespace TrackerQuery

/-! ## Characters of a span -/

theorem Text.before_byteLength (cs ds : List Char) :
    before (byteLength cs) (cs ++ ds) = cs := by
  induction cs with
  | nil =>
      cases ds with
      | nil => rfl
      | cons d ds =>
          have hsize : ¬d.utf8Size ≤ 0 := Nat.not_le.mpr d.utf8Size_pos
          rw [List.nil_append, before]
          exact if_neg hsize
  | cons c cs ih =>
      rw [List.cons_append, before, Scan.byteLength_cons, if_pos (Nat.le_add_right ..),
        Nat.add_sub_cancel_left, ih]

def Span.textIn (text : String) (span : Span) : String :=
  .ofList ((Text.before span.stop text.toList).drop (Text.before span.start text.toList).length)

theorem Span.textIn_of_append {text : String} {before lexeme after : List Char}
    (htext : text.toList = before ++ (lexeme ++ after)) :
    Span.textIn text ⟨Text.byteLength before,
      Text.byteLength before + Text.byteLength lexeme⟩ = String.ofList lexeme := by
  have hstop : Text.before (Text.byteLength before + Text.byteLength lexeme) text.toList =
      before ++ lexeme := by
    rw [htext, ← Scan.byteLength_append, ← List.append_assoc, Text.before_byteLength]
  have hstart : Text.before (Text.byteLength before) text.toList = before := by
    rw [htext, Text.before_byteLength]
  rw [Span.textIn, hstop, hstart, List.drop_left]

namespace Scan

open Decimal (isDigit)

/-! ## Lexemes before a blank -/

section Lexemes

variable {c : Char} {cs : List Char} (next : List Char)

theorem bracketTail?_append_of_eq_some {n : Nat} (hn : bracketTail? cs = some n) :
    bracketTail? (cs ++ next) = some n ∧ n ≤ cs.length := by
  induction cs generalizing n with
  | nil => cases hn
  | cons c cs ih =>
      rw [bracketTail?] at hn
      rw [List.cons_append, bracketTail?]
      split at hn
      · rename_i hc
        cases hn
        rw [if_pos hc]
        exact ⟨rfl, Nat.le_add_left ..⟩
      · rename_i hc
        obtain ⟨k, hk, rfl⟩ := Option.map_eq_some_iff.mp hn
        obtain ⟨htail, hle⟩ := ih hk
        rw [if_neg hc, htail]
        exact ⟨rfl, Nat.succ_le_succ hle⟩

theorem bracketLexeme_append (hfault : (bracketLexeme cs).fault = none) :
    bracketLexeme (cs ++ next) = bracketLexeme cs ∧ (bracketLexeme cs).tail ≤ cs.length := by
  unfold bracketLexeme at hfault ⊢
  cases htail : bracketTail? cs with
  | none => simp [htail] at hfault
  | some n =>
      obtain ⟨htail', hle⟩ := bracketTail?_append_of_eq_some next htail
      rw [htail']
      dsimp only
      rw [List.take_append_of_le_length (by omega)]
      refine ⟨rfl, ?_⟩
      split <;> exact hle

/-- A string ends at a quote that no other quote follows. -/
theorem quoteTail?_append_of_eq_some {quote d : Char} {n : Nat} (hd : d ≠ quote)
    (hn : quoteTail? quote cs = some n) :
    quoteTail? quote (cs ++ d :: next) = some n ∧ n ≤ cs.length := by
  fun_induction quoteTail? quote cs generalizing n with
  | case1 => cases hn
  | case2 c hc =>
      cases hn
      rw [List.singleton_append, quoteTail?, if_pos hc, if_neg (by simpa using hd)]
      exact ⟨rfl, Nat.le_refl _⟩
  | case3 c hc => cases hn
  | case4 c e cs hc he ih =>
      obtain ⟨k, hk, rfl⟩ := Option.map_eq_some_iff.mp hn
      obtain ⟨htail, hle⟩ := ih hk
      rw [List.cons_append, List.cons_append, quoteTail?, if_pos hc, if_pos he, htail]
      exact ⟨rfl, by simpa using hle⟩
  | case5 c e cs hc he =>
      cases hn
      rw [List.cons_append, List.cons_append, quoteTail?, if_pos hc, if_neg he]
      exact ⟨rfl, by simp⟩
  | case6 c e cs hc ih =>
      obtain ⟨k, hk, rfl⟩ := Option.map_eq_some_iff.mp hn
      obtain ⟨htail, hle⟩ := ih hk
      rw [List.cons_append] at htail
      rw [List.cons_append, List.cons_append, quoteTail?, if_neg hc, htail]
      exact ⟨rfl, by simpa using hle⟩

theorem quoteLexeme_append {d : Char} (hd : d ≠ c) (hfault : (quoteLexeme c cs).fault = none) :
    quoteLexeme c (cs ++ d :: next) = quoteLexeme c cs ∧ (quoteLexeme c cs).tail ≤ cs.length := by
  unfold quoteLexeme at hfault ⊢
  cases htail : quoteTail? c cs with
  | none => simp [htail] at hfault
  | some n =>
      obtain ⟨htail', hle⟩ := quoteTail?_append_of_eq_some next hd htail
      rw [htail']
      dsimp only
      rw [List.take_append_of_le_length hle]
      exact ⟨rfl, hle⟩

theorem lexeme_bracket (cs : List Char) : lexeme '[' cs = bracketLexeme cs := by
  have hstart : isNameStart '[' = false := by decide
  simp [lexeme, hstart]

theorem lexeme_quote (hc : c = '\'' ∨ c = '"') (cs : List Char) :
    lexeme c cs = quoteLexeme c cs := by
  obtain rfl | rfl := hc
  · have hother : isNameStart '\'' = false ∧ isDigit '\'' = false := by decide
    simp [lexeme, hother]
  · have hother : isNameStart '"' = false ∧ isDigit '"' = false := by decide
    simp [lexeme, hother]

/-- Without brackets and quotes there is nothing to be closed. -/
theorem fault_lexeme (hbracket : c ≠ '[') (hquote : ¬(c = '\'' ∨ c = '"')) (cs : List Char) :
    (lexeme c cs).fault = none ∧ (lexeme c cs).kind ≠ .string ∧
      (lexeme c cs).kind ≠ .bracketedName := by
  have hnoBracket : ¬(c == '[') = true := by simpa using hbracket
  have hnoQuote : ¬(c == '\'' || c == '"') = true := by simpa using hquote
  unfold lexeme
  rw [if_neg hnoBracket, if_neg hnoQuote]
  split
  · unfold wordLexeme
    dsimp only
    split <;> exact ⟨rfl, nofun, nofun⟩
  · split
    · exact ⟨rfl, nofun, nofun⟩
    · split <;> exact ⟨rfl, nofun, nofun⟩

/-- A lexeme ends before a blank, if it is not broken off there. -/
theorem lexeme_append {d : Char} (hc : Text.isBlank c = false) (hd : Text.isBlank d = true)
    (hfault : (lexeme c cs).fault = none) :
    lexeme c (cs ++ d :: next) = lexeme c cs ∧ (lexeme c cs).tail ≤ cs.length := by
  by_cases hbracket : c = '['
  · subst hbracket
    rw [lexeme_bracket] at hfault ⊢
    rw [lexeme_bracket]
    exact bracketLexeme_append (d :: next) hfault
  · by_cases hquote : c = '\'' ∨ c = '"'
    · rw [lexeme_quote hquote] at hfault ⊢
      rw [lexeme_quote hquote]
      refine quoteLexeme_append next ?_ hfault
      rintro rfl
      rw [hc] at hd
      cases hd
    · obtain ⟨hwhole, hstring, hname⟩ := fault_lexeme hbracket hquote (cs ++ d :: next)
      have htail : (lexeme c (cs ++ d :: next)).tail ≤ cs.length := by
        by_contra hlonger
        obtain ⟨k, hk⟩ := Nat.exists_eq_add_of_lt (Nat.lt_of_not_le hlonger)
        have hmem : d ∈ (cs ++ d :: next).take (cs.length + k + 1) := by
          rw [Nat.add_assoc, List.take_length_add_append, List.take_succ_cons]
          exact List.mem_append_right _ List.mem_cons_self
        rw [← hk] at hmem
        have hsolid := isBlank_of_mem_lexeme hc hstring hname d (List.mem_cons_of_mem _ hmem)
        rw [hd] at hsolid
        cases hsolid
      have hsame := lexeme_take hwhole htail
      rw [List.take_left] at hsame
      exact ⟨hsame.symm, hsame ▸ htail⟩

end Lexemes

/-! ## Scanning over a gap -/

/-- Behind a blank scanning goes on as if the text began there. -/
theorem ofChars_append {pos : Nat} {d : Char} {cs next : List Char} (hd : Text.isBlank d = true)
    (herror : (ofChars pos cs).error = none) :
    ofChars pos (cs ++ d :: next) =
      (ofChars (pos + Text.byteLength cs) (d :: next)).after (ofChars pos cs).tokens := by
  fun_induction ofChars pos cs with
  | case1 pos => rfl
  | case2 pos c cs hblank ih =>
      rw [List.cons_append, ofChars, if_pos hblank, ih herror, byteLength_cons, Nat.add_assoc]
  | case3 pos c cs hblank found stop token cause hfault => cases herror
  | case4 pos c cs hblank found stop token hfault rest ih =>
      obtain ⟨hsame, htail⟩ := lexeme_append next (Bool.eq_false_iff.mpr hblank) hd hfault
      have hsame : lexeme c (cs ++ d :: next) = found := hsame
      have htail : found.tail ≤ cs.length := htail
      have hlength : stop + Text.byteLength (cs.drop found.tail) =
          pos + Text.byteLength (c :: cs) := by
        have hsum := byteLength_append (cs.take found.tail) (cs.drop found.tail)
        rw [List.take_append_drop] at hsum
        rw [byteLength_cons, hsum]
        omega
      have hrest := ih herror
      rw [hlength] at hrest
      rw [List.cons_append, ofChars, if_neg hblank]
      simp only [hsame, hfault, List.take_append_of_le_length htail,
        List.drop_append_of_le_length htail]
      rw [hrest]
      rfl

theorem ofChars_blanks {gap : List Char} (hgap : ∀ c ∈ gap, Text.isBlank c = true) (pos : Nat)
    (cs : List Char) : ofChars pos (gap ++ cs) = ofChars (pos + Text.byteLength gap) cs := by
  induction gap generalizing pos with
  | nil => rfl
  | cons c gap ih =>
      obtain ⟨hc, hgap⟩ := List.forall_mem_cons.mp hgap
      rw [List.cons_append, ofChars, if_pos hc, ih hgap, byteLength_cons, Nat.add_assoc]

theorem Rereads.ofChars {t : Token} (ht : Rereads t) (pos : Nat) :
    ∃ span, Scan.ofChars pos t.render.toList = ⟨[⟨t.kind, t.value, span⟩], none⟩ := by
  obtain ⟨_, htakes, span, rfl⟩ := ht pos
  have hall := htakes [] (by simp [Ends, Halts])
  rw [List.append_nil, Scan.ofChars.eq_1] at hall
  exact ⟨span, hall⟩

/-- One blank or more, and nothing else. -/
structure IsGap (gap : String) : Prop where
  nonempty : gap ≠ ""
  blank : ∀ c ∈ gap.toList, Text.isBlank c = true

/-- The tokens one after the other, with `gap i` between the token `i` and the next. -/
def spacedOut (gap : Nat → String) : List Token → String
  | [] => ""
  | [t] => t.render
  | t :: u :: ts => t.render ++ (gap 0 ++ spacedOut (fun i => gap (i + 1)) (u :: ts))

/-- Tokens with blanks between them are scanned as themselves. -/
theorem ofChars_spacedOut {gap : Nat → String} {ts : List Token} (hgap : ∀ i, IsGap (gap i))
    (hts : ∀ t ∈ ts, Rereads t) (pos : Nat) :
    ∃ us, ofChars pos (spacedOut gap ts).toList = ⟨us, none⟩ ∧
      us.map Token.unplaced = ts.map Token.unplaced := by
  fun_induction spacedOut gap ts generalizing pos with
  | case1 gap => exact ⟨[], by rw [String.toList_empty, ofChars], rfl⟩
  | case2 gap t =>
      obtain ⟨span, hread⟩ := (hts t List.mem_cons_self).ofChars pos
      exact ⟨_, hread, rfl⟩
  | case3 gap t u ts ih =>
      obtain ⟨ht, hts⟩ := List.forall_mem_cons.mp hts
      obtain ⟨span, hread⟩ := ht.ofChars pos
      obtain ⟨hnonempty, hblank⟩ := hgap 0
      obtain ⟨d, ds, hgap0⟩ := List.exists_cons_of_ne_nil (mt String.toList_eq_nil_iff.mp hnonempty)
      have hd : Text.isBlank d = true := hblank d (by simp [hgap0])
      obtain ⟨us, hrest, hus⟩ := ih (fun i => hgap (i + 1)) hts
        (pos + Text.byteLength t.render.toList + Text.byteLength (gap 0).toList)
      refine ⟨⟨t.kind, t.value, span⟩ :: us, ?_, ?_⟩
      · rw [String.toList_append, String.toList_append, hgap0, List.cons_append,
          ofChars_append hd (by rw [hread]), ← List.cons_append, ← hgap0,
          ofChars_blanks hblank, hrest, hread]
        rfl
      · rw [List.map_cons, hus]
        rfl

/-! ## Tokens by themselves -/

/-- Each token has its lexeme, which is read as the token wherever it stands alone. -/
theorem exists_ofChars_lexeme {pos : Nat} {cs : List Char} (herror : (ofChars pos cs).error = none)
    {t : Token} (ht : t ∈ (ofChars pos cs).tokens) :
    ∃ before lexeme after, cs = before ++ (lexeme ++ after) ∧
      t.span = ⟨pos + Text.byteLength before,
        pos + Text.byteLength before + Text.byteLength lexeme⟩ ∧
      ∀ start, ofChars start lexeme =
        ⟨[⟨t.kind, t.value, ⟨start, start + Text.byteLength lexeme⟩⟩], none⟩ := by
  fun_induction ofChars pos cs with
  | case1 pos => cases ht
  | case2 pos c cs hblank ih =>
      obtain ⟨before, lexeme, after, rfl, hspan, halone⟩ := ih herror ht
      refine ⟨c :: before, lexeme, after, rfl, ?_, halone⟩
      rw [hspan, byteLength_cons, Nat.add_assoc pos]
  | case3 pos c cs hblank found stop token cause hfault => cases herror
  | case4 pos c cs hblank found stop token hfault rest ih =>
      have hstop : stop = pos + Text.byteLength (c :: cs.take found.tail) := by
        rw [byteLength_cons, ← Nat.add_assoc]
      obtain rfl | ht := List.mem_cons.mp ht
      · refine ⟨[], c :: cs.take found.tail, cs.drop found.tail, by simp, ?_, fun start => ?_⟩
        · exact congrArg (Span.mk pos) hstop
        · have hnothing : ofChars (start + Text.byteLength (c :: cs.take found.tail)) [] =
              ⟨[], none⟩ := by rw [ofChars]
          have halone := ofChars_cons_take (Bool.eq_false_iff.mpr hblank) hfault List.nil_prefix
            hnothing
          rwa [List.append_nil] at halone
      · obtain ⟨before, lexeme, after, hdrop, hspan, halone⟩ := ih herror ht
        refine ⟨c :: cs.take found.tail ++ before, lexeme, after, ?_, ?_, halone⟩
        · rw [List.append_assoc, ← hdrop, List.cons_append, List.take_append_drop]
        · rw [hspan, hstop, byteLength_append, Nat.add_assoc pos]

end Scan

/-- The tokens of a text are read again from their own texts, whatever blanks stand between
those, and each of them is read from the part of the text that it covers. -/
theorem tokens_spacedOut_and_textIn {text : String} {ts : List Token}
    (htokens : tokens text = .ok ts) :
    (∀ gap : Nat → String, (∀ i, Scan.IsGap (gap i)) →
      ∃ us, tokens (Scan.spacedOut gap ts) = .ok us ∧
        us.map Token.unplaced = ts.map Token.unplaced) ∧
      ∀ t ∈ ts, t.span.PlacedIn text ∧ tokens (t.span.textIn text) =
        .ok [⟨t.kind, t.value, ⟨0, (t.span.textIn text).utf8ByteSize⟩⟩] := by
  obtain ⟨herror, rfl⟩ := tokens_eq_ok_iff.mp htokens
  constructor
  · intro gap hgap
    have hrereads : ∀ t ∈ (scan text).tokens, Scan.Rereads t :=
      Scan.rereads_of_mem_ofChars herror
    obtain ⟨us, hread, hus⟩ := Scan.ofChars_spacedOut hgap hrereads 0
    refine ⟨us, tokens_eq_ok_iff.mpr ?_, hus⟩
    rw [scan, hread]
    exact ⟨rfl, rfl⟩
  · intro t ht
    refine ⟨Scan.placedIn_of_mem_scan ht, tokens_eq_ok_iff.mpr ?_⟩
    obtain ⟨before, lexeme, after, htext, hspan, halone⟩ := Scan.exists_ofChars_lexeme herror ht
    rw [Nat.zero_add] at hspan
    have hpart : t.span.textIn text = String.ofList lexeme := hspan ▸ Span.textIn_of_append htext
    rw [hpart, scan, ← Text.byteLength_toList, String.toList_ofList, halone 0, Nat.zero_add]
    exact ⟨rfl, rfl⟩

/-- A name in brackets, a number with a sign, pairs of symbols and a quote in quotes, run
together in the text and spaced out by line breaks and wide blanks. -/
theorem tokens_spacedOut_of_crowded :
    ∃ ts, tokens "[ a ]<>-1.5e3||\"it's\"=@me.x" = .ok ts ∧ ts.length = 9 ∧
      (∃ us, tokens (Scan.spacedOut (fun i => if i % 2 = 0 then "\t\n" else "\u3000") ts) = .ok us ∧
        us.map Token.unplaced = ts.map Token.unplaced) ∧
      ∀ t ∈ ts, ∃ span, tokens (t.span.textIn "[ a ]<>-1.5e3||\"it's\"=@me.x") =
        .ok [⟨t.kind, t.value, span⟩] := by
  have hscan : ((tokens "[ a ]<>-1.5e3||\"it's\"=@me.x").toOption.any fun ts =>
      ts.length == 9) = true := by
    decide +kernel
  obtain ⟨ts, hscan, hlength⟩ := (Option.any_eq_true _ _).mp hscan
  have htokens := toOption_eq_some_iff.mp hscan
  obtain ⟨hspaced, halone⟩ := tokens_spacedOut_and_textIn htokens
  refine ⟨ts, htokens, beq_iff_eq.mp hlength, hspaced _ fun i => ?_, fun t ht => ?_⟩
  · split
    · exact ⟨by decide, List.all_eq_true.mp (by decide)⟩
    · exact ⟨by decide, List.all_eq_true.mp (by decide)⟩
  · exact ⟨_, (halone t ht).2⟩

end TrackerQuery
