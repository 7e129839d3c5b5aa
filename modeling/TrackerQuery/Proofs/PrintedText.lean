import TrackerQuery.Proofs.Lexeme

/-!
# Scanning printed text

Printed text is put together from lexemes, blanks and punctuation.  Each part is
scanned by itself wherever a part ends after it, so what the parts are read as can
be put together in the same way.
-/

namespace TrackerQuery.Scan

open Decimal (isDigit)

/-- A part of printed text ends before a blank, a comma or a closing
parenthesis. -/
def isEnd (c : Char) : Bool :=
  c == ' ' || c == ',' || c == ')'

def Ends (next : List Char) : Prop :=
  Halts (fun c => !isEnd c) next

theorem ends_cons {c : Char} {cs : List Char} : Ends (c :: cs) ↔ isEnd c = true := by
  simp [Ends, halts_cons]

theorem Ends.append {cs next : List Char} (hcs : Ends cs) (hnext : Ends next) :
    Ends (cs ++ next) := by
  cases cs with
  | nil => exact hnext
  | cons c cs => exact ends_cons.mpr (ends_cons.mp hcs)

/-- Where a part ends, a character of another class does not go on with it. -/
theorem Ends.halts {next : List Char} (hnext : Ends next) {p : Char → Bool}
    (hp : [' ', ',', ')'].any p = false) : Halts p next :=
  Halts.imp hnext fun c hc => by
    simp only [Bool.not_eq_false', isEnd, Bool.or_eq_true, beq_iff_eq, or_assoc] at hc
    exact Bool.eq_false_iff.mpr (List.any_eq_false.mp hp c (by simpa using hc))

def after (ts : List Token) (rest : Scan) : Scan :=
  ⟨ts ++ rest.tokens, rest.error⟩

/-- At byte `pos` the text is scanned as `ts`, whatever follows its end. -/
def Takes (pos : Nat) (text : List Char) (ts : List Token) : Prop :=
  ∀ next, Ends next →
    ofChars pos (text ++ next) = (ofChars (pos + Text.byteLength text) next).after ts

/-- At every place the text is scanned as tokens of which `P` holds. -/
def Reads (text : List Char) (P : List Token → Prop) : Prop :=
  ∀ pos, ∃ ts, Takes pos text ts ∧ P ts

theorem byteLength_append (cs ds : List Char) :
    Text.byteLength (cs ++ ds) = Text.byteLength cs + Text.byteLength ds := by
  induction cs with
  | nil => simp [Text.byteLength]
  | cons c cs ih =>
      simp only [Text.byteLength, List.cons_append, List.foldr_cons] at ih ⊢
      omega

theorem byteLength_cons (c : Char) (cs : List Char) :
    Text.byteLength (c :: cs) = c.utf8Size + Text.byteLength cs := by
  simp [Text.byteLength]

/-! ## Putting parts together -/

section Parts

variable {a b : List Char} {P Q : List Token → Prop}

theorem Reads.imp (ha : Reads a P) (himp : ∀ ts, P ts → Q ts) : Reads a Q := by
  intro pos
  obtain ⟨ts, htakes, hts⟩ := ha pos
  exact ⟨ts, htakes, himp ts hts⟩

theorem Reads.append (ha : Reads a P) (hb : Reads b Q) (hends : Ends b) :
    Reads (a ++ b) fun ts => ∃ us vs, ts = us ++ vs ∧ P us ∧ Q vs := by
  intro pos
  obtain ⟨us, hus, hP⟩ := ha pos
  obtain ⟨vs, hvs, hQ⟩ := hb (pos + Text.byteLength a)
  refine ⟨us ++ vs, fun next hnext => ?_, us, vs, rfl, hP, hQ⟩
  rw [List.append_assoc, hus _ (hends.append hnext), hvs next hnext, byteLength_append,
    Nat.add_assoc]
  simp [after]

theorem Reads.blank (hb : Reads b Q) : Reads (' ' :: b) Q := by
  intro pos
  obtain ⟨ts, htakes, hts⟩ := hb (pos + 1)
  refine ⟨ts, fun next hnext => ?_, hts⟩
  have hblank : Text.isBlank ' ' = true := by decide
  have hsize : Char.utf8Size ' ' = 1 := by decide
  rw [List.cons_append, ofChars, if_pos hblank, hsize, htakes next hnext, byteLength_cons, hsize,
    Nat.add_assoc]

/-- Two parts with a blank between them. -/
theorem Reads.spaced (ha : Reads a P) (hb : Reads b Q) :
    Reads (a ++ ' ' :: b) fun ts => ∃ us vs, ts = us ++ vs ∧ P us ∧ Q vs :=
  ha.append hb.blank (ends_cons.mpr (by decide))

theorem reads_nil : Reads [] (· = []) :=
  fun _ => ⟨[], fun _ _ => rfl, rfl⟩

/-- A lexeme and the part right after it. -/
theorem Reads.afterLexeme {c : Char} {cs : List Char} {kind : TokenKind} {value : String}
    (hc : Text.isBlank c = false)
    (hlexeme : ∀ next, Ends next →
      lexeme c (cs ++ (b ++ next)) = ⟨cs.length, kind, value, none, true⟩)
    (hb : Reads b Q) :
    Reads (c :: (cs ++ b)) fun ts => ∃ span us, ts = ⟨kind, value, span⟩ :: us ∧ Q us := by
  intro pos
  have hstop : pos + c.utf8Size + Text.byteLength cs = pos + Text.byteLength (c :: cs) := by
    rw [byteLength_cons, Nat.add_assoc]
  obtain ⟨us, hus, hQ⟩ := hb (pos + Text.byteLength (c :: cs))
  refine ⟨_, fun next hnext => ?_, ⟨pos, pos + Text.byteLength (c :: cs)⟩, us, rfl, hQ⟩
  rw [← List.cons_append, byteLength_append, ← Nat.add_assoc, List.cons_append, List.cons_append,
    List.append_assoc, ofChars, if_neg (by simp [hc])]
  simp [hlexeme next hnext, after, hstop, hus next hnext]

def Single (kind : TokenKind) (value : String) (ts : List Token) : Prop :=
  ∃ span, ts = [⟨kind, value, span⟩]

theorem reads_lexeme {c : Char} {cs : List Char} {kind : TokenKind} {value : String}
    (hc : Text.isBlank c = false)
    (hlexeme : ∀ next, Ends next →
      lexeme c (cs ++ next) = ⟨cs.length, kind, value, none, true⟩) :
    Reads (c :: cs) (Single kind value) := by
  have hread := reads_nil.afterLexeme hc hlexeme
  rw [List.append_nil] at hread
  refine hread.imp ?_
  rintro _ ⟨span, _, rfl, rfl⟩
  exact ⟨span, rfl⟩

/-! ## Punctuation -/

def isSymbol (c : Char) : Bool :=
  !(Text.isBlank c || isNameStart c || c == '@' || c == '[' || isDigit c || c == '\'' || c == '"')

theorem isBlank_of_isSymbol {c : Char} (hc : isSymbol c = true) : Text.isBlank c = false := by
  simp only [isSymbol, Bool.not_eq_true', Bool.or_eq_false_iff] at hc
  exact hc.1.1.1.1.1.1

/-- A symbol is an operator or a part of one, but for the sign of a number. -/
theorem lexeme_symbol {c : Char} {next : List Char} (hc : isSymbol c = true)
    (hsign : c = '+' ∨ c = '-' → startsWithDigit next = false) :
    lexeme c next = operationLexeme c next := by
  simp only [isSymbol, Bool.not_eq_true', Bool.or_eq_false_iff, beq_eq_false_iff_ne, ne_eq] at hc
  obtain ⟨⟨⟨⟨⟨⟨-, hname⟩, hat⟩, hbracket⟩, hdigit⟩, hquote⟩, hdouble⟩ := hc
  have hnumber : ¬((c = '+' ∨ c = '-') ∧ startsWithDigit next = true) := by
    rintro ⟨hc, hdigits⟩
    rw [hsign hc] at hdigits
    cases hdigits
  simp [lexeme, hname, hat, hbracket, hdigit, hquote, hdouble, hnumber]

theorem isSymbol_of_punctuation {c : Char} (hc : c ∈ ['(', ')', ',', '.']) :
    isSymbol c = true := by
  have hall : ['(', ')', ',', '.'].all isSymbol = true := by decide
  exact List.all_eq_true.mp hall c hc

/-- A parenthesis, a comma or a dot is a token whatever follows it. -/
theorem lexeme_punctuation {c : Char} (hc : c ∈ ['(', ')', ',', '.']) (next : List Char) :
    lexeme c next = ⟨0, .operation, String.singleton c, none, true⟩ := by
  have hpaired :
      (pairedOperations.any fun pair => ['(', ')', ',', '.'].contains pair.1) = false := by
    decide
  have htail : operationTail c next = 0 := by
    cases next with
    | nil => rfl
    | cons d next =>
        have hpair : (c, d) ∉ pairedOperations := fun hmem =>
          List.any_eq_false.mp hpaired _ hmem (List.contains_iff_mem.mpr hc)
        simp [operationTail, hpair]
  rw [lexeme_symbol (isSymbol_of_punctuation hc) (by rintro (rfl | rfl) <;> simp at hc)]
  simp [operationLexeme, htail]

/-- A part right after a punctuation character. -/
theorem Reads.punctuated {c : Char} (hc : c ∈ ['(', ')', ',', '.']) (ha : Reads a P) :
    Reads (c :: a) fun ts =>
      ∃ t us, ts = t :: us ∧ t.isOperation (String.singleton c) = true ∧ P us := by
  have hblank := isBlank_of_isSymbol (isSymbol_of_punctuation hc)
  have hlexeme : ∀ next, Ends next → lexeme c ([] ++ (a ++ next)) = _ :=
    fun next _ => lexeme_punctuation hc _
  refine (ha.afterLexeme hblank hlexeme).imp ?_
  rintro _ ⟨span, us, rfl, hus⟩
  exact ⟨_, us, rfl, by simp [Token.isOperation], hus⟩

theorem reads_punctuation {c : Char} (hc : c ∈ ['(', ')', ',', '.']) :
    Reads [c] fun ts => ∃ t, ts = [t] ∧ t.isOperation (String.singleton c) = true := by
  refine (reads_nil.punctuated hc).imp ?_
  rintro _ ⟨t, _, rfl, ht, rfl⟩
  exact ⟨t, rfl, ht⟩

/-- Something in parentheses. -/
theorem Reads.parens (ha : Reads a P) :
    Reads ('(' :: (a ++ [')'])) fun ts => ∃ opening us closing, ts = opening :: (us ++ [closing]) ∧
      opening.isOperation "(" = true ∧ P us ∧ closing.isOperation ")" = true := by
  have hclosed := ha.append (reads_punctuation (c := ')') (by decide)) (ends_cons.mpr (by decide))
  refine (hclosed.punctuated (by decide)).imp ?_
  rintro _ ⟨opening, _, rfl, hopening, us, _, rfl, hus, closing, rfl, hclosing⟩
  exact ⟨opening, us, closing, rfl, hopening, hus, hclosing⟩

/-- What has been read is what the text as a whole is scanned as. -/
theorem Reads.tokens {text : String} (htext : Reads text.toList P) :
    ∃ ts, TrackerQuery.tokens text = .ok ts ∧ P ts := by
  obtain ⟨ts, htakes, hts⟩ := htext 0
  have hall := htakes [] (by simp [Ends, Halts])
  refine ⟨ts, ?_, hts⟩
  rw [List.append_nil] at hall
  simp [TrackerQuery.tokens, scan, hall, ofChars, after]

end Parts

/-! ## Lexemes -/

theorem nameTail_of_ends {next : List Char} (hnext : Ends next) : nameTail next = 0 := by
  cases next with
  | nil => rfl
  | cons c next =>
      have hname : isNameChar c = false := hnext.halts (by decide) c rfl
      have hdot : c ≠ '.' := by
        rintro rfl
        exact absurd (ends_cons.mp hnext) (by decide)
      simp [nameTail, hname, hdot]

theorem isBlank_of_isNameStart {c : Char} (hc : isNameStart c = true) : Text.isBlank c = false :=
  isBlank_of_isNameChar (isNameChar_of_isNameStart hc)

theorem lexeme_word {c : Char} {tail next : List Char} (hc : isNameStart c = true)
    (htail : IsWordTail tail) (hnext : nameTail next = 0) :
    lexeme c (tail ++ next) =
      ⟨tail.length, if isBooleanWord (String.ofList (c :: tail)) then .boolean else .name,
        String.ofList (c :: tail), none, true⟩ := by
  simp only [lexeme, hc, if_true, wordLexeme, nameTail_append htail hnext, List.take_left]

theorem reads_word {text : String} (hword : IsWord text.toList) :
    Reads text.toList (Single (if isBooleanWord text then .boolean else .name) text) := by
  obtain ⟨c, tail, htext, hc, htail⟩ := hword
  have hvalue : text = String.ofList (c :: tail) := by rw [← htext, String.ofList_toList]
  rw [htext, hvalue]
  exact reads_lexeme (isBlank_of_isNameStart hc) fun next hnext =>
    lexeme_word hc htail (nameTail_of_ends hnext)

theorem reads_keyword (word : String) (hword : IsWord word.toList)
    (hother : isBooleanWord word = false) :
    Reads word.toList fun ts => ∃ t, ts = [t] ∧ t.isKeyword word = true := by
  refine (reads_word hword).imp ?_
  rintro _ ⟨span, rfl⟩
  exact ⟨_, rfl, by simp [hother, Token.isKeyword, Text.sameIgnoringCase]⟩

theorem lexeme_bracketed {cs : List Char} (hcs : IsBracketable cs) (next : List Char) :
    lexeme '[' (cs ++ ']' :: next) =
      ⟨cs.length + 1, .bracketedName, String.ofList cs, none, true⟩ := by
  have hname : isNameStart '[' = false := by decide
  have hvalue : Text.trim (String.ofList cs) = String.ofList cs := by
    rw [Text.trim, String.toList_ofList, hcs.trimmed]
  have hfull : (String.ofList cs).isEmpty = false := by
    simpa using hcs.nonempty
  simp [lexeme, hname, bracketLexeme, bracketTail?_append hcs.closed, hvalue, hfull]

/-- A name in brackets and the part right after it. -/
theorem Reads.afterBracketed {name : String} (hname : IsBracketable name.toList) {b : List Char}
    {Q : List Token → Prop} (hb : Reads b Q) :
    Reads ('[' :: ((name.toList ++ [']']) ++ b)) fun ts =>
      ∃ span us, ts = ⟨.bracketedName, name, span⟩ :: us ∧ Q us := by
  refine hb.afterLexeme (by decide) fun next _ => ?_
  rw [List.append_assoc, List.singleton_append, lexeme_bracketed hname, String.ofList_toList,
    List.length_append, List.length_singleton]

theorem reads_bracketed {name : String} (hname : IsBracketable name.toList) :
    Reads ('[' :: (name.toList ++ [']'])) (Single .bracketedName name) := by
  have hread := reads_nil.afterBracketed hname
  rw [List.append_nil] at hread
  refine hread.imp ?_
  rintro _ ⟨span, _, rfl, rfl⟩
  exact ⟨span, rfl⟩

theorem reads_variable {name : String} (hname : ∀ c ∈ name.toList, Text.isAlphanumeric c = true) :
    Reads ('@' :: name.toList) (Single .variable name) := by
  refine reads_lexeme (by decide) fun next hnext => ?_
  have hrun := runLength_append hname (hnext.halts (by decide))
  have hstart : isNameStart '@' = false := by decide
  simp [lexeme, hstart, variableLexeme, hrun]

theorem isNameStart_of_isDigit {c : Char} (hc : isDigit c = true) :
    isNameStart c = false ∧ Text.isBlank c = false := by
  have hdigits : ∀ code ∈ List.range' '0'.toNat 10,
      isNameStart (Char.ofNat code) = false ∧ Text.isBlank (Char.ofNat code) = false := by
    decide
  simp only [isDigit, Bool.and_eq_true, decide_eq_true_eq] at hc
  have hlow : '0'.toNat ≤ c.toNat := hc.1
  have hhigh : c.toNat ≤ '9'.toNat := hc.2
  have hwidth : '9'.toNat = '0'.toNat + 9 := rfl
  have hcode := hdigits c.toNat (List.mem_range'_1.mpr (by omega))
  rwa [Char.ofNat_toNat] at hcode

theorem lexeme_of_isDigit {c : Char} (hc : isDigit c = true) (cs : List Char) :
    lexeme c cs = numberLexeme c cs := by
  have hstart := (isNameStart_of_isDigit hc).1
  have hat : c ≠ '@' := ne_of_isDigit hc (by decide)
  have hbracket : c ≠ '[' := ne_of_isDigit hc (by decide)
  simp [lexeme, hstart, hat, hbracket, hc]

theorem lexeme_unsigned {d : Char} {ds next : List Char} (hd : isDigit d = true)
    (hnext : numberTail (d :: ds ++ next) = (d :: ds).length) :
    lexeme d (ds ++ next) = ⟨ds.length, .number, .ofList (d :: ds), none, true⟩ := by
  rw [List.cons_append] at hnext
  simp [lexeme_of_isDigit hd, numberLexeme, hd, hnext]

theorem lexeme_signed {sign : Char} {cs next : List Char} (hsign : sign = '+' ∨ sign = '-')
    (hcs : IsUnsigned cs) (hnext : numberTail (cs ++ next) = cs.length) :
    lexeme sign (cs ++ next) = ⟨cs.length, .number, .ofList (sign :: cs), none, true⟩ := by
  have hdigit := hcs.startsWithDigit next
  obtain rfl | rfl := hsign
  · have hother : isNameStart '+' = false ∧ isDigit '+' = false := by decide
    simp [lexeme, hother, hdigit, numberLexeme, hnext]
  · have hother : isNameStart '-' = false ∧ isDigit '-' = false := by decide
    simp [lexeme, hother, hdigit, numberLexeme, hnext]

theorem lexeme_number {c : Char} {cs next : List Char} (hnumber : IsNumber (c :: cs))
    (hnext : Halts continuesNumber next) :
    lexeme c (cs ++ next) = ⟨cs.length, .number, String.ofList (c :: cs), none, true⟩ := by
  cases hnumber with
  | unsigned hcs => exact lexeme_unsigned (hcs.startsWithDigit next) (numberTail_append hcs hnext)
  | signed hsign hcs => exact lexeme_signed hsign hcs (numberTail_append hcs hnext)

theorem IsNumber.isBlank {c : Char} {cs : List Char} (hnumber : IsNumber (c :: cs)) :
    Text.isBlank c = false := by
  cases hnumber with
  | unsigned hcs => exact (isNameStart_of_isDigit (hcs.startsWithDigit [])).2
  | signed hsign hcs => obtain rfl | rfl := hsign <;> decide

theorem IsNumber.ne_nil {cs : List Char} (hnumber : IsNumber cs) : cs ≠ [] := by
  cases hnumber with
  | unsigned hcs =>
      obtain ⟨hwhole, hfraction, hexponent⟩ := hcs
      simp
  | signed hsign hcs => simp

theorem reads_number {value : String} (hvalue : IsNumber value.toList) :
    Reads value.toList (Single .number value) := by
  obtain ⟨c, cs, heq⟩ := List.exists_cons_of_ne_nil hvalue.ne_nil
  have htext : value = String.ofList (c :: cs) := by rw [← heq, String.ofList_toList]
  rw [heq] at hvalue ⊢
  rw [htext]
  exact reads_lexeme hvalue.isBlank fun next hnext =>
    lexeme_number hvalue (hnext.halts (by decide))

theorem reads_quoted (value : String) :
    Reads (Token.quoted value).toList (Single .string value) := by
  have hother : isNameStart '\'' = false ∧ isDigit '\'' = false := by decide
  rw [Token.quoted, String.toList_ofList]
  refine reads_lexeme (by decide) fun next hnext => ?_
  have htail := quoteTail?_doubleQuotes value.toList
    (hnext.halts (p := (· == '\'')) (by decide))
  have htake : ((Token.doubleQuotes '\'' value.toList) ++ '\'' :: next).take
      ((Token.doubleQuotes '\'' value.toList).length + 1) =
        Token.doubleQuotes '\'' value.toList ++ ['\''] := by
    rw [List.take_append, List.take_of_length_le (by omega)]
    simp
  simp [lexeme, hother, quoteLexeme, htail, htake, unquote_doubleQuotes]

/-- A symbol that is taken whole. -/
theorem reads_operation {c : Char} {cs : List Char} (hc : isSymbol c = true)
    (hcs : ∀ next, Ends next →
      operationTail c (cs ++ next) = cs.length ∧ startsWithDigit (cs ++ next) = false) :
    Reads (c :: cs) (Single .operation (String.ofList (c :: cs))) := by
  refine reads_lexeme (isBlank_of_isSymbol hc) fun next hnext => ?_
  obtain ⟨htail, hsign⟩ := hcs next hnext
  rw [lexeme_symbol hc fun _ => hsign]
  simp [operationLexeme, htail]

theorem operationTail_of_ends {c : Char} {next : List Char} (hnext : Ends next) :
    operationTail c next = 0 ∧ startsWithDigit next = false := by
  cases next with
  | nil => exact ⟨rfl, rfl⟩
  | cons d next =>
      have hdigit : isDigit d = false := hnext.halts (by decide) d rfl
      have hpaired : (pairedOperations.any fun pair => isEnd pair.2) = false := by decide
      have hpair : (c, d) ∉ pairedOperations := fun hmem =>
        List.any_eq_false.mp hpaired _ hmem (ends_cons.mp hnext)
      simp [operationTail, hpair, startsWithDigit, hdigit]

theorem reads_symbol {text : String}
    (htext : text ∈ ["=", "<>", "<", ">", "<=", ">=", "*", "+", "-"]) :
    Reads text.toList (Single .operation text) := by
  have hone {c : Char} (hc : isSymbol c = true) : Reads [c] (Single .operation (.ofList [c])) :=
    reads_operation hc fun next hnext => operationTail_of_ends hnext
  have htwo {c d : Char} (hc : isSymbol c = true) (hpaired : (c, d) ∈ pairedOperations)
      (hd : isDigit d = false) : Reads [c, d] (Single .operation (.ofList [c, d])) :=
    reads_operation hc fun next _ => by simp [operationTail, hpaired, startsWithDigit, hd]
  have hless : isSymbol '<' = true := by decide
  have hgreater : isSymbol '>' = true := by decide
  simp only [List.mem_cons, List.not_mem_nil, or_false] at htext
  rcases htext with rfl | rfl | rfl | rfl | rfl | rfl | rfl | rfl | rfl
  · exact hone (c := '=') (by decide)
  · exact htwo (d := '>') hless (by decide) (by decide)
  · exact hone hless
  · exact hone hgreater
  · exact htwo (d := '=') hless (by decide) (by decide)
  · exact htwo (d := '=') hgreater (by decide) (by decide)
  · exact hone (c := '*') (by decide)
  · exact hone (c := '+') (by decide)
  · exact hone (c := '-') (by decide)

end TrackerQuery.Scan
