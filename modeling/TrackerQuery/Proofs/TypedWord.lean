import TrackerQuery.Completion
import TrackerQuery.Proofs.DateText
import TrackerQuery.Proofs.SpacedTokens

/-!
# Completing the word that is typed

What completion replaces is the text from its start to the cursor.  That text begins a
word or the last open bracket of the line and, in any case of its letters, every candidate
starts with it.  The one exception is a word that is followed by blanks other than a
space: the start is then counted back from the cursor as if the word ended there.
-/

namespace TrackerQuery

namespace Text

/-! ## Letter case -/

/-- The text starts with `start` once both are brought to the same case. -/
def LeadsIgnoringCase (start text : String) : Prop :=
  (lowercase start).toList <+: (lowercase text).toList ∨
    (uppercase start).toList <+: (uppercase text).toList

instance decidableLeadsIgnoringCase (start text : String) :
    Decidable (LeadsIgnoringCase start text) :=
  inferInstanceAs (Decidable (_ ∨ _))

theorem startsWith_eq_true_iff {text start : String} :
    startsWith text start = true ↔ start.toList <+: text.toList := by
  rw [startsWith]
  generalize start.toList = ps
  generalize text.toList = cs
  induction ps generalizing cs with
  | nil => simp [dropStart?]
  | cons p ps ih =>
      cases cs with
      | nil => simp [dropStart?]
      | cons c cs =>
          rw [dropStart?, List.cons_prefix_cons, ← ih]
          split <;> simp_all

theorem leadsIgnoringCase_of_prefix {start text : String} (hstart : start.toList <+: text.toList) :
    LeadsIgnoringCase start text := by
  obtain ⟨rest, hrest⟩ := hstart
  refine .inr ⟨rest.flatMap upperChar, ?_⟩
  simp [uppercase, ← hrest]

/-- A character that has no case and is not passed over ends the search for one that has. -/
theorem meetsCased_append {c : Char} (hcased : casedRanges.covers c = false)
    (hpassed : isCaseIgnorable c = false) (cs : List Char) :
    meetsCased (cs ++ [c]) = meetsCased cs := by
  unfold meetsCased
  rw [List.find?_append]
  cases cs.find? fun c => !isCaseIgnorable c with
  | some d => rfl
  | none => simp [hpassed, hcased]

section Bracket

variable {c : Char} (hcased : casedRanges.covers c = false)
  (hpassed : isCaseIgnorable c = false)

include hcased hpassed

theorem lowerAfter_context (before cs : List Char) :
    lowerAfter (before ++ [c]) cs = lowerAfter before cs := by
  induction cs generalizing before with
  | nil => rfl
  | cons d cs ih =>
      have hrest := ih (d :: before)
      rw [List.cons_append] at hrest
      simp only [lowerAfter, meetsCased_append hcased hpassed, hrest]

theorem lowerAfter_append (hlower : lowerAfter [] [c] = [c]) (before cs : List Char) :
    lowerAfter before (cs ++ [c]) = lowerAfter before cs ++ [c] := by
  induction cs generalizing before with
  | nil =>
      have hcontext : ∀ ds, lowerAfter ds [c] = [c] := by
        intro ds
        by_cases hsigma : c = 'Σ'
        · subst hsigma
          cases hlower
        · simpa only [lowerAfter, hsigma, if_false] using hlower
      exact hcontext before
  | cons d cs ih =>
      simp only [List.cons_append, lowerAfter, meetsCased_append hcased hpassed, ih]
      split <;> simp

end Bracket

/-- Brackets around a name do not change how its letters are mapped. -/
theorem toList_lowercase_open (name : List Char) :
    (lowercase (.ofList ('[' :: name))).toList = '[' :: (lowercase (.ofList name)).toList := by
  have hcontext : lowerAfter ['['] name = lowerAfter [] name :=
    lowerAfter_context (c := '[') (by decide) (by decide) [] name
  have hchar : lowerChar '[' = ['['] := by decide
  simp only [lowercase, String.toList_ofList, lowerAfter, hcontext, hchar]
  rfl

theorem toList_lowercase_close (name : List Char) :
    (lowercase (.ofList (name ++ [']']))).toList = (lowercase (.ofList name)).toList ++ [']'] := by
  simp only [lowercase, String.toList_ofList]
  exact lowerAfter_append (by decide) (by decide) (by decide) [] name

/-- No blank has case. -/
theorem lowerChar_and_upperChar_of_isBlank {c : Char} (hc : isBlank c = true) :
    lowerChar c = [c] ∧ upperChar c = [c] ∧ c ≠ 'Σ' := by
  have hall : ∀ range ∈ blankRanges, ∀ code ∈ List.range' range.1 (range.2 + 1 - range.1),
      lowerChar (Char.ofNat code) = [Char.ofNat code] ∧
        upperChar (Char.ofNat code) = [Char.ofNat code] ∧ Char.ofNat code ≠ 'Σ' := by
    decide +kernel
  obtain ⟨range, hrange, hlow, hhigh⟩ := Scan.exists_range_of_coversCode hc
  have hcode := hall range hrange c.toNat (List.mem_range'_1.mpr (by omega))
  rwa [Char.ofNat_toNat] at hcode

theorem mem_lowerAfter_of_isBlank {c : Char} (hc : isBlank c = true) {cs : List Char}
    (hmem : c ∈ cs) (before : List Char) : c ∈ lowerAfter before cs := by
  obtain ⟨hlower, -, hsigma⟩ := lowerChar_and_upperChar_of_isBlank hc
  induction cs generalizing before with
  | nil => cases hmem
  | cons d cs ih =>
      rw [lowerAfter]
      obtain rfl | hmem := List.mem_cons.mp hmem
      · simp [hsigma, hlower]
      · split <;> simp [ih hmem]

/-- A blank of the start is a blank of every text that it leads. -/
theorem LeadsIgnoringCase.mem_of_isBlank {start text : String}
    (hleads : LeadsIgnoringCase start text) {c : Char} (hc : isBlank c = true) (hmem : c ∈ start.toList) :
    c ∈ (lowercase text).toList ∨ c ∈ (uppercase text).toList := by
  refine hleads.imp (fun hlower => hlower.subset ?_) fun hupper => hupper.subset ?_
  · rw [lowercase, String.toList_ofList]
    exact mem_lowerAfter_of_isBlank hc hmem []
  · rw [uppercase, String.toList_ofList]
    exact List.mem_flatMap.mpr
      ⟨c, hmem, by simp [(lowerChar_and_upperChar_of_isBlank hc).2.1]⟩

/-! ## Words -/

/-- The word is the last one of the characters: it starts behind a blank or at their start,
and there are only blanks behind it. -/
structure IsLastWord (cs before word blanks : List Char) : Prop where
  split : cs = before ++ (word ++ blanks)
  nonempty : word ≠ []
  solid : ∀ c ∈ word, isBlank c = false
  blank : ∀ c ∈ blanks, isBlank c = true
  starts : ∀ c ∈ before.getLast?, isBlank c = true

theorem IsLastWord.after_blank {cs before word blanks : List Char} {c : Char}
    (hword : IsLastWord cs before word blanks) (hc : isBlank c = true) (earlier : List Char) :
    IsLastWord (earlier ++ c :: cs) (earlier ++ c :: before) word blanks := by
  refine ⟨by rw [hword.split]; simp, hword.nonempty, hword.solid, hword.blank, ?_⟩
  cases before with
  | nil => simpa using hc
  | cons d ds => simpa using hword.starts

theorem IsLastWord.exists_getLast? {cs before word blanks : List Char}
    (hword : IsLastWord cs before word blanks) :
    ∃ c, cs.getLast? = some c ∧ (isBlank c = true ↔ blanks ≠ []) := by
  obtain rfl | ⟨others, c, rfl⟩ := List.eq_nil_or_concat blanks
  · obtain ⟨others, c, rfl⟩ := (List.eq_nil_or_concat word).resolve_left hword.nonempty
    have hsolid := hword.solid c (by simp)
    exact ⟨c, by rw [hword.split]; simp, by simp [hsolid]⟩
  · have hblank := hword.blank c (by simp)
    exact ⟨c, by rw [hword.split]; simp, by simp [hblank]⟩

theorem isBlank_of_wordsFrom_eq_nil {word cs : List Char} (hnil : wordsFrom word cs = []) :
    word = [] ∧ ∀ c ∈ cs, isBlank c = true := by
  fun_induction wordsFrom word cs with
  | case1 word hword => simpa using hword
  | case2 word hword => cases hnil
  | case3 word c cs hc hword ih =>
      exact ⟨by simpa using hword, List.forall_mem_cons.mpr ⟨hc, (ih hnil).2⟩⟩
  | case4 word c cs hc hword ih => cases hnil
  | case5 word c cs hc ih => cases (ih hnil).1

/-- The last of the words of a text is its last word. -/
theorem isLastWord_of_wordsFrom {taken cs word : List Char}
    (htaken : ∀ c ∈ taken, isBlank c = false) (hlast : (wordsFrom taken cs).getLast? = some word) :
    ∃ before blanks, IsLastWord (taken.reverse ++ cs) before word blanks := by
  fun_induction wordsFrom taken cs with
  | case1 taken hempty => cases hlast
  | case2 taken hempty =>
      obtain rfl : taken.reverse = word := by simpa using hlast
      exact ⟨[], [], by simp, by simpa using hempty, by simpa using htaken, by simp, by simp⟩
  | case3 taken c cs hc hempty ih =>
      obtain rfl : taken = [] := by simpa using hempty
      obtain ⟨before, blanks, hword⟩ := ih htaken hlast
      exact ⟨c :: before, blanks, hword.after_blank hc []⟩
  | case4 taken c cs hc hempty ih =>
      cases hwords : wordsFrom [] cs with
      | nil =>
          obtain rfl : taken.reverse = word := by simpa [hwords] using hlast
          have hblank := (isBlank_of_wordsFrom_eq_nil hwords).2
          exact ⟨[], c :: cs, by simp, by simpa using hempty, by simpa using htaken,
            List.forall_mem_cons.mpr ⟨hc, hblank⟩, by simp⟩
      | cons next more =>
          rw [hwords, List.getLast?_cons_cons, ← hwords] at hlast
          obtain ⟨before, blanks, hword⟩ := ih (by simp) hlast
          exact ⟨taken.reverse ++ c :: before, blanks, hword.after_blank hc taken.reverse⟩
  | case5 taken c cs hc ih =>
      have hsolid : ∀ d ∈ c :: taken, isBlank d = false :=
        List.forall_mem_cons.mpr ⟨by simpa using hc, htaken⟩
      simpa using ih hsolid hlast

theorem isLastWord_of_words {cs : List Char} {word : String} {earlier : List String}
    (hwords : (words (.ofList cs)).reverse = word :: earlier) :
    ∃ before blanks, IsLastWord cs before word.toList blanks := by
  have hlast : (words (.ofList cs)).getLast? = some word := by
    rw [← List.head?_reverse, hwords, List.head?_cons]
  rw [words, String.toList_ofList, List.getLast?_map, Option.map_eq_some_iff] at hlast
  obtain ⟨chars, hchars, rfl⟩ := hlast
  rw [String.toList_ofList]
  exact isLastWord_of_wordsFrom (by simp) hchars

/-! ## Ends of characters -/

/-- Beginnings of one text that have as many bytes are equal. -/
theorem eq_of_byteLength_eq {cs ds text : List Char} (hcs : cs <+: text) (hds : ds <+: text)
    (heq : byteLength cs = byteLength ds) : cs = ds :=
  (isPrefix_of_byteLength_le hcs hds (Nat.le_of_eq heq)).eq_of_length_le
    (isPrefix_of_byteLength_le hds hcs (Nat.le_of_eq heq.symm)).length_le

/-- The character `c` of the text ends at the byte `offset`. -/
def EndsAt (text : String) (offset : Nat) (c : Char) : Prop :=
  ∃ start, StandsAt text start c ∧ start + c.utf8Size = offset

theorem endsAt_iff {text : String} {typed after : List Char} (htext : text.toList = typed ++ after)
    {c : Char} : EndsAt text (byteLength typed) c ↔ typed.getLast? = some c := by
  constructor
  · rintro ⟨start, ⟨before, rest, hsplit, rfl⟩, hends⟩
    have hupto : before ++ [c] <+: text.toList := ⟨rest, by rw [hsplit]; simp⟩
    have hlength : byteLength (before ++ [c]) = byteLength typed := by
      rw [Scan.byteLength_append, ← hends]
      rfl
    rw [← eq_of_byteLength_eq hupto ⟨after, htext.symm⟩ hlength, List.getLast?_concat]
  · intro hlast
    obtain ⟨before, rfl⟩ := List.getLast?_eq_some_iff.mp hlast
    refine ⟨byteLength before, ⟨before, after, by rw [htext]; simp, rfl⟩, ?_⟩
    rw [Scan.byteLength_append]
    rfl

end Text

namespace Completion

/-! ## The text that is replaced -/

/-- A `[` stands at the byte `start`, and between it and the cursor there is neither another
one nor a `]`. -/
def OpensAt (line : String) (start cursor : Nat) : Prop :=
  ∃ before name after, line.toList = before ++ ('[' :: name ++ after) ∧
    Text.byteLength before = start ∧ start + Text.byteLength ('[' :: name) = cursor ∧
    '[' ∉ name ∧ ']' ∉ name

/-- The suggestion is for the text between its start and the cursor: whole characters from
the start of the line, of a word or of an open bracket, and every candidate begins so. -/
structure Suggestion.Replaces (line : String) (cursor : Nat) (s : Suggestion) : Prop where
  start_le : s.start ≤ cursor
  boundary : String.Pos.Raw.IsValid line ⟨s.start⟩
  begins : s.start = 0 ∨ (∃ c, Text.EndsAt line s.start c ∧ Text.isBlank c = true) ∨
    OpensAt line s.start cursor
  leads : ∀ candidate ∈ s.candidates,
    Text.LeadsIgnoringCase (Span.textIn line ⟨s.start, cursor⟩) candidate.replacement

/-- The open bracket is the last one that nothing closes. -/
theorem openBracket?_eq_some_iff {typed text name : List Char} :
    openBracket? typed = some (text, name) ↔
      typed = text ++ '[' :: name ∧ '[' ∉ name ∧ ']' ∉ name := by
  rw [openBracket?, Option.filter_eq_some_iff]
  constructor
  · rintro ⟨hcut, hclosed⟩
    have hmem : '[' ∈ typed := by
      by_contra hnone
      rw [Calendar.cutLast?_eq_none [] hnone] at hcut
      cases hcut
    obtain ⟨after, before, hsplit, hafter⟩ :=
      List.eq_append_cons_of_mem (List.mem_reverse.mpr hmem)
    have htyped : typed = before.reverse ++ '[' :: after.reverse := by
      rw [← List.reverse_reverse typed, hsplit]
      simp
    have hlast : Text.cutLast? ['['] (before.reverse ++ ['['] ++ after.reverse) =
        some (before.reverse, after.reverse) :=
      Calendar.cutLast?_append before.reverse (by simp) (mt List.mem_reverse.mp hafter)
    rw [List.append_assoc, List.singleton_append, ← htyped, hcut] at hlast
    obtain ⟨rfl, rfl⟩ : text = before.reverse ∧ name = after.reverse := by simpa using hlast
    exact ⟨htyped, mt List.mem_reverse.mp hafter, by simpa using hclosed⟩
  · rintro ⟨rfl, hopen, hclose⟩
    have hcut : Text.cutLast? ['['] (text ++ ['['] ++ name) = some (text, name) :=
      Calendar.cutLast?_append text (by simp) hopen
    rw [List.append_assoc, List.singleton_append] at hcut
    exact ⟨hcut, by simpa using hclose⟩

theorem exists_opensAt_iff {line : String} {typed after : List Char}
    (hline : line.toList = typed ++ after) :
    (∃ start, OpensAt line start (Text.byteLength typed)) ↔ (openBracket? typed).isSome := by
  rw [Option.isSome_iff_exists]
  constructor
  · rintro ⟨start, before, name, rest, hsplit, rfl, hcursor, hopen, hclose⟩
    have hupto : before ++ '[' :: name <+: line.toList := ⟨rest, by rw [hsplit]; simp⟩
    have heq := Text.eq_of_byteLength_eq hupto ⟨after, hline.symm⟩
      (by rw [Scan.byteLength_append, hcursor])
    exact ⟨(before, name), openBracket?_eq_some_iff.mpr ⟨heq.symm, hopen, hclose⟩⟩
  · rintro ⟨⟨text, name⟩, hopen⟩
    obtain ⟨rfl, hopen, hclose⟩ := openBracket?_eq_some_iff.mp hopen
    exact ⟨_, text, name, after, by rw [hline, List.append_assoc], rfl,
      (Scan.byteLength_append ..).symm, hopen, hclose⟩

/-- A suggestion whose start is given by the text before it. -/
theorem replaces_of_append {line : String} (before word : List Char) {after : List Char}
    {candidates : List Candidate} (hline : line.toList = before ++ (word ++ after))
    (hbegins : before = [] ∨ (∃ c ∈ before.getLast?, Text.isBlank c = true) ∨
      ∃ name, word = '[' :: name ∧ '[' ∉ name ∧ ']' ∉ name)
    (hleads : ∀ candidate ∈ candidates,
      Text.LeadsIgnoringCase (.ofList word) candidate.replacement) :
    Suggestion.Replaces line (Text.byteLength (before ++ word))
      ⟨Text.byteLength before, candidates⟩ := by
  rw [Scan.byteLength_append]
  refine ⟨Nat.le_add_right .., Text.isValid_of_append hline, ?_, ?_⟩
  · obtain rfl | ⟨c, hc, hblank⟩ | ⟨name, rfl, hopen, hclose⟩ := hbegins
    · exact .inl rfl
    · exact .inr (.inl ⟨c, (Text.endsAt_iff hline).mpr hc, hblank⟩)
    · exact .inr (.inr ⟨before, name, after, hline, rfl, rfl, hopen, hclose⟩)
  · intro candidate hcandidate
    rw [Span.textIn_of_append hline]
    exact hleads candidate hcandidate

/-! ## Candidates -/

theorem isBlank_of_mem_typed_command {typed : List Char}
    (hcandidates : verbatim (commands.filter fun command =>
      Text.startsWith command (.ofList typed)) ≠ []) :
    ∀ c ∈ typed, Text.isBlank c = false := by
  have hall : (commands.all fun command => command.toList.all fun c => !Text.isBlank c) = true := by
    decide +kernel
  obtain ⟨candidate, others, hcons⟩ := List.exists_cons_of_ne_nil hcandidates
  obtain ⟨command, hcommand, -⟩ := List.mem_map.mp (hcons ▸ List.mem_cons_self)
  obtain ⟨hmem, hstarts⟩ := List.mem_filter.mp hcommand
  have hleads := Text.startsWith_eq_true_iff.mp hstarts
  rw [String.toList_ofList] at hleads
  have hchars := List.all_eq_true.mp (List.all_eq_true.mp hall command hmem)
  exact fun c hc => by simpa using hchars c (hleads.subset hc)

theorem leads_of_mem_fieldCandidates {fields : List String} {name : List Char}
    {candidate : Candidate} (hcandidate : candidate ∈ fieldCandidates fields (.ofList name)) :
    Text.LeadsIgnoringCase (.ofList ('[' :: name)) candidate.replacement := by
  obtain ⟨field, hfield, rfl⟩ := List.mem_map.mp hcandidate
  obtain ⟨rest, hrest⟩ := Text.startsWith_eq_true_iff.mp (List.mem_filter.mp hfield).2
  have hreplacement : s!"[{field}]" = String.ofList ('[' :: (field.toList ++ [']'])) := by
    apply String.toList_injective
    simp [toString]
  refine .inl ⟨rest ++ [']'], ?_⟩
  rw [hreplacement, Text.toList_lowercase_open, Text.toList_lowercase_open,
    Text.toList_lowercase_close, String.ofList_toList, ← hrest]
  simp

def vocabulary : List String :=
  keywords ++ ["FROM", "ORDER", "GROUP", "CONTAINS", "IN", "MODE"].flatMap followers

theorem mem_vocabulary_of_mem_followers {word follower : String}
    (hfollower : follower ∈ followers word) : follower ∈ vocabulary := by
  refine List.mem_append_right keywords (List.mem_flatMap.mpr ⟨word, ?_, hfollower⟩)
  unfold followers at hfollower
  split at hfollower
  case h_7 => cases hfollower
  all_goals decide

/-- Candidates are words of the vocabulary that begin like the word. -/
theorem mem_wordCandidates {previous : Option String} {word : String} {candidate : Candidate}
    (hcandidate : candidate ∈ wordCandidates previous word) :
    candidate.replacement ∈ vocabulary ∧ Text.LeadsIgnoringCase word candidate.replacement := by
  have hupper : ∀ keyword ∈ keywords, Text.uppercase keyword = keyword := by decide +kernel
  unfold wordCandidates at hcandidate
  dsimp only at hcandidate
  split at hcandidate
  · obtain ⟨keyword, hkeyword, rfl⟩ := List.mem_map.mp hcandidate
    obtain ⟨hmem, hstarts⟩ := List.mem_filter.mp hkeyword
    refine ⟨List.mem_append_left _ hmem, .inr ?_⟩
    rw [hupper keyword hmem]
    exact Text.startsWith_eq_true_iff.mp hstarts
  · obtain ⟨follower, hfollower, rfl⟩ := List.mem_map.mp hcandidate
    obtain ⟨hmem, hstarts⟩ := List.mem_filter.mp hfollower
    refine ⟨?_, .inr (Text.startsWith_eq_true_iff.mp hstarts)⟩
    cases previous with
    | none => cases hmem
    | some word => exact mem_vocabulary_of_mem_followers hmem

theorem isBlank_of_mem_vocabulary {word : String} (hword : word ∈ vocabulary) {c : Char}
    (hc : c ∈ (Text.lowercase word).toList ∨ c ∈ (Text.uppercase word).toList) :
    Text.isBlank c = false := by
  have hall : (vocabulary.all fun word =>
      ((Text.lowercase word).toList ++ (Text.uppercase word).toList).all
        fun c => !Text.isBlank c) = true := by
    decide +kernel
  have hchars := List.all_eq_true.mp (List.all_eq_true.mp hall word hword)
  simpa using hchars c (List.mem_append.mpr hc)

/-! ## Suggestions -/

section Suggestions

variable {line : String} {typed after : List Char} (hline : line.toList = typed ++ after)

include hline

theorem replaces_commands :
    Suggestion.Replaces line (Text.byteLength typed)
      ⟨0, verbatim (commands.filter fun command => Text.startsWith command (.ofList typed))⟩ := by
  refine replaces_of_append [] typed hline (.inl rfl) ?_
  intro candidate hcandidate
  obtain ⟨command, hcommand, rfl⟩ := List.mem_map.mp hcandidate
  exact Text.leadsIgnoringCase_of_prefix
    (Text.startsWith_eq_true_iff.mp (List.mem_filter.mp hcommand).2)

theorem replaces_fields {fields : List String} {text name : List Char}
    (hopen : openBracket? typed = some (text, name)) :
    Suggestion.Replaces line (Text.byteLength typed)
      ⟨Text.byteLength text, fieldCandidates fields (.ofList name)⟩ := by
  obtain ⟨rfl, hother, hclose⟩ := openBracket?_eq_some_iff.mp hopen
  rw [List.append_assoc] at hline
  exact replaces_of_append text ('[' :: name) hline (.inr (.inr ⟨name, rfl, hother, hclose⟩))
    fun candidate hcandidate => leads_of_mem_fieldCandidates hcandidate

theorem replaces_nothing {c : Char} (hlast : typed.getLast? = some c)
    (hblank : Text.isBlank c = true) (candidates : List Candidate) :
    Suggestion.Replaces line (Text.byteLength typed) ⟨Text.byteLength typed, candidates⟩ := by
  have hreplaces : Suggestion.Replaces line (Text.byteLength (typed ++ []))
      ⟨Text.byteLength typed, candidates⟩ :=
    replaces_of_append typed [] hline (.inr (.inl ⟨c, hlast, hblank⟩))
      fun candidate _ => Text.leadsIgnoringCase_of_prefix List.nil_prefix
  rwa [List.append_nil] at hreplaces

theorem replaces_word {before : List Char} {word : String} {previous : Option String}
    (hword : Text.IsLastWord typed before word.toList []) :
    Suggestion.Replaces line (Text.byteLength typed)
      ⟨Text.byteLength typed - word.utf8ByteSize, wordCandidates previous word⟩ := by
  have htyped := hword.split
  rw [List.append_nil] at htyped
  have hstart : Text.byteLength typed - word.utf8ByteSize = Text.byteLength before := by
    rw [htyped, Scan.byteLength_append, Text.byteLength_toList, Nat.add_sub_cancel]
  rw [hstart, htyped]
  rw [htyped, List.append_assoc] at hline
  refine replaces_of_append before word.toList hline ?_ fun candidate hcandidate => ?_
  · obtain rfl | ⟨earlier, c, rfl⟩ := List.eq_nil_or_concat before
    · exact .inl rfl
    · exact .inr (.inl ⟨c, by simp, hword.starts c (by simp)⟩)
  · rw [String.ofList_toList]
    exact (mem_wordCandidates hcandidate).2

/-- Behind a word and blanks, as many bytes as the word has end in a blank, and no candidate
has one. -/
theorem not_replaces_past_blanks {before blanks : List Char} {word : String}
    {previous : Option String} (hword : Text.IsLastWord typed before word.toList blanks)
    (hblanks : blanks ≠ []) (hcandidates : wordCandidates previous word ≠ []) :
    ¬ Suggestion.Replaces line (Text.byteLength typed)
      ⟨Text.byteLength typed - word.utf8ByteSize, wordCandidates previous word⟩ := by
  rintro ⟨-, hboundary, -, hleads⟩
  dsimp only at hboundary hleads
  have hpos : 0 < word.utf8ByteSize := by
    rw [← Text.byteLength_toList]
    exact Text.byteLength_pos hword.nonempty
  have hfits : word.utf8ByteSize ≤ Text.byteLength typed := by
    rw [hword.split, Scan.byteLength_append, Scan.byteLength_append, Text.byteLength_toList]
    omega
  obtain ⟨kept, rest, hkept, hlength⟩ := Text.exists_append_of_isValid hboundary
  obtain ⟨replaced, rfl⟩ : kept <+: typed :=
    Text.isPrefix_of_byteLength_le ⟨rest, hkept.symm⟩ ⟨after, hline.symm⟩ (by omega)
  obtain ⟨earlier, c, rfl⟩ : ∃ earlier c, replaced = earlier ++ [c] := by
    obtain rfl | hconcat := List.eq_nil_or_concat replaced
    · rw [List.append_nil] at hlength hfits
      omega
    · simpa using hconcat
  have hblank : Text.isBlank c = true := by
    obtain ⟨last, hlast, hiff⟩ := hword.exists_getLast?
    obtain rfl : c = last := by simpa using hlast
    exact hiff.mpr hblanks
  obtain ⟨candidate, others, hcons⟩ := List.exists_cons_of_ne_nil hcandidates
  have hcandidate : candidate ∈ wordCandidates previous word := by simp [hcons]
  have hlead := hleads candidate hcandidate
  rw [List.append_assoc] at hline
  rw [← hlength, Scan.byteLength_append, Span.textIn_of_append hline] at hlead
  have hmem := hlead.mem_of_isBlank hblank (by simp)
  have hsolid := isBlank_of_mem_vocabulary (mem_wordCandidates hcandidate).1 hmem
  rw [hblank] at hsolid
  cases hsolid

end Suggestions

/-- A suggestion with candidates is for the text between its start and the cursor if and
only if no blank but a space stands before the cursor, unless a bracket is open there. -/
theorem complete_replaces_iff {fields : List String} {line : String} {cursor : Nat}
    (hcursor : String.Pos.Raw.IsValid line ⟨cursor⟩)
    (hcandidates : (complete fields line cursor).candidates ≠ []) :
    (complete fields line cursor).Replaces line cursor ↔
      ∀ c, Text.EndsAt line cursor c → Text.isBlank c = true →
        c = ' ' ∨ ∃ start, OpensAt line start cursor := by
  obtain ⟨typed, after, hline, rfl⟩ := Text.exists_append_of_isValid hcursor
  have htyped : Text.before (Text.byteLength typed) line.toList = typed := by
    rw [hline, Text.before_byteLength]
  simp only [Text.endsAt_iff hline, exists_opensAt_iff hline]
  unfold complete at hcandidates ⊢
  rw [htyped] at hcandidates ⊢
  dsimp only at hcandidates ⊢
  split
  next hcolon =>
    rw [if_pos hcolon] at hcandidates
    refine iff_of_true (replaces_commands hline) fun c hlast hblank => ?_
    have hsolid := isBlank_of_mem_typed_command hcandidates c (List.mem_of_getLast? hlast)
    rw [hblank] at hsolid
    cases hsolid
  next hcolon =>
    rw [if_neg hcolon] at hcandidates
    cases hopen : openBracket? typed with
    | some cut => exact iff_of_true (replaces_fields hline hopen) fun _ _ _ => .inr rfl
    | none =>
        cases hwords : (Text.words (.ofList typed)).reverse with
        | nil => simp [hopen, hwords] at hcandidates
        | cons word earlier =>
            simp only [hopen, hwords] at hcandidates ⊢
            obtain ⟨before, blanks, hword⟩ := Text.isLastWord_of_words hwords
            split
            next hspace =>
              have hlast : typed.getLast? = some ' ' := by simpa using hspace
              refine iff_of_true (replaces_nothing hline hlast (by decide) _) ?_
              intro c hc _
              exact .inl (Option.some.inj (hc.symm.trans hlast))
            next hspace =>
              rw [if_neg hspace] at hcandidates
              obtain ⟨c, hlast, hiff⟩ := hword.exists_getLast?
              by_cases hblanks : blanks = []
              · subst hblanks
                refine iff_of_true (replaces_word hline hword) fun d hd hblank => ?_
                obtain rfl : c = d := Option.some.inj (hlast.symm.trans hd)
                exact absurd rfl (hiff.mp hblank)
              · refine iff_of_false
                  (not_replaces_past_blanks hline hword hblanks hcandidates) fun hall => ?_
                obtain rfl | hsome := hall c hlast (hiff.mpr hblanks)
                · simp [hlast] at hspace
                · cases hsome

/-- A word behind a wide blank, with the cursor inside the line: it follows `mode`, and
letters of either case are offered the same completion. -/
theorem complete_replaces_of_wide_blank :
    let line := "mode\u3000(mAY x"
    String.Pos.Raw.IsValid line ⟨11⟩ ∧
      complete [] line 11 = ⟨7, [⟨"(MayContain)", "(MayContain)"⟩]⟩ ∧
      (complete [] line 11).Replaces line 11 := by
  intro line
  have hcursor : String.Pos.Raw.IsValid line ⟨11⟩ := by decide
  have hcomplete : complete [] line 11 = ⟨7, [⟨"(MayContain)", "(MayContain)"⟩]⟩ := by
    decide +kernel
  refine ⟨hcursor, hcomplete, (complete_replaces_iff hcursor (by simp [hcomplete])).mpr ?_⟩
  have hline : line.toList = "mode\u3000(mAY".toList ++ " x".toList := by decide +kernel
  have hlength : Text.byteLength "mode\u3000(mAY".toList = 11 := by decide +kernel
  intro c hc hblank
  rw [← hlength, Text.endsAt_iff hline] at hc
  obtain rfl : 'Y' = c := Option.some.inj hc
  cases hblank

/-- Behind a tab the start is one byte too far to the right: `r` and the tab would be
replaced by `FROM`. -/
theorem complete_behind_tab :
    let line := "select * fr\t"
    complete [] line 12 = ⟨10, [⟨"FROM", "FROM"⟩]⟩ ∧
      Span.textIn line ⟨10, 12⟩ = "r\t" ∧ ¬ (complete [] line 12).Replaces line 12 := by
  intro line
  have hcomplete : complete [] line 12 = ⟨10, [⟨"FROM", "FROM"⟩]⟩ := by decide +kernel
  have htext : Span.textIn line ⟨10, 12⟩ = "r\t" := by decide +kernel
  refine ⟨hcomplete, htext, fun hreplaces => ?_⟩
  rw [hcomplete] at hreplaces
  have hleads := hreplaces.leads ⟨"FROM", "FROM"⟩ List.mem_cons_self
  rw [htext] at hleads
  exact absurd hleads (by decide +kernel)

end Completion

end TrackerQuery
