import TrackerQuery.Proofs.Lockstep
import TrackerQuery.Proofs.SpacedTokens

/-!
# Cutting a text between tokens

A text can be cut where no lexeme goes on over the cut.  What stands before the cut is then
scanned by itself, and what stands behind it as if the text began there, up to places.
Another text may follow the cut if no lexeme before the cut goes on over that one either.
-/

namespace TrackerQuery.Scan

/-- In front of `next`, the lexemes of the characters that start at the byte `pos` end with
these characters, and `ts` are their tokens. -/
inductive Cuts (next : List Char) : (pos : Nat) → List Char → List Token → Prop
  | nil {pos} : Cuts next pos [] []
  | blank {pos c cs ts} (hblank : Text.isBlank c = true) (h : Cuts next (pos + c.utf8Size) cs ts) :
      Cuts next pos (c :: cs) ts
  | lexeme {pos c tail cs ts} {found : Lexeme} (hblank : Text.isBlank c = false)
      (hfound : lexeme c (tail ++ (cs ++ next)) = found) (hfault : found.fault = none)
      (htail : found.tail = tail.length)
      (h : Cuts next (pos + Text.byteLength (c :: tail)) cs ts) :
      Cuts next pos (c :: (tail ++ cs))
        (⟨found.kind, found.value, ⟨pos, pos + Text.byteLength (c :: tail)⟩⟩ :: ts)

section Cuts

variable {next : List Char} {pos : Nat} {cs : List Char} {ts : List Token}

/-- A single lexeme. -/
theorem cuts_lexeme {c : Char} {tail : List Char} {kind : TokenKind} {value : String}
    (hblank : Text.isBlank c = false)
    (hlexeme : lexeme c (tail ++ next) = ⟨tail.length, kind, value, none, true⟩) :
    Cuts next pos (c :: tail) [⟨kind, value, ⟨pos, pos + Text.byteLength (c :: tail)⟩⟩] := by
  have hcuts : Cuts next pos (c :: (tail ++ [])) _ := .lexeme hblank hlexeme rfl rfl .nil
  rwa [List.append_nil] at hcuts

theorem cuts_blanks {gap : List Char} (hgap : ∀ c ∈ gap, Text.isBlank c = true) :
    Cuts next pos gap [] := by
  induction gap generalizing pos with
  | nil => exact .nil
  | cons c gap ih =>
      obtain ⟨hc, hgap⟩ := List.forall_mem_cons.mp hgap
      exact .blank hc (ih hgap)

theorem Cuts.append {ds : List Char} {us : List Token} (h : Cuts (ds ++ next) pos cs ts)
    (h' : Cuts next (pos + Text.byteLength cs) ds us) : Cuts next pos (cs ++ ds) (ts ++ us) := by
  induction h with
  | nil => exact h'
  | blank hblank h ih =>
      refine .blank hblank (ih ?_)
      rwa [byteLength_cons, ← Nat.add_assoc] at h'
  | @lexeme pos c tail cs ts found hblank hfound hfault htail h ih =>
      rw [List.cons_append, List.append_assoc]
      refine .lexeme hblank ?_ hfault htail (ih ?_)
      · rwa [List.append_assoc]
      · rwa [← List.cons_append, byteLength_append, ← Nat.add_assoc] at h'

theorem Cuts.ofChars_eq (h : Cuts next pos cs ts) :
    ofChars pos (cs ++ next) = (ofChars (pos + Text.byteLength cs) next).after ts := by
  induction h with
  | nil => rfl
  | blank hblank h ih =>
      rw [List.cons_append, ofChars, if_pos hblank, ih, byteLength_cons, Nat.add_assoc]
  | @lexeme pos c tail cs ts found hblank hfound hfault htail h ih =>
      rw [byteLength_cons, ← Nat.add_assoc] at ih
      rw [List.cons_append, List.append_assoc, ofChars, if_neg (by simp [hblank])]
      simp only [hfound, hfault, htail, List.take_left, List.drop_left, ih]
      rw [← List.cons_append, byteLength_append, byteLength_cons, ← Nat.add_assoc pos c.utf8Size,
        ← Nat.add_assoc pos, ← Nat.add_assoc pos c.utf8Size]
      rfl

/-- The tokens lie within the characters. -/
theorem Cuts.bounds (h : Cuts next pos cs ts) :
    ∀ t ∈ ts, pos ≤ t.span.start ∧ t.span.stop ≤ pos + Text.byteLength cs := by
  induction h with
  | nil => simp
  | blank hblank h ih =>
      intro t ht
      have hbounds := ih t ht
      rw [byteLength_cons]
      omega
  | @lexeme pos c tail cs ts found hblank hfound hfault htail h ih =>
      rw [← List.cons_append, byteLength_append]
      refine List.forall_mem_cons.mpr ⟨⟨Nat.le_refl pos, by simp only; omega⟩, fun t ht => ?_⟩
      have hbounds := ih t ht
      omega

theorem le_start_of_mem_ofChars {t : Token} (ht : t ∈ (ofChars pos cs).tokens) :
    pos ≤ t.span.start := by
  obtain ⟨_, _, -, htiles, -⟩ := (outcome_ofChars pos cs).exists_tiles
  exact htiles.le_start t ht

/-- Characters that take no more bytes than `cs`, with more of the text left behind them, are no
more than those. -/
theorem le_length_of_byteLength_take {n : Nat}
    (hbytes : Text.byteLength ((cs ++ next).take n) ≤ Text.byteLength cs)
    (hdrop : (cs ++ next).drop n ≠ []) : n ≤ cs.length := by
  have hleads := Text.isPrefix_of_byteLength_le (List.take_prefix n (cs ++ next))
    (List.prefix_append cs next) hbytes
  have hle := hleads.length_le
  have hlonger := mt List.drop_eq_nil_of_le hdrop
  rw [List.length_take] at hle
  omega

/-- A first lexeme that ends before the cut, and what follows it up to there. -/
theorem cuts_cons {c : Char} (hblank : Text.isBlank c = false)
    (hfault : (lexeme c (cs ++ next)).fault = none)
    (hfits : (lexeme c (cs ++ next)).tail ≤ cs.length)
    (h : Cuts next (pos + Text.byteLength (c :: cs.take (lexeme c (cs ++ next)).tail))
      (cs.drop (lexeme c (cs ++ next)).tail) ts) : ∃ t, Cuts next pos (c :: cs) (t :: ts) := by
  generalize hfound : lexeme c (cs ++ next) = found at hfault hfits h
  have hsplit : lexeme c (cs.take found.tail ++ (cs.drop found.tail ++ next)) = found := by
    rw [← List.append_assoc, List.take_append_drop, hfound]
  have hwhole : Cuts next pos (c :: (cs.take found.tail ++ cs.drop found.tail)) _ :=
    .lexeme hblank hsplit hfault (List.length_take_of_le hfits).symm h
  rw [List.take_append_drop] at hwhole
  exact ⟨_, hwhole⟩

/-- A text can be cut where a token starts. -/
theorem exists_cuts {before : List Char} {t : Token}
    (ht : t ∈ (ofChars pos (before ++ next)).tokens)
    (hstart : t.span.start = pos + Text.byteLength before) : ∃ ts, Cuts next pos before ts := by
  generalize htext : before ++ next = text at ht
  fun_induction ofChars pos text generalizing before with
  | case1 pos => cases ht
  | case2 pos c cs hblank ih =>
      cases before with
      | nil => exact ⟨[], .nil⟩
      | cons d before =>
          rw [List.cons_append] at htext
          obtain ⟨rfl, hrest⟩ := List.cons.inj htext
          rw [byteLength_cons, ← Nat.add_assoc] at hstart
          obtain ⟨ts, hcuts⟩ := ih hstart hrest ht
          exact ⟨ts, .blank hblank hcuts⟩
  | case3 pos c cs hblank found stop token cause =>
      cases before with
      | nil => exact ⟨[], .nil⟩
      | cons d before =>
          have hspan : t.span.start = pos := by
            split at ht
            · rw [List.mem_singleton.mp ht]
            · cases ht
          have hpos := Text.byteLength_pos (List.cons_ne_nil d before)
          omega
  | case4 pos c cs hblank found stop token hfault rest =>
      rename_i ih
      cases before with
      | nil => exact ⟨[], .nil⟩
      | cons d before =>
          rw [List.cons_append] at htext
          obtain ⟨rfl, rfl⟩ := List.cons.inj htext
          have hpos := Text.byteLength_pos (List.cons_ne_nil d before)
          have hrest : t ∈ rest.tokens := by
            refine (List.mem_cons.mp ht).resolve_left ?_
            rintro rfl
            have hspan : token.span.start = pos := rfl
            omega
          have hlater : stop ≤ t.span.start := le_start_of_mem_ofChars hrest
          have hfits : found.tail ≤ before.length := by
            have hmore : (before ++ next).drop found.tail ≠ [] := by
              intro hdrop
              have hnone : rest = ofChars stop ((before ++ next).drop found.tail) := rfl
              rw [hnone, hdrop, ofChars] at hrest
              cases hrest
            refine le_length_of_byteLength_take ?_ hmore
            rw [byteLength_cons] at hstart
            omega
          have hstop : stop = pos + Text.byteLength (d :: before.take found.tail) := by
            rw [byteLength_cons, ← Nat.add_assoc, ← List.take_append_of_le_length hfits]
          have hsum := byteLength_append (d :: before.take found.tail) (before.drop found.tail)
          rw [List.cons_append, List.take_append_drop] at hsum
          obtain ⟨ts, hcuts⟩ := ih (by omega) (List.drop_append_of_le_length hfits).symm hrest
          rw [hstop] at hcuts
          obtain ⟨_, hwhole⟩ := cuts_cons (Bool.eq_false_iff.mpr hblank) hfault hfits hcuts
          exact ⟨_, hwhole⟩

/-- The cut stays where no lexeme goes on over what follows it instead. -/
theorem Cuts.congr {next' : List Char}
    (hnext : ∀ c cs, Text.isBlank c = false → (Scan.lexeme c (cs ++ next)).fault = none →
      (Scan.lexeme c (cs ++ next)).tail ≤ cs.length →
      Scan.lexeme c (cs ++ next') = Scan.lexeme c (cs ++ next))
    (h : Cuts next pos cs ts) : Cuts next' pos cs ts := by
  induction h with
  | nil => exact .nil
  | blank hblank h ih => exact .blank hblank ih
  | @lexeme pos c tail cs ts found hblank hfound hfault htail h ih =>
      subst hfound
      rw [← List.append_assoc] at hfault htail
      have hsame := hnext c (tail ++ cs) hblank hfault (by rw [htail]; simp)
      rw [List.append_assoc, List.append_assoc] at hsame
      rw [List.append_assoc] at hfault htail
      exact .lexeme hblank hsame hfault htail ih

end Cuts

/-- Where a text starts decides nothing but places. -/
theorem ofChars_moved (pos pos' : Nat) (cs : List Char) :
    (ofChars pos cs).tokens.map Token.unplaced = (ofChars pos' cs).tokens.map Token.unplaced ∧
      (ofChars pos cs).error.map Error.kind = (ofChars pos' cs).error.map Error.kind := by
  fun_induction ofChars pos cs generalizing pos' with
  | case1 pos =>
      rw [ofChars]
      exact ⟨rfl, rfl⟩
  | case2 pos c cs hblank ih =>
      rw [ofChars.eq_def pos' (c :: cs)]
      simp only [hblank, if_true]
      exact ih _
  | case3 pos c cs hblank found stop token cause hfault =>
      rw [ofChars.eq_def pos' (c :: cs)]
      simp only [hblank, Bool.false_eq_true, if_false, hfault, found]
      refine ⟨?_, rfl⟩
      split <;> rfl
  | case4 pos c cs hblank found stop token hfault rest ih =>
      rw [ofChars.eq_def pos' (c :: cs)]
      simp only [hblank, Bool.false_eq_true, if_false, hfault, found]
      obtain ⟨htokens, herror⟩ := ih (pos' + c.utf8Size + Text.byteLength (cs.take found.tail))
      exact ⟨congrArg₂ List.cons rfl htokens, herror⟩

end TrackerQuery.Scan
