import TrackerQuery.Proofs.PrintedText

/-!
# Places in a text

A place is a nonempty stretch of whole characters.  Places are counted in bytes, so
both ends have to fall between two characters.
-/

namespace TrackerQuery

theorem Text.byteLength_toList (text : String) : byteLength text.toList = text.utf8ByteSize := by
  have hchars : ∀ cs : List Char, byteLength cs = (String.ofList cs).utf8ByteSize := by
    intro cs
    induction cs with
    | nil => rfl
    | cons c cs ih =>
        rw [Scan.byteLength_cons, ih, String.ofList_cons, String.utf8ByteSize_append,
          String.utf8ByteSize_singleton]
  rw [hchars, String.ofList_toList]

theorem Text.byteLength_pos {cs : List Char} (hcs : cs ≠ []) : 0 < byteLength cs := by
  obtain ⟨c, cs, rfl⟩ := List.exists_cons_of_ne_nil hcs
  have hsize := c.utf8Size_pos
  rw [Scan.byteLength_cons]
  omega

/-- A character starts at the byte, or the text ends there. -/
theorem Text.isValid_of_append {text : String} {before after : List Char}
    (htext : text.toList = before ++ after) :
    String.Pos.Raw.IsValid text ⟨byteLength before⟩ := by
  refine String.Pos.Raw.isValid_iff_exists_append.mpr
    ⟨String.ofList before, String.ofList after, ?_, ?_⟩
  · rw [← String.ofList_append, ← htext, String.ofList_toList]
  · rw [String.rawEndPos, ← byteLength_toList, String.toList_ofList]

theorem Text.exists_append_of_isValid {text : String} {offset : Nat}
    (hoffset : String.Pos.Raw.IsValid text ⟨offset⟩) :
    ∃ before after, text.toList = before ++ after ∧ byteLength before = offset := by
  obtain ⟨before, after, rfl, hbefore⟩ := String.Pos.Raw.isValid_iff_exists_append.mp hoffset
  refine ⟨before.toList, after.toList, String.toList_append, ?_⟩
  rw [byteLength_toList, ← String.byteIdx_rawEndPos, ← hbefore]

namespace Span

/-- The span is a nonempty part of the text with both ends between characters. -/
structure PlacedIn (text : String) (span : Span) : Prop where
  nonempty : span.start < span.stop
  within : span.stop ≤ text.utf8ByteSize
  start : String.Pos.Raw.IsValid text ⟨span.start⟩
  stop : String.Pos.Raw.IsValid text ⟨span.stop⟩

theorem placedIn_iff {text : String} {span : Span} :
    span.PlacedIn text ↔ span.start < span.stop ∧ span.stop ≤ text.utf8ByteSize ∧
      String.Pos.Raw.IsValid text ⟨span.start⟩ ∧ String.Pos.Raw.IsValid text ⟨span.stop⟩ := by
  constructor
  · intro hspan
    exact ⟨hspan.nonempty, hspan.within, hspan.start, hspan.stop⟩
  · rintro ⟨hnonempty, hwithin, hstart, hstop⟩
    exact ⟨hnonempty, hwithin, hstart, hstop⟩

instance decidablePlacedIn (text : String) (span : Span) : Decidable (span.PlacedIn text) :=
  decidable_of_iff _ placedIn_iff.symm

theorem placedIn_of_append {text : String} {before lexeme after : List Char}
    (htext : text.toList = before ++ (lexeme ++ after)) (hlexeme : lexeme ≠ []) :
    PlacedIn text ⟨Text.byteLength before, Text.byteLength before + Text.byteLength lexeme⟩ := by
  have hpos := Text.byteLength_pos hlexeme
  have hlength : Text.byteLength (before ++ lexeme) + Text.byteLength after =
      text.utf8ByteSize := by
    rw [← Scan.byteLength_append, List.append_assoc, ← htext, Text.byteLength_toList]
  have hstop : String.Pos.Raw.IsValid text ⟨Text.byteLength (before ++ lexeme)⟩ :=
    Text.isValid_of_append (by rw [htext, List.append_assoc])
  rw [Scan.byteLength_append] at hlength hstop
  exact ⟨by simpa using hpos, by simp only; omega, Text.isValid_of_append htext, hstop⟩

theorem PlacedIn.cover {text : String} {a b : Span} (ha : a.PlacedIn text)
    (hb : b.PlacedIn text) : (a.cover b).PlacedIn text := by
  have hstart : (a.cover b).start = a.start ∨ (a.cover b).start = b.start := by
    simp only [Span.cover]
    omega
  have hstop : (a.cover b).stop = a.stop ∨ (a.cover b).stop = b.stop := by
    simp only [Span.cover]
    omega
  have hlow : (a.cover b).start ≤ a.start := Nat.min_le_left ..
  have hhigh : a.stop ≤ (a.cover b).stop := Nat.le_max_left ..
  exact ⟨Nat.lt_of_le_of_lt hlow (Nat.lt_of_lt_of_le ha.nonempty hhigh),
    hstop.elim (fun heq => heq ▸ ha.within) fun heq => heq ▸ hb.within,
    hstart.elim (fun heq => heq ▸ ha.start) fun heq => heq ▸ hb.start,
    hstop.elim (fun heq => heq ▸ ha.stop) fun heq => heq ▸ hb.stop⟩

end Span

end TrackerQuery
