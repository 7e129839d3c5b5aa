import TrackerQuery.Report
import TrackerQuery.Proofs.SpacedTokens

/-!
# The mark under a query

A fault of a query is reported on three lines: what is wrong, the query, and carets under
the place of the fault.  The column of the first caret is counted in characters and the
number of carets in bytes, so the carets underline the place and nothing else exactly if
each character there takes one byte.
-/

namespace TrackerQuery

/-! ## Characters and bytes -/

theorem Text.charsBefore?_byteLength (before after : List Char) :
    charsBefore? (byteLength before) (before ++ after) = some before.length := by
  induction before with
  | nil => cases after <;> rfl
  | cons c cs ih =>
      have hsize := c.utf8Size_pos
      obtain ⟨offset, hoffset⟩ : ∃ offset, byteLength (c :: cs) = offset + 1 :=
        Nat.exists_eq_succ_of_ne_zero (by rw [Scan.byteLength_cons]; omega)
      have hrest : offset + 1 - c.utf8Size = byteLength cs := by
        rw [← hoffset, Scan.byteLength_cons, Nat.add_sub_cancel_left]
      have hfits : ¬offset + 1 < c.utf8Size := by
        rw [← hoffset, Scan.byteLength_cons]
        omega
      rw [hoffset, List.cons_append, charsBefore?, if_neg hfits, hrest, ih]
      rfl

theorem Text.length_le_byteLength (cs : List Char) : cs.length ≤ byteLength cs := by
  induction cs with
  | nil => exact Nat.le_refl _
  | cons c cs ih =>
      have hsize := c.utf8Size_pos
      rw [List.length_cons, Scan.byteLength_cons]
      omega

theorem Text.byteLength_eq_length_iff (cs : List Char) :
    byteLength cs = cs.length ↔ ∀ c ∈ cs, c.utf8Size = 1 := by
  induction cs with
  | nil => simp [byteLength]
  | cons c cs ih =>
      have hsize := c.utf8Size_pos
      have hle := length_le_byteLength cs
      rw [List.length_cons, Scan.byteLength_cons, List.forall_mem_cons, ← ih]
      omega

namespace Report

/-! ## The layout of a report -/

/-- Two blanks, a blank for each column before the mark, and the carets. -/
def caretLine (column carets : Nat) : String :=
  .ofList (' ' :: ' ' :: (List.replicate column ' ' ++ List.replicate carets '^'))

def layout (cause : Fault) (query under : String) : String :=
  s!"error[{cause.code}]: {cause.message}\n  {query}\n{under}\n"

theorem toList_fill (count : Nat) (c : Char) :
    (fill count (String.ofList [c])).toList = List.replicate count c := by
  rw [fill, String.toList_join]
  induction count with
  | zero => rfl
  | succ count ih => simpa [List.replicate_succ] using ih

theorem caretLine_eq_fill (column carets : Nat) :
    caretLine column carets = "  " ++ (fill column " " ++ fill carets "^") := by
  apply String.toList_injective
  have hblanks : (fill column " ").toList = List.replicate column ' ' := toList_fill column ' '
  have hcarets : (fill carets "^").toList = List.replicate carets '^' := toList_fill carets '^'
  simp [caretLine, hblanks, hcarets]

theorem error_eq_layout (query : String) (cause : Fault) (span : Option Span) :
    error false query (.fault cause span) =
      layout cause query (caretLine (caret query span).1 (caret query span).2) := by
  rw [caretLine_eq_fill]
  apply String.toList_injective
  simp [error, layout, headline, Error.fault?, paint, toString]

/-- The number of carets can be read off a report. -/
theorem layout_caretLine_inj {cause : Fault} {query : String} {column m n : Nat} :
    layout cause query (caretLine column m) = layout cause query (caretLine column n) ↔
      m = n := by
  constructor
  · intro heq
    have hlength := congrArg (fun report => report.toList.length) heq
    simpa [layout, caretLine, toString] using hlength
  · rintro rfl
    rfl

theorem caret_of_append {query : String} {before marked after : List Char}
    (hquery : query.toList = before ++ (marked ++ after)) :
    caret query (some ⟨Text.byteLength before,
      Text.byteLength before + Text.byteLength marked⟩) =
      (before.length, max 1 (Text.byteLength marked)) := by
  have hwithin : Text.byteLength before ≤ query.utf8ByteSize := by
    rw [← Text.byteLength_toList, hquery, Scan.byteLength_append]
    exact Nat.le_add_right ..
  simp only [caret, Span.length, Nat.min_eq_left hwithin, hquery, Text.charsBefore?_byteLength,
    Option.getD_some, Nat.add_sub_cancel_left, Nat.max_comm]

/-- As many carets as bytes, one at least, are as many as characters exactly if each
character takes one byte. -/
theorem max_byteLength_eq_iff (cs : List Char) :
    max 1 (Text.byteLength cs) = max 1 cs.length ↔ ∀ c ∈ cs, c.utf8Size = 1 := by
  rw [← Text.byteLength_eq_length_iff]
  cases cs with
  | nil => simp [Text.byteLength]
  | cons c cs =>
      have hle := Text.length_le_byteLength (c :: cs)
      rw [List.length_cons] at hle ⊢
      omega

/-- The report of a fault without colors.  The place lies between two characters at both
ends: as many blanks as characters before it, and as many carets as it has bytes, one at
least; these are as many as it has characters if and only if none of them takes more than
one byte.  Without a place there is one caret after the whole query. -/
theorem error_fault_eq_layout (query : String) (cause : Fault) :
    (∀ span : Span, span.start ≤ span.stop → String.Pos.Raw.IsValid query ⟨span.start⟩ →
      String.Pos.Raw.IsValid query ⟨span.stop⟩ →
      let column := (Text.before span.start query.toList).length
      let marked := span.textIn query
      error false query (.fault cause (some span)) =
          layout cause query (caretLine column (max 1 marked.utf8ByteSize)) ∧
        (error false query (.fault cause (some span)) =
            layout cause query (caretLine column (max 1 marked.length)) ↔
          ∀ c ∈ marked.toList, c.utf8Size = 1)) ∧
      error false query (.fault cause none) =
        layout cause query (caretLine query.length 1) := by
  refine ⟨?_, error_eq_layout query cause none⟩
  rintro ⟨start, stop⟩ hle hstart hstop
  obtain ⟨before, rest, hrest, rfl⟩ := Text.exists_append_of_isValid hstart
  obtain ⟨upto, after, hafter, rfl⟩ := Text.exists_append_of_isValid hstop
  obtain ⟨marked, rfl⟩ : before <+: upto :=
    Text.isPrefix_of_byteLength_le ⟨_, hrest.symm⟩ ⟨_, hafter.symm⟩ hle
  rw [List.append_assoc] at hafter
  have hcolumn : Text.before (Text.byteLength before) query.toList = before := by
    rw [hrest, Text.before_byteLength]
  simp only [Scan.byteLength_append, Span.textIn_of_append hafter, hcolumn, error_eq_layout,
    caret_of_append hafter, layout_caretLine_inj, ← Text.byteLength_toList, String.toList_ofList,
    String.length_ofList, max_byteLength_eq_iff, true_and]

/-- A field that does not exist, one byte a character, behind a table of wider ones; an
empty place at the end of the query; and no place. -/
theorem error_fault_eq_layout_of_wide_table :
    let query := "select * from 表 where x = 1"
    let e := Fault.fieldDoesNotExist
    (error false query (.fault e (some ⟨24, 25⟩)) = layout e query (caretLine 22 1) ∧
      error false query (.fault e (some ⟨29, 29⟩)) = layout e query (caretLine 27 1)) ∧
      error false query (.fault e none) = layout e query (caretLine 27 1) := by
  intro query e
  have hname :
      (Text.before 24 query.toList).length = 22 ∧ (⟨24, 25⟩ : Span).textIn query = "x" := by
    decide +kernel
  have hend : (Text.before 29 query.toList).length = 27 ∧ (⟨29, 29⟩ : Span).textIn query = "" := by
    decide +kernel
  have hlength : query.length = 27 := by decide +kernel
  obtain ⟨hplaced, hnone⟩ := error_fault_eq_layout query e
  have hmarked := (hplaced ⟨24, 25⟩ (by decide) (by decide) (by decide)).1
  have hempty := (hplaced ⟨29, 29⟩ (by decide) (by decide) (by decide)).1
  rw [hname.1, hname.2] at hmarked
  rw [hend.1, hend.2] at hempty
  rw [hlength] at hnone
  exact ⟨⟨hmarked, hempty⟩, hnone⟩

/-- Two characters of three bytes each are underlined by six carets. -/
theorem error_underlines_bytes :
    let query := "select * from X where 字段 = 1"
    let span : Span := ⟨22, 28⟩
    span.textIn query = "字段" ∧
      error false query (.fault .fieldDoesNotExist (some span)) =
        layout .fieldDoesNotExist query (caretLine 22 6) ∧
      error false query (.fault .fieldDoesNotExist (some span)) ≠
        layout .fieldDoesNotExist query (caretLine 22 (max 1 "字段".length)) := by
  decide +kernel

end Report

end TrackerQuery
