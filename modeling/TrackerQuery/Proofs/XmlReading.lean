import TrackerQuery.Text.Ranges
import TrackerQuery.Xml

/-!
# Reading XML

A reader of elements that takes one character at a time and keeps the elements that are
still open on a stack.  What it reads is well-formed, and a well-formed element is read back
from its own text, whatever its attributes and its text hold.
-/

namespace TrackerQuery.Xml

/-! ## Names and entities -/

def nameStartRanges : Text.Ranges :=
  [(0x3A, 0x3A), (0x41, 0x5A), (0x5F, 0x5F), (0x61, 0x7A), (0xC0, 0xD6), (0xD8, 0xF6),
    (0xF8, 0x2FF), (0x370, 0x37D), (0x37F, 0x1FFF), (0x200C, 0x200D), (0x2070, 0x218F),
    (0x2C00, 0x2FEF), (0x3001, 0xD7FF), (0xF900, 0xFDCF), (0xFDF0, 0xFFFD), (0x10000, 0xEFFFF)]

/-- The characters that a name may go on with: also digits, `-`, `.` and marks. -/
def nameRanges : Text.Ranges :=
  [(0x2D, 0x2E), (0x30, 0x3A), (0x41, 0x5A), (0x5F, 0x5F), (0x61, 0x7A), (0xB7, 0xB7),
    (0xC0, 0xD6), (0xD8, 0xF6), (0xF8, 0x37D), (0x37F, 0x1FFF), (0x200C, 0x200D),
    (0x203F, 0x2040), (0x2070, 0x218F), (0x2C00, 0x2FEF), (0x3001, 0xD7FF), (0xF900, 0xFDCF),
    (0xFDF0, 0xFFFD), (0x10000, 0xEFFFF)]

def isNameStart (c : Char) : Bool :=
  nameStartRanges.covers c

def isNameChar (c : Char) : Bool :=
  nameRanges.covers c

def isNameList : List Char → Bool
  | [] => false
  | c :: cs => isNameStart c && cs.all isNameChar

def isName (name : String) : Bool :=
  isNameList name.toList

def isBlank (c : Char) : Bool :=
  c == ' ' || c == '\t' || c == '\n' || c == '\r'

/-- The characters that a run of text stands for; only the five predefined entities are
known. -/
def unescape? : List Char → Option (List Char)
  | [] => some []
  | '&' :: 'a' :: 'm' :: 'p' :: ';' :: rest => (unescape? rest).map ('&' :: ·)
  | '&' :: 'l' :: 't' :: ';' :: rest => (unescape? rest).map ('<' :: ·)
  | '&' :: 'g' :: 't' :: ';' :: rest => (unescape? rest).map ('>' :: ·)
  | '&' :: 'a' :: 'p' :: 'o' :: 's' :: ';' :: rest => (unescape? rest).map ('\'' :: ·)
  | '&' :: 'q' :: 'u' :: 'o' :: 't' :: ';' :: rest => (unescape? rest).map ('"' :: ·)
  | c :: rest => if c = '&' then none else (unescape? rest).map (c :: ·)

/-! ## The reader -/

structure Tag where
  name : String
  attributes : List (String × String) := []

def Tag.add? (tag : Tag) (name value : String) : Option Tag :=
  if name ∈ tag.attributes.map Prod.fst then none
  else some { tag with attributes := tag.attributes ++ [(name, value)] }

structure Frame where
  tag : Tag
  children : List Element := []

namespace Frame

def push (frame : Frame) (child : Element) : Frame :=
  { frame with children := frame.children ++ [child] }

/-- The element, where `run` stands between the last tag and its own end.  Without children
that is its text; around children only blanks are left out. -/
def close? (frame : Frame) (run : List Char) : Option Element :=
  if frame.children = [] then
    (unescape? run).map fun text =>
      { name := frame.tag.name, attributes := frame.tag.attributes,
        text := some (String.ofList text) }
  else if run.all isBlank then
    some { name := frame.tag.name, attributes := frame.tag.attributes,
           children := frame.children }
  else none

end Frame

inductive Mode where
  /-- The characters since the last tag. -/
  | content (run : List Char)
  /-- After `<`, with the characters in front of it. -/
  | angle (run : List Char)
  | name (chars : List Char)
  /-- After a blank in a tag. -/
  | gap (tag : Tag)
  | key (tag : Tag) (chars : List Char)
  /-- After the `=` of an attribute. -/
  | equals (tag : Tag) (name : String)
  | value (tag : Tag) (name : String) (quote : Char) (run : List Char)
  /-- After the value of an attribute. -/
  | valued (tag : Tag)
  /-- After the `/` of an empty element. -/
  | slash (tag : Tag)
  /-- In the name of a closing tag, with the characters in front of the tag. -/
  | closing (run chars : List Char)

structure Reader where
  mode : Mode
  frame : Frame
  /-- The elements around the frame, from the inside out. -/
  outer : List Frame

namespace Reader

/-- At the start the frame stands for the whole text. -/
def start : Reader :=
  ⟨.content [], ⟨⟨"", []⟩, []⟩, []⟩

def endTag (r : Reader) (tag : Tag) (c : Char) : Option Reader :=
  if isBlank c then some { r with mode := .gap tag }
  else if c = '/' then some { r with mode := .slash tag }
  else if c = '>' then some ⟨.content [], ⟨tag, []⟩, r.frame :: r.outer⟩
  else none

/-- A closing tag ends the frame and makes it a child of the one around it. -/
def close (r : Reader) (run chars : List Char) : Option Reader :=
  match r.outer with
  | [] => none
  | parent :: outer =>
      if String.ofList chars = r.frame.tag.name then
        (r.frame.close? run).map fun element => ⟨.content [], parent.push element, outer⟩
      else none

def step (r : Reader) (c : Char) : Option Reader :=
  match r.mode with
  | .content run => some { r with mode := if c = '<' then .angle run else .content (run ++ [c]) }
  | .angle run =>
      if c = '/' then some { r with mode := .closing run [] }
      else if isNameStart c && run.all isBlank then some { r with mode := .name [c] }
      else none
  | .name chars =>
      if isNameChar c then some { r with mode := .name (chars ++ [c]) }
      else r.endTag ⟨String.ofList chars, []⟩ c
  | .gap tag =>
      if isNameStart c then some { r with mode := .key tag [c] } else r.endTag tag c
  | .key tag chars =>
      if isNameChar c then some { r with mode := .key tag (chars ++ [c]) }
      else if c = '=' then some { r with mode := .equals tag (String.ofList chars) }
      else none
  | .equals tag name =>
      if c = '"' ∨ c = '\'' then some { r with mode := .value tag name c [] } else none
  | .value tag name quote run =>
      if c = quote then
        (unescape? run).bind fun value =>
          (tag.add? name (String.ofList value)).map fun tag => { r with mode := .valued tag }
      else if c = '<' then none
      else some { r with mode := .value tag name quote (run ++ [c]) }
  | .valued tag => r.endTag tag c
  | .slash tag =>
      if c = '>' then
        some { r with mode := .content [],
                      frame := r.frame.push { name := tag.name, attributes := tag.attributes } }
      else none
  | .closing run chars =>
      if c = '>' then r.close run chars else some { r with mode := .closing run (chars ++ [c]) }

def run (r : Reader) (cs : List Char) : Option Reader :=
  cs.foldlM step r

def root? (r : Reader) : Option Element :=
  match r.mode, r.frame.children, r.outer with
  | .content run, [element], [] => if run.all isBlank then some element else none
  | _, _, _ => none

end Reader

/-- The element that a text holds. -/
def read? (text : String) : Option Element :=
  (Reader.start.run text.toList).bind Reader.root?

/-! ## Well-formed elements -/

structure Tag.WellFormed (tag : Tag) : Prop where
  name : isName tag.name = true
  attributes : ∀ entry ∈ tag.attributes, isName entry.1 = true
  unique : (tag.attributes.map Prod.fst).Nodup

/-- Names are names, no attribute is given twice, and an element has no text beside its
children. -/
inductive Element.WellFormed : Element → Prop
  | mk {element : Element} (htag : Tag.WellFormed ⟨element.name, element.attributes⟩)
      (hcontent : element.text = none ∨ element.children = [])
      (hchildren : ∀ child ∈ element.children, WellFormed child) : WellFormed element

/-! ## What is read is well-formed -/

theorem isNameList_concat {cs : List Char} {c : Char} (hcs : isNameList cs = true)
    (hc : isNameChar c = true) : isNameList (cs ++ [c]) = true := by
  cases cs with
  | nil => cases hcs
  | cons first rest =>
      rw [isNameList, Bool.and_eq_true] at hcs
      simp [isNameList, hcs.1, hcs.2, hc]

theorem Tag.WellFormed.add? {tag next : Tag} {name value : String} (h : tag.WellFormed)
    (hname : isName name = true) (hadd : tag.add? name value = some next) : next.WellFormed := by
  unfold Tag.add? at hadd
  split at hadd
  · cases hadd
  · rename_i hnew
    cases hadd
    refine ⟨h.name, ?_, ?_⟩
    · exact List.forall_mem_append.mpr ⟨h.attributes, by simpa using hname⟩
    · rw [List.map_append]
      exact (List.perm_append_singleton name _).nodup_iff.mpr (List.nodup_cons.mpr ⟨hnew, h.unique⟩)

/-- Only the outermost frame, the whole text, has no name. -/
def Frame.Sound : Frame → List Frame → Prop
  | frame, [] => ∀ child ∈ frame.children, child.WellFormed
  | frame, parent :: outer =>
      frame.tag.WellFormed ∧ (∀ child ∈ frame.children, child.WellFormed) ∧ parent.Sound outer

def Mode.Sound : Mode → Prop
  | .content _ | .angle _ | .closing _ _ => True
  | .name chars => isNameList chars = true
  | .gap tag | .valued tag | .slash tag => tag.WellFormed
  | .key tag chars => tag.WellFormed ∧ isNameList chars = true
  | .equals tag other | .value tag other _ _ => tag.WellFormed ∧ isName other = true

structure Reader.Sound (r : Reader) : Prop where
  mode : r.mode.Sound
  frame : r.frame.Sound r.outer

section Sound

variable {frame : Frame} {outer : List Frame}

theorem Frame.Sound.children (h : frame.Sound outer) :
    ∀ child ∈ frame.children, child.WellFormed := by
  cases outer with
  | nil => exact h
  | cons parent outer => exact h.2.1

theorem Frame.Sound.push (h : frame.Sound outer) {child : Element} (hchild : child.WellFormed) :
    (frame.push child).Sound outer := by
  have hchildren : ∀ other ∈ (frame.push child).children, other.WellFormed :=
    List.forall_mem_append.mpr ⟨h.children, by simpa using hchild⟩
  cases outer with
  | nil => exact hchildren
  | cons parent outer => exact ⟨h.1, hchildren, h.2.2⟩

theorem Frame.wellFormed_of_close? {run : List Char} {element : Element}
    (htag : frame.tag.WellFormed) (hchildren : ∀ child ∈ frame.children, child.WellFormed)
    (hclose : frame.close? run = some element) : element.WellFormed := by
  unfold Frame.close? at hclose
  split at hclose
  · obtain ⟨text, -, rfl⟩ := Option.map_eq_some_iff.mp hclose
    exact ⟨htag, .inr rfl, by simp⟩
  · split at hclose
    · cases hclose
      exact ⟨htag, .inl rfl, hchildren⟩
    · cases hclose

namespace Reader

variable {r next : Reader}

theorem Sound.withMode (h : r.Sound) {mode : Mode} (hmode : mode.Sound) :
    Sound { r with mode } :=
  ⟨hmode, h.frame⟩

theorem Sound.endTag (h : r.Sound) {tag : Tag} (htag : tag.WellFormed) {c : Char}
    (hnext : r.endTag tag c = some next) : next.Sound := by
  unfold Reader.endTag at hnext
  split at hnext
  · cases hnext
    exact h.withMode htag
  · split at hnext
    · cases hnext
      exact h.withMode htag
    · split at hnext
      · cases hnext
        exact ⟨trivial, htag, by simp, h.frame⟩
      · cases hnext

theorem Sound.close (h : r.Sound) {run chars : List Char}
    (hnext : r.close run chars = some next) : next.Sound := by
  obtain ⟨mode, frame, outer⟩ := r
  cases outer with
  | nil => cases hnext
  | cons parent outer =>
      obtain ⟨htag, hchildren, hparent⟩ := h.frame
      unfold Reader.close at hnext
      dsimp only at hnext
      split at hnext
      · obtain ⟨element, hclose, rfl⟩ := Option.map_eq_some_iff.mp hnext
        exact ⟨trivial, hparent.push (Frame.wellFormed_of_close? htag hchildren hclose)⟩
      · cases hnext

/-- One character keeps what is read well-formed. -/
theorem Sound.step (h : r.Sound) {c : Char} (hnext : r.step c = some next) : next.Sound := by
  obtain ⟨mode, frame, outer⟩ := r
  have hmode := h.mode
  unfold Reader.step at hnext
  cases mode with
  | content run =>
      cases hnext
      refine h.withMode ?_
      split <;> trivial
  | angle run =>
      dsimp only at hnext
      split at hnext
      · cases hnext
        exact h.withMode trivial
      · obtain ⟨hstart, hnext⟩ := Option.ite_none_right_eq_some.mp hnext
        cases hnext
        refine h.withMode ?_
        simpa [Mode.Sound, isNameList] using (Bool.and_eq_true_iff.mp hstart).1
  | name chars =>
      dsimp only at hnext
      split at hnext
      · rename_i hc
        cases hnext
        exact h.withMode (isNameList_concat hmode hc)
      · exact h.endTag ⟨by simpa [isName, Mode.Sound] using hmode, by simp, by simp⟩ hnext
  | gap tag =>
      dsimp only at hnext
      split at hnext
      · rename_i hc
        cases hnext
        exact h.withMode ⟨hmode, by simpa [isNameList] using hc⟩
      · exact h.endTag hmode hnext
  | key tag chars =>
      dsimp only at hnext
      split at hnext
      · rename_i hc
        cases hnext
        exact h.withMode ⟨hmode.1, isNameList_concat hmode.2 hc⟩
      · obtain ⟨-, hnext⟩ := Option.ite_none_right_eq_some.mp hnext
        cases hnext
        exact h.withMode ⟨hmode.1, by simpa [isName] using hmode.2⟩
  | equals tag name =>
      obtain ⟨-, hnext⟩ := Option.ite_none_right_eq_some.mp hnext
      cases hnext
      exact h.withMode hmode
  | value tag name quote run =>
      dsimp only at hnext
      split at hnext
      · obtain ⟨value, -, hnext⟩ := Option.bind_eq_some_iff.mp hnext
        obtain ⟨tag, hadd, rfl⟩ := Option.map_eq_some_iff.mp hnext
        exact h.withMode (hmode.1.add? hmode.2 hadd)
      · obtain ⟨-, hnext⟩ := Option.ite_none_left_eq_some.mp hnext
        cases hnext
        exact h.withMode hmode
  | valued tag => exact h.endTag hmode hnext
  | slash tag =>
      obtain ⟨-, hnext⟩ := Option.ite_none_right_eq_some.mp hnext
      cases hnext
      exact ⟨trivial, h.frame.push ⟨hmode, .inl rfl, by simp⟩⟩
  | closing run chars =>
      dsimp only at hnext
      split at hnext
      · exact h.close hnext
      · cases hnext
        exact h.withMode trivial

theorem Sound.run (h : r.Sound) {cs : List Char} (hrun : r.run cs = some next) : next.Sound := by
  induction cs generalizing r with
  | nil =>
      cases hrun
      exact h
  | cons c cs ih =>
      obtain ⟨mid, hstep, hrun⟩ := Option.bind_eq_some_iff.mp hrun
      exact ih (h.step hstep) hrun

end Reader

end Sound

theorem wellFormed_of_read? {text : String} {element : Element}
    (hread : read? text = some element) : element.WellFormed := by
  obtain ⟨⟨mode, frame, outer⟩, hrun, hroot⟩ := Option.bind_eq_some_iff.mp hread
  have hstart : Reader.start.Sound := ⟨trivial, by simp [Reader.start, Frame.Sound]⟩
  have hchildren := (hstart.run hrun).frame.children
  unfold Reader.root? at hroot
  split at hroot
  · rename_i hframe _
    obtain ⟨-, hroot⟩ := Option.ite_none_right_eq_some.mp hroot
    cases hroot
    exact hchildren element (hframe ▸ List.mem_singleton_self element)
  · cases hroot

/-! ## What is written is read back -/

theorem toList_escape (text : String) :
    (escape text).toList = text.toList.flatMap fun c => (escapeChar c).toList := by
  rw [escape, String.toList_join, List.flatMap_map]

theorem mem_escapeChar {c x : Char} (hx : x ∈ (escapeChar c).toList) : x ≠ '<' ∧ x ≠ '"' := by
  have hentity : ∀ entity : String, (entity.toList.all fun y => y != '<' && y != '"') = true →
      x ∈ entity.toList → x ≠ '<' ∧ x ≠ '"' := by
    intro entity hall hmem
    simpa using List.all_eq_true.mp hall x hmem
  unfold escapeChar at hx
  split at hx
  case h_6 hlt _ _ hquot =>
    rw [Char.toString, String.toList_singleton, List.mem_singleton] at hx
    subst hx
    exact ⟨hlt, hquot⟩
  all_goals exact hentity _ (by decide) hx

/-- Markup inside a text is escaped. -/
theorem mem_escape {text : String} : ∀ x ∈ (escape text).toList, x ≠ '<' ∧ x ≠ '"' := by
  intro x hx
  rw [toList_escape] at hx
  obtain ⟨c, -, hx⟩ := List.mem_flatMap.mp hx
  exact mem_escapeChar hx

theorem unescape?_escapeChar (c : Char) (rest : List Char) :
    unescape? ((escapeChar c).toList ++ rest) = (unescape? rest).map (c :: ·) := by
  unfold escapeChar
  split
  case h_6 hamp _ _ _ _ =>
    rw [Char.toString, String.toList_singleton, List.singleton_append, unescape?, if_neg hamp]
    all_goals exact fun _ h => absurd h hamp
  all_goals rfl

theorem unescape?_escape (text : String) :
    unescape? (escape text).toList = some text.toList := by
  rw [toList_escape]
  induction text.toList with
  | nil => rfl
  | cons c cs ih => rw [List.flatMap_cons, unescape?_escapeChar, ih, Option.map_some]

namespace Reader

theorem run_trans {r mid next : Reader} {cs ds : List Char} (hfirst : r.run cs = some mid)
    (hrest : mid.run ds = some next) : r.run (cs ++ ds) = some next := by
  rw [run, List.foldlM_append]
  exact Option.bind_eq_some_iff.mpr ⟨mid, hfirst, hrest⟩

theorem run_cons {r next : Reader} (mid : Reader) {c : Char} {cs : List Char}
    (hfirst : r.step c = some mid) (hrest : mid.run cs = some next) :
    r.run (c :: cs) = some next :=
  Option.bind_eq_some_iff.mpr ⟨mid, hfirst, hrest⟩

section Written

variable {frame : Frame} {outer : List Frame}

/-- A run of characters is gathered one by one. -/
theorem run_gather (mode : List Char → Mode) {p : Char → Prop}
    (hstep : ∀ run c, p c →
      step ⟨mode run, frame, outer⟩ c = some ⟨mode (run ++ [c]), frame, outer⟩)
    {cs : List Char} (hcs : ∀ c ∈ cs, p c) (run : List Char) :
    Reader.run ⟨mode run, frame, outer⟩ cs = some ⟨mode (run ++ cs), frame, outer⟩ := by
  induction cs generalizing run with
  | nil =>
      rw [List.append_nil]
      rfl
  | cons c cs ih =>
      obtain ⟨hc, hcs⟩ := List.forall_mem_cons.mp hcs
      rw [List.append_cons]
      exact run_cons _ (hstep run c hc) (ih hcs (run ++ [c]))

theorem run_content {cs : List Char} (hcs : ∀ c ∈ cs, c ≠ '<') (run : List Char) :
    Reader.run ⟨.content run, frame, outer⟩ cs = some ⟨.content (run ++ cs), frame, outer⟩ :=
  run_gather .content (fun run c hc => by simp [step, hc]) hcs run

/-- The tag may end in this mode, or go on with a blank. -/
def EndsTag (mode : Mode) (tag : Tag) : Prop :=
  ∀ frame outer c, isNameChar c = false →
    step ⟨mode, frame, outer⟩ c = endTag ⟨mode, frame, outer⟩ tag c

theorem endsTag_name (chars : List Char) : EndsTag (.name chars) ⟨String.ofList chars, []⟩ := by
  intro frame outer c hc
  simp [step, hc]

theorem endsTag_valued (tag : Tag) : EndsTag (.valued tag) tag :=
  fun _ _ _ _ => rfl

theorem step_blank {mode : Mode} {tag : Tag} (h : EndsTag mode tag) :
    step ⟨mode, frame, outer⟩ ' ' = some ⟨.gap tag, frame, outer⟩ :=
  h frame outer ' ' (by decide)

/-- The characters of a name, after the first. -/
theorem exists_of_isName {name : String} (hname : isName name = true) :
    ∃ c cs, name.toList = c :: cs ∧ isNameStart c = true ∧ ∀ x ∈ cs, isNameChar x = true := by
  unfold isName isNameList at hname
  split at hname
  · cases hname
  · rename_i c cs hchars
    rw [Bool.and_eq_true, List.all_eq_true] at hname
    exact ⟨c, cs, hchars, hname⟩

theorem run_attribute {mode : Mode} {tag next : Tag} (hmode : EndsTag mode tag)
    {name value : String} (hname : isName name = true) (hadd : tag.add? name value = some next) :
    Reader.run ⟨mode, frame, outer⟩
        (' ' :: (name.toList ++ '=' :: '"' :: ((escape value).toList ++ ['"']))) =
      some ⟨.valued next, frame, outer⟩ := by
  obtain ⟨c, cs, hchars, hc, hcs⟩ := exists_of_isName hname
  have hkey : Reader.run ⟨.key tag [c], frame, outer⟩ cs =
      some ⟨.key tag name.toList, frame, outer⟩ := by
    rw [hchars]
    exact run_gather (.key tag) (fun run x hx => by simp [step, hx]) hcs [c]
  have hvalue : Reader.run ⟨.value tag name '"' [], frame, outer⟩ (escape value).toList =
      some ⟨.value tag name '"' (escape value).toList, frame, outer⟩ :=
    run_gather (.value tag name '"') (fun run x hx => by simp [step, hx.1, hx.2]) mem_escape []
  refine run_cons _ (step_blank hmode) ?_
  rw [hchars, List.cons_append]
  refine run_cons ⟨.key tag [c], frame, outer⟩ (by simp [step, hc]) (run_trans hkey ?_)
  refine run_cons ⟨.equals tag name, frame, outer⟩ ?_ ?_
  · have hequals : isNameChar '=' = false := by decide
    simp [step, hequals]
  refine run_cons ⟨.value tag name '"' [], frame, outer⟩ (by simp [step]) ?_
  refine run_trans hvalue (run_cons ⟨.valued next, frame, outer⟩ ?_ rfl)
  simp [step, unescape?_escape, hadd]

theorem renderAttributes_cons (entry : String × String) (rest : List (String × String)) :
    (renderAttributes (entry :: rest)).toList =
      ' ' :: (entry.1.toList ++ '=' :: '"' :: ((escape entry.2).toList ++ ['"'])) ++
        (renderAttributes rest).toList := by
  simp [renderAttributes, toString]

/-- Written attributes are read back. -/
theorem run_attributes {mode : Mode} {tag : Tag} (hmode : EndsTag mode tag)
    (attributes : List (String × String))
    (htag : Tag.WellFormed ⟨tag.name, tag.attributes ++ attributes⟩) :
    ∃ next, EndsTag next ⟨tag.name, tag.attributes ++ attributes⟩ ∧
      Reader.run ⟨mode, frame, outer⟩ (renderAttributes attributes).toList =
        some ⟨next, frame, outer⟩ := by
  induction attributes generalizing mode tag with
  | nil =>
      rw [List.append_nil]
      exact ⟨mode, hmode, rfl⟩
  | cons entry rest ih =>
      obtain ⟨name, value⟩ := entry
      have hname : isName name = true := htag.attributes (name, value) (by simp)
      have hnew : name ∉ tag.attributes.map Prod.fst := by
        have hunique := htag.unique
        rw [List.map_append, List.nodup_append] at hunique
        exact fun hold => hunique.2.2 name hold name (by simp) rfl
      have hadd : tag.add? name value = some ⟨tag.name, tag.attributes ++ [(name, value)]⟩ :=
        if_neg hnew
      rw [List.append_cons] at htag ⊢
      obtain ⟨next, hnext, hrest⟩ :=
        ih (endsTag_valued ⟨tag.name, tag.attributes ++ [(name, value)]⟩) htag
      refine ⟨next, hnext, ?_⟩
      rw [renderAttributes_cons]
      exact run_trans (run_attribute hmode hname hadd) hrest

theorem mem_lead {inline : Bool} {depth : Nat} :
    ∀ c ∈ (lead inline depth).toList, c ≠ '<' ∧ isBlank c = true := by
  cases inline with
  | true => simp [lead]
  | false =>
      intro c hc
      have hcases : c = '\n' ∨ c = ' ' := by
        simp only [lead, Bool.false_eq_true, if_false, String.toList_append, String.toList_ofList,
          List.mem_append, List.mem_replicate] at hc
        exact hc.imp (by simpa using ·) (·.2)
      rcases hcases with rfl | rfl <;> decide

/-- A tag from its indentation to its last attribute. -/
theorem run_opening {run : List Char} (hrun : run.all isBlank = true) (inline : Bool)
    (depth : Nat) {tag : Tag} (htag : tag.WellFormed) :
    ∃ mode, EndsTag mode tag ∧ Reader.run ⟨.content run, frame, outer⟩
        ((lead inline depth).toList ++
          '<' :: (tag.name.toList ++ (renderAttributes tag.attributes).toList)) =
      some ⟨mode, frame, outer⟩ := by
  obtain ⟨c, cs, hchars, hc, hcs⟩ := exists_of_isName htag.name
  have hname : Reader.run ⟨.name [c], frame, outer⟩ cs =
      some ⟨.name tag.name.toList, frame, outer⟩ := by
    rw [hchars]
    exact run_gather .name (fun run x hx => by simp [step, hx]) hcs [c]
  have hslash : c ≠ '/' := by
    rintro rfl
    cases hc
  have hblank : (run ++ (lead inline depth).toList).all isBlank = true := by
    rw [List.all_append, hrun, Bool.true_and, List.all_eq_true]
    exact fun x hx => (mem_lead x hx).2
  have hmode : EndsTag (.name tag.name.toList) ⟨tag.name, []⟩ := by
    simpa using endsTag_name tag.name.toList
  obtain ⟨mode, hends, hattributes⟩ := run_attributes hmode tag.attributes htag
  refine ⟨mode, hends, run_trans (run_content (fun x hx => (mem_lead x hx).1) run) ?_⟩
  refine run_cons ⟨.angle (run ++ (lead inline depth).toList), frame, outer⟩ rfl ?_
  rw [hchars, List.cons_append]
  refine run_cons ⟨.name [c], frame, outer⟩ ?_ (run_trans hname hattributes)
  simp only [step, if_neg hslash, hc, hblank, Bool.and_self, if_true]

theorem run_closing {parent : Frame} {run : List Char} {element : Element}
    (hname : isName frame.tag.name = true) (hclose : frame.close? run = some element) :
    Reader.run ⟨.content run, frame, parent :: outer⟩
        ('<' :: '/' :: (frame.tag.name.toList ++ ['>'])) =
      some ⟨.content [], parent.push element, outer⟩ := by
  have hchars : ∀ c ∈ frame.tag.name.toList, c ≠ '>' := by
    obtain ⟨c, cs, hchars, hc, hcs⟩ := exists_of_isName hname
    rw [hchars, List.forall_mem_cons]
    refine ⟨?_, fun x hx => ?_⟩
    · rintro rfl
      cases hc
    · rintro rfl
      cases hcs _ hx
  refine run_cons ⟨.angle run, frame, parent :: outer⟩ rfl ?_
  refine run_cons ⟨.closing run [], frame, parent :: outer⟩ rfl ?_
  refine run_trans (run_gather (.closing run) (fun _ c hc => by simp [step, hc]) hchars []) ?_
  refine run_cons _ ?_ rfl
  simp [step, close, hclose]

end Written

end Reader

namespace Element

variable {inline : Bool} {depth : Nat} {name : String} {attributes : List (String × String)}

theorem toList_renderAt_empty :
    (renderAt inline depth ⟨name, attributes, [], none⟩).toList =
      ((lead inline depth).toList ++ '<' :: (name.toList ++ (renderAttributes attributes).toList))
        ++ ['/', '>'] := by
  simp [renderAt, toString]

theorem toList_renderAt_text {text : String} :
    (renderAt inline depth ⟨name, attributes, [], some text⟩).toList =
      ((lead inline depth).toList ++ '<' :: (name.toList ++ (renderAttributes attributes).toList))
        ++ '>' :: ((escape text).toList ++ '<' :: '/' :: (name.toList ++ ['>'])) := by
  simp [renderAt, toString]

theorem toList_renderAt_children {first : Element} {rest : List Element} :
    (renderAt inline depth ⟨name, attributes, first :: rest, none⟩).toList =
      ((lead inline depth).toList ++ '<' :: (name.toList ++ (renderAttributes attributes).toList))
        ++ '>' :: ((renderAll (depth + 1) (first :: rest)).toList ++
          ((lead false depth).toList ++ '<' :: '/' :: (name.toList ++ ['>']))) := by
  simp [renderAt, renderAll, toString, escape]

end Element

mutual

/-- An element is read from where it is written, after blanks and before anything. -/
theorem run_renderAt {frame : Frame} {outer : List Frame} {run : List Char}
    (hrun : run.all isBlank = true) (inline : Bool) (depth : Nat) :
    (element : Element) → element.WellFormed →
      Reader.run ⟨.content run, frame, outer⟩ (element.renderAt inline depth).toList =
        some ⟨.content [], frame.push element, outer⟩
  | ⟨name, attributes, [], none⟩, ⟨htag, hcontent, hchildren⟩ => by
      obtain ⟨mode, hends, hopening⟩ := Reader.run_opening hrun inline depth htag
      rw [Element.toList_renderAt_empty]
      refine Reader.run_trans hopening ?_
      exact Reader.run_cons _ (hends _ _ '/' (by decide)) (Reader.run_cons _ rfl rfl)
  | ⟨name, attributes, [], some text⟩, ⟨htag, hcontent, hchildren⟩ => by
      obtain ⟨mode, hends, hopening⟩ := Reader.run_opening hrun inline depth htag
      rw [Element.toList_renderAt_text]
      refine Reader.run_trans hopening (Reader.run_cons _ (hends _ _ '>' (by decide)) ?_)
      refine Reader.run_trans (Reader.run_content (fun c hc => (mem_escape c hc).1) []) ?_
      refine Reader.run_closing htag.name ?_
      simp [Frame.close?, unescape?_escape]
  | ⟨name, attributes, first :: rest, text⟩, ⟨htag, hcontent, hchildren⟩ => by
      obtain rfl : text = none := hcontent.resolve_right (List.cons_ne_nil first rest)
      obtain ⟨mode, hends, hopening⟩ := Reader.run_opening hrun inline depth htag
      rw [Element.toList_renderAt_children]
      refine Reader.run_trans hopening (Reader.run_cons _ (hends _ _ '>' (by decide)) ?_)
      refine Reader.run_trans (run_renderAll (depth + 1) (first :: rest) hchildren) ?_
      refine Reader.run_trans (Reader.run_content (fun c hc => (Reader.mem_lead c hc).1) []) ?_
      refine Reader.run_closing htag.name ?_
      have hblank : (lead false depth).toList.all isBlank = true :=
        List.all_eq_true.mpr fun c hc => (Reader.mem_lead c hc).2
      simp [Frame.close?, hblank]

theorem run_renderAll {frame : Frame} {outer : List Frame} (depth : Nat) :
    (elements : List Element) → (∀ element ∈ elements, element.WellFormed) →
      Reader.run ⟨.content [], frame, outer⟩ (renderAll depth elements).toList =
        some ⟨.content [], { frame with children := frame.children ++ elements }, outer⟩
  | [], _ => by
      rw [List.append_nil]
      rfl
  | first :: rest, helements => by
      obtain ⟨hfirst, hrest⟩ := List.forall_mem_cons.mp helements
      rw [renderAll, String.toList_append, List.append_cons]
      exact Reader.run_trans (run_renderAt rfl false depth first hfirst)
        (run_renderAll depth rest hrest)

end

theorem read?_render {element : Element} (h : element.WellFormed) :
    read? element.render = some element := by
  rw [read?, Element.render, Reader.start, run_renderAt rfl true 0 element h]
  rfl

end TrackerQuery.Xml
