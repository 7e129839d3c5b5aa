import TrackerQuery.Text.Columns
import TrackerQuery.Text.Split

/-!
# Tables

Rows of cells in a box, with a rule between any two rows.  A cell may have
several lines.
-/

namespace TrackerQuery.Report

structure Table where
  titles : List String
  rows : List (List String) := []
  deriving Repr, Inhabited

/-- A line without the carriage return at its end. -/
def dropReturn (line : List Char) : List Char :=
  if line.getLast? == some '\r' then line.dropLast else line

/-- The lines of a text; a line feed at the end does not begin another one. -/
def lines (text : String) : List String :=
  let parts := Text.splitChars (· == '\n') text.toList
  let ended := parts.dropLast.map dropReturn
  let last := parts.getLast?.getD []
  (if last.isEmpty then ended else ended ++ [last]).map String.ofList

/-- Where a text stands with respect to a color code, `ESC [ … m`. -/
inductive ColorCode where
  | outside
  | escape
  | inside
  deriving DecidableEq, Repr, Inhabited

/-- The columns that are counted for a character and not used inside a color
code: one for each character that is seen. -/
def hiddenColumns (c : Char) : Nat :=
  if Text.isControl c || Text.charWidth c = 0 then 0 else 1

/-- The columns of color codes from the bracket on. -/
def hidden : ColorCode → List Char → Nat
  | _, [] => 0
  | .outside, c :: cs => hidden (if c = '\x1b' then .escape else .outside) cs
  | .escape, c :: cs =>
      if c = '[' then 1 + hidden .inside cs else hidden .outside cs
  | .inside, c :: cs => hiddenColumns c + hidden (if c = 'm' then .outside else .inside) cs

/-- The columns that a line takes on a screen. -/
def shownWidth (line : String) : Nat :=
  Text.width line - hidden .outside line.toList

def fill (count : Nat) (s : String) : String :=
  String.join (List.replicate count s)

def pad (width : Nat) (line : String) : String :=
  line ++ fill (width - shownWidth line) " "

namespace Table

def cellWidth (cell : String) : Nat :=
  ((lines cell).map shownWidth).foldl max 0

/-- The width of each column, given the widths so far. -/
def widen (widths : List Nat) (row : List String) : List Nat :=
  List.zipWith (fun width cell => max width (cellWidth cell)) widths row

def widths (table : Table) : List Nat :=
  table.rows.foldl widen (table.titles.map cellWidth)

/-- A horizontal rule with its left end, crossings and right end. -/
def rule (left crossing right : String) (widths : List Nat) : String :=
  left ++ crossing.intercalate (widths.map fun width => fill (width + 2) "─") ++ right ++ "\n"

/-- One line of a row. -/
def rowLine (widths : List Nat) (cells : List (List String)) (index : Nat) : String :=
  let shown := List.zipWith (fun width cell => pad width ((cell[index]?).getD "")) widths cells
  "│ " ++ " │ ".intercalate shown ++ " │\n"

def renderRow (widths : List Nat) (row : List String) : String :=
  let cells := row.map lines
  let height := (cells.map List.length).foldl max 1
  String.join ((List.range height).map (rowLine widths cells))

def render (table : Table) : String :=
  let widths := table.widths
  let between := rule "├" "┼" "┤" widths
  rule "┌" "┬" "┐" widths ++ renderRow widths table.titles ++ between
    ++ between.intercalate (table.rows.map (renderRow widths))
    ++ rule "└" "┴" "┘" widths

end Table

end TrackerQuery.Report
