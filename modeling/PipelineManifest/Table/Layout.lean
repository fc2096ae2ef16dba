import PipelineManifest.Table.Markup
import PipelineManifest.Table.Wrap

/-!
# `PipelineManifest.Table.Layout`: tables in frames

A table has a heavy frame around its titles and a light one around its rows. A column is as
wide as its longest cell, with a blank on each side. When the table is too wide, the widest
columns are narrowed until it fits.

* `Column`, `Table`: a column, and a table of texts.
* `narrow`: the widths of columns that have to fit.
* `Table.render?`: the lines of a table; nothing if a cell is not well marked up.
-/

set_option autoImplicit false

namespace PipelineManifest

/-- A column of a table. -/
structure Column where
  title : String
  rightAligned : Bool := false

/-- A table of marked-up texts. -/
structure Table where
  columns : List Column
  rows : List (List String)

namespace Table

/-! ### Widths -/

/-- A quotient rounded to the nearest whole number, a tie to the even one. -/
def roundedQuotient (a b : Nat) : Nat :=
  let q := a / b
  let r := a % b
  if 2 * r < b || (2 * r = b && q % 2 = 0) then q else q + 1

/-- Takes `excess` from the columns of width `widest`, `count` in all, in shares as equal as can
be and of `most` at most. -/
def takeShares (widest most : Nat) : (excess count : Nat) → List Nat → List Nat
  | _, _, [] => []
  | excess, count, w :: ws =>
    if w = widest then
      let share := min most (roundedQuotient excess count)
      (w - share) :: takeShares widest most (excess - share) (count - 1) ws
    else w :: takeShares widest most excess count ws

/-- Narrows the widest columns as far as the next widest one, step by step, until all of them
fit into `width`. Every step takes a column of blanks at least. -/
def narrowBy (width : Nat) : (fuel : Nat) → List Nat → List Nat
  | 0, ws => ws
  | fuel + 1, ws =>
    let excess := ws.foldl (· + ·) 0 - width
    if excess = 0 then ws
    else
      let widest := ws.foldl max 0
      -- Once they are as wide as the next column, that one takes part as well.
      let second := (ws.filter (· ≠ widest)).foldl max 0
      let most := min excess (widest - second)
      narrowBy width fuel (takeShares widest most excess (ws.count widest) ws)

/-- The widths of columns that have to fit into `width`. -/
def narrow (width : Nat) (ws : List Nat) : List Nat := narrowBy width (ws.foldl (· + ·) 0) ws

/-! ### Frames -/

/-- The characters of a line of the frame. -/
structure Rule where
  left : Char
  fill : Char
  cross : Char
  right : Char

/-- The line above the titles. -/
def topRule : Rule := ⟨'┏', '━', '┳', '┓'⟩

/-- The line between the titles and the rows. -/
def headRule : Rule := ⟨'┡', '━', '╇', '┩'⟩

/-- The line below the rows. -/
def bottomRule : Rule := ⟨'└', '─', '┴', '┘'⟩

/-- Parts with a character between them and at both ends. -/
def framed (left cross right : Char) (parts : List (List Char)) : String :=
  String.ofList (left :: [cross].intercalate parts ++ [right])

/-- A line of the frame. -/
def Rule.render (r : Rule) (widths : List Nat) : String :=
  framed r.left r.cross r.right (widths.map fun w => List.replicate w r.fill)

/-- The blank on each side of a cell. -/
def padding : Nat := 1

/-- The lines of a cell in a column. -/
def paddedLines (c : Column) (width : Nat) (cs : List Char) : List (List Char) :=
  (cellLines c.rightAligned (width - 2 * padding) cs).map fun line => ' ' :: line ++ [' ']

/-- The lines of a row. Cells with fewer lines than others are filled up below. -/
def rowLines (bar : Char) (columns : List Column) (widths : List Nat)
    (cells : List (List Char)) : List String :=
  let blocks := ((columns.zip widths).zip cells).map fun ((c, w), cs) => (w, paddedLines c w cs)
  let height := (blocks.map (·.2.length)).foldl max 1
  (List.range height).map fun i =>
    framed bar bar bar (blocks.map fun (w, lines) => lines.getD i (List.replicate w ' '))

/-- The lines of a table on a terminal of the given width. -/
def render? (t : Table) (terminal : Nat) : Option (List String) := do
  let titles ← t.columns.mapM fun c => plainOf? c.title
  let rows ← t.rows.mapM fun row => row.mapM plainOf?
  let columnCells (i : Nat) := (titles :: rows).filterMap (·[i]?)
  let natural := (List.range t.columns.length).map fun i =>
    ((columnCells i).map naturalWidth).foldl max 0 + 2 * padding
  let widths := narrow (terminal - (t.columns.length + 1)) natural
  return [topRule.render widths]
    ++ rowLines '┃' t.columns widths titles
    ++ [headRule.render widths]
    ++ rows.flatMap (rowLines '│' t.columns widths)
    ++ [bottomRule.render widths]

end Table

end PipelineManifest
