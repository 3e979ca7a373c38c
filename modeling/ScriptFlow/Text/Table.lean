/-!
# Tables with elastic columns

Text in which cells end at tabs, laid out in columns. A column is a run of consecutive lines that
have a tab-terminated cell at the same position; it is as wide as its widest cell and a gap of two
spaces. The text after the last tab of a line belongs to no column.

A line without any tab, and a line ended by a form feed, close the table: the lines after it are
laid out on their own.
-/

namespace ScriptFlow.Text.Table

/-- The cells of a line; the last one is the text after the last tab. -/
abbrev Line := List (List Char)

/-- The space between two columns. -/
def gap : Nat := 2

/-! ## Cells and lines -/

/-- How a cell ends. -/
inductive Stop
  | cell
  | line
  | page
deriving DecidableEq, Repr

/-- The characters that end a cell. -/
def stop? (c : Char) : Option Stop :=
  match c with
  | '\t' | '\x0b' => some .cell
  | '\n' => some .line
  | '\x0c' => some .page
  | _ => none

/-- Splits a text into blocks of lines. The accumulators hold, last first, the characters of the
cell, the cells of the line and the lines of the block being read; the flag of a block tells
whether its last line is ended. -/
def blocksFrom : List Char → Line → List Line → List Char → List (List Line × Bool)
  | cell, cells, lines, [] =>
    if cell.isEmpty then
      if cells.isEmpty then
        -- Nothing stands after the last line end.
        if lines.isEmpty then [] else [(lines.reverse, true)]
      else [((cells.reverse :: lines).reverse, false)]
    else [(((cell.reverse :: cells).reverse :: lines).reverse, false)]
  | cell, cells, lines, c :: rest =>
    match stop? c with
    | none => blocksFrom (c :: cell) cells lines rest
    | some .cell => blocksFrom [] (cell.reverse :: cells) lines rest
    | some .line =>
      let line := (cell.reverse :: cells).reverse
      -- A line of one cell closes the block it ends.
      if cells.isEmpty then ((line :: lines).reverse, true) :: blocksFrom [] [] [] rest
      else blocksFrom [] [] (line :: lines) rest
    | some .page =>
      let line := (cell.reverse :: cells).reverse
      ((line :: lines).reverse, true) :: blocksFrom [] [] [] rest

/-! ## Column widths -/

/-- The largest value met so far in the run being read; lines without a value end the run. -/
def runningMax : Nat → List (Option Nat) → List Nat
  | _, [] => []
  | _, none :: rest => 0 :: runningMax 0 rest
  | best, some n :: rest => max best n :: runningMax (max best n) rest

/-- For every line the largest value in the run of consecutive values it belongs to. -/
def runMax (values : List (Option Nat)) : List Nat :=
  List.zipWith max (runningMax 0 values) (runningMax 0 values.reverse).reverse

/-- The length of cell `j` of a line, if it is ended by a tab. -/
def cellWidth (j : Nat) (cells : Line) : Option Nat :=
  if j + 1 < cells.length then (cells[j]?).map List.length else none

/-- For every line the width of the text in the column of its cell `j`. -/
def columnWidths (lines : List Line) (j : Nat) : List Nat :=
  runMax (lines.map (cellWidth j))

/-! ## Layout -/

/-- A cell followed by spaces up to a width. -/
def padTo (width : Nat) (cell : List Char) : List Char :=
  cell ++ List.replicate (width - cell.length) ' '

/-- A line with its cells padded to the given widths; the last cell is left as it is. -/
def layLine : Line → List Nat → List Char
  | [], _ => []
  | [cell], _ => cell
  | cell :: rest, [] => cell ++ layLine rest []
  | cell :: rest, w :: ws => padTo (w + gap) cell ++ layLine rest ws

/-- The widths of the columns of each line. -/
def widthsOf (lines : List Line) : List (List Nat) :=
  let columns := (lines.map List.length).foldl max 0
  let table := (List.range columns).map (columnWidths lines)
  (List.range lines.length).map fun i => table.map fun ws => (ws[i]?).getD 0

/-- The lines of a block as they are shown. -/
def layBlock (lines : List Line) : List (List Char) :=
  List.zipWith layLine lines (widthsOf lines)

/-- A block as text; a last line that is not ended stays so. -/
def showBlock (block : List Line × Bool) : List Char :=
  let body := ['\n'].intercalate (layBlock block.1)
  if block.2 then body ++ ['\n'] else body

/-- A text with its cells laid out in columns. -/
def layout (text : String) : String :=
  String.ofList ((blocksFrom [] [] [] text.toList).flatMap showBlock)

end ScriptFlow.Text.Table
