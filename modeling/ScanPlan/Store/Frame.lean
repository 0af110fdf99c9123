import ScanPlan.Store.Precision
import ScanPlan.Store.Table

/-!
# Frames

A frame holds rows of different columns in one rectangle. Its columns are those of
its rows by first appearance, and a cell that a row does not have is null. A column
of integers and nulls is one of floating point, which rounds large integers. Without
rows the columns are those of the first table.
-/

namespace ScanPlan

structure Frame where
  columns : List String
  cells : List (List Cell)
  deriving DecidableEq, Repr

namespace Frame

def addNames (known names : List String) : List String :=
  names.foldl (fun known n => if known.contains n then known else known ++ [n]) known

def columnsOf (rows : List Row) : List String :=
  rows.foldl (fun known row => addNames known (row.map (·.1))) []

def cellOf (column : String) (row : Row) : Cell :=
  (row.lookup column).getD .null

def isFloating (cells : List Cell) : Bool :=
  cells.contains .null && cells.all fun c => c.kind = .integer || c.kind = .null

def rounded : Cell → Cell
  | .integer n => .integer (Precision.nearest n)
  | c => c

def line (columns floating : List String) (row : Row) : List Cell :=
  columns.map fun c => if floating.contains c then rounded (cellOf c row) else cellOf c row

/-- The frame of rows, of which there are some. -/
def ofRows (rows : List Row) : Frame :=
  let columns := columnsOf rows
  let floating := columns.filter fun c => isFloating (rows.map (cellOf c))
  ⟨columns, rows.map (line columns floating)⟩

end Frame

namespace Reader

def usualBatch : Nat := 10000

def emptyColumns (r : Reader) : List String :=
  match r.entries with
  | [] => [r.keyColumn]
  | e :: _ => (e.table?.map (·.columns)).getD []

def frame (r : Reader) (range : Interval) : Except Failure Frame :=
  match Item.collect none (r.items usualBatch range) with
  | (_, some f) => .error f
  | ([], none) => .ok ⟨r.emptyColumns, []⟩
  | (rows, none) => .ok (.ofRows rows)

end Reader

end ScanPlan
