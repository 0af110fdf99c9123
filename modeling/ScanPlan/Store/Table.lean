import ScanPlan.Named
import ScanPlan.Rows.Source

namespace ScanPlan

inductive Cell where
  | null
  | key (k : Key)
  | integer (n : Int)
  | text (s : String)
  | boolean (b : Bool)
  deriving DecidableEq, Repr

def Cell.kind : Cell → ValueKind
  | null => .null
  | key _ => .bytes
  | integer _ => .integer
  | text _ => .text
  | boolean _ => .boolean

abbrev Row := List (String × Cell)

/-- The row of cells in columns. Of columns with one name the first gives the place
and the last gives the cell. -/
def Row.ofCells (columns : List String) (cells : List Cell) : Row :=
  Named.ofList (columns.zip cells)

/-- A table, whose rows hold their cells in the order of the columns. -/
structure Table where
  columns : List String
  cells : List (List Cell)
  deriving DecidableEq, Repr

/-- The rows of a table in stored order. A table without columns has none. -/
def Table.rows (t : Table) : List Row :=
  if t.columns.isEmpty then [] else t.cells.map (Row.ofCells t.columns)

/-- Cuts a list into batches of a size, which counts as one when it is zero. -/
def batches {α : Type} (size : Nat) : List α → List (List α)
  | [] => []
  | a :: rest => (a :: rest.take (size - 1)) :: batches size (rest.drop (size - 1))
termination_by xs => xs.length
decreasing_by
  simp only [List.length_drop, List.length_cons]
  omega

theorem flatten_batches {α : Type} (size : Nat) (xs : List α) :
    (batches size xs).flatten = xs := by
  fun_induction batches size xs with
  | case1 => rfl
  | case2 a rest ih => simp [ih]

def picks (range : Interval) (k : Key) : Bool :=
  if k < range.start then false else !Interval.endsBy k range.stop

/-- What is found under the name of a table: a table, or a directory where it is not
there. -/
structure Entry where
  name : String
  path : String
  table? : Option Table
  deriving DecidableEq, Repr

def Entry.rows (batchSize : Nat) (e : Entry) : List (Except Failure Row) :=
  match e.table? with
  | some t => (batches batchSize t.rows).flatten.map .ok
  | none => [.error (.directoryForTable e.path)]

structure Reader where
  entries : List Entry
  keyColumn : String
  deriving DecidableEq, Repr

namespace Reader

def admits (column : String) (range : Interval) (row : Row) : Except Failure Bool :=
  match row.lookup column with
  | none => .error (.missingColumn column)
  | some (.key k) => .ok (picks range k)
  | some c => .error (.incomparableKey c.kind)

/-- The rows that are picked, up to the first that cannot be read or has no key. -/
def pick (column : String) (range : Interval) : List (Except Failure Row) → List (Item Row)
  | [] => []
  | .error f :: _ => [.fails f]
  | .ok row :: rest =>
      match admits column range row with
      | .error f => [.fails f]
      | .ok true => .row row :: pick column range rest
      | .ok false => pick column range rest

def rows (r : Reader) (batchSize : Nat) : List (Except Failure Row) :=
  r.entries.flatMap (Entry.rows batchSize)

def items (r : Reader) (batchSize : Nat) (range : Interval) : List (Item Row) :=
  pick r.keyColumn range (r.rows batchSize)

end Reader

end ScanPlan
