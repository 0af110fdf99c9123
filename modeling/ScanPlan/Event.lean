import ScanPlan.Extent

namespace ScanPlan

inductive Level where
  | debug
  | info
  | warning
  | error
  deriving DecidableEq, Repr

inductive Event where
  | extentFound (extent : Extent)
  | startUncovered (partitionSet : String) (first : Key)
  | collapsed (start boundary : Key)
  | aligned (splits partitions : Nat) (extent : Extent)
  | nothingToPlan
  | planned (splits scans : Nat) (partitionSet : String)
  | tablesFound (partitionSet : String) (tables : Nat)
  | opened (split : Split)
  | closed (split : Split) (rows : Nat)
  | broken (split : Split) (rows : Nat) (cause : Failure)
  | delivered (rows splits broken : Nat)
  deriving DecidableEq, Repr

namespace Event

def level : Event → Level
  | startUncovered _ _ => .warning
  | aligned _ _ _ => .info
  | nothingToPlan => .info
  | planned _ _ _ => .info
  | broken _ _ _ => .error
  | delivered _ _ _ => .info
  | _ => .debug

def text : Event → String
  | extentFound x => s!"Overall range for {x.partitionSet}: {x.text}"
  | startUncovered p k =>
      s!"First partition of {p} starts at {k.text}, keys before it are not covered"
  | collapsed start boundary =>
      s!"Collapsing degenerate split at {start.text} (boundary {boundary.text})"
  | aligned splits partitions x =>
      s!"Planned {splits} splits over {partitions} partitions of {x.partitionSet} for {x.text}"
  | nothingToPlan => "Query prepared to no scan ranges, nothing to plan"
  | planned splits scans p => s!"Planned {splits} splits from {scans} scan ranges on {p}"
  | tablesFound p tables => s!"Executing {p} over {tables} parquet files"
  | opened s => s!"Opened {s.text}"
  | closed s rows => s!"Closed {s.text} after {rows} rows"
  | broken s rows cause => s!"Split {s.text} failed after {rows} rows: {cause.message}"
  | delivered rows splits failed =>
      s!"Streamed {rows} rows from {splits} splits ({failed} failed)"

end Event

end ScanPlan
