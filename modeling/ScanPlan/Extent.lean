import ScanPlan.Key.Successor
import ScanPlan.Scan

namespace ScanPlan

/-- The interval of one partition set that a query reads. -/
structure Extent where
  range : Interval
  groupLength : Int
  partitionSet : String
  deriving DecidableEq, Repr

namespace Extent

def disagreement? (first scan : Scan) : Option Failure :=
  if scan.partitionSet ≠ first.partitionSet then
    some (.partitionSetsDiffer first.partitionSet scan.partitionSet)
  else if scan.groupLength ≠ first.groupLength then
    some (.groupLengthsDiffer first.groupLength scan.groupLength)
  else none

def spread (low high : Key) : List Scan → Key × Key
  | [] => (low, high)
  | s :: rest =>
      spread (if s.first < low then s.first else low)
        (if high < s.last then s.last else high) rest

/-- The extent of the scans of a query. It ends with the next key of the same
length after the greatest last key, or nowhere when there is none. -/
def ofScans? : List Scan → Except Failure Extent
  | [] => .error .noScans
  | s :: rest =>
      match rest.findSome? (disagreement? s) with
      | some f => .error f
      | none =>
          let (low, high) := spread s.first s.last rest
          .ok {
            range := ⟨low, Key.successor? high⟩
            groupLength := s.groupLength
            partitionSet := s.partitionSet }

def text (x : Extent) : String :=
  s!"[{x.range.start.text}, {Key.endText x.range.stop})"

end Extent

end ScanPlan
