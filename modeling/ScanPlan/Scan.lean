import ScanPlan.Failure

namespace ScanPlan

/-- A closed range of keys that a query reads. -/
structure Scan where
  first : Key
  last : Key
  groupLength : Nat
  partitionSet : String
  ordered : first ≤ last
  deriving DecidableEq, Repr

def groupLength? (n : Int) : Except Failure Nat :=
  if n < 0 then .error (.negativeGroupLength n) else .ok n.toNat

/-- Makes a scan. The length of its groups is checked before its bounds. -/
def Scan.make? (first last : Key) (groupLength : Int) (partitionSet : String) :
    Except Failure Scan :=
  match groupLength? groupLength with
  | .error f => .error f
  | .ok g =>
      if ordered : first ≤ last then .ok ⟨first, last, g, partitionSet, ordered⟩
      else .error (.reversedScan first last)

end ScanPlan
