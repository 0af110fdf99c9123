import ScanPlan.Interval

namespace ScanPlan

/-- An interval of keys of one partition set that one worker reads on its own, with the host that
is expected to serve it. The partition set can be missing when a split arrives from elsewhere. -/
structure Split where
  host : Option String
  partitionSet : Option String
  range : Interval
  deriving DecidableEq, Repr

namespace Split

def contains (s : Split) (k : Key) : Bool :=
  s.range.contains k

def text (s : Split) : String :=
  let set := s.partitionSet.getD "None"
  let host := match s.host with
    | none | some "" => "?"
    | some h => h
  s!"Split({set}@{host} [{s.range.start.text}, {Key.endText s.range.stop}))"

end Split

end ScanPlan
