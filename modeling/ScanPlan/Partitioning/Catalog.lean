import ScanPlan.Failure

namespace ScanPlan

structure Partition where
  start : Key
  host : Option String
  deriving DecidableEq, Repr

def Partition.startsBy (p q : Partition) : Bool :=
  decide (p.start ≤ q.start)

theorem Partition.startsBy_trans (p q r : Partition) (h : p.startsBy q = true)
    (h' : q.startsBy r = true) : p.startsBy r = true := by
  simp only [startsBy, decide_eq_true_eq] at *
  exact List.le_trans h h'

theorem Partition.startsBy_total (p q : Partition) : (p.startsBy q || q.startsBy p) = true := by
  simpa [startsBy] using List.le_total p.start q.start

structure Layout where
  partitions : List Partition
  sorted : partitions.Pairwise fun p q => p.startsBy q = true
  deriving DecidableEq, Repr

namespace Layout

/-- A layout from partitions in any order. Partitions with one start keep theirs, so that the one
that was given last owns the keys. -/
def ofList (ps : List Partition) : Layout :=
  ⟨ps.mergeSort Partition.startsBy,
    List.pairwise_mergeSort Partition.startsBy_trans Partition.startsBy_total ps⟩

def boundaries (l : Layout) : List Key :=
  l.partitions.map (·.start)

/-- The partition that a key belongs to: the last one that starts at or before it. -/
def owner? (l : Layout) (k : Key) : Option Partition :=
  (l.partitions.takeWhile fun p => decide (p.start ≤ k)).getLast?

def host (l : Layout) (k : Key) : Option String :=
  (l.owner? k).bind (·.host)

end Layout

/-- The layouts of partition sets by name. Of two with one name the later counts. -/
structure Catalog where
  sets : List (String × Layout)
  deriving DecidableEq, Repr

namespace Catalog

def ofList (sets : List (String × List Partition)) : Catalog :=
  ⟨sets.map fun s => (s.1, Layout.ofList s.2)⟩

def layout (c : Catalog) (partitionSet : String) : Except Failure Layout :=
  match c.sets.reverse.lookup partitionSet with
  | some l => .ok l
  | none => .error (.unknownPartitionSet partitionSet)

def boundaries (c : Catalog) (partitionSet : String) : Except Failure (List Key) :=
  (c.layout partitionSet).map Layout.boundaries

def host (c : Catalog) (partitionSet : String) (k : Key) : Except Failure (Option String) :=
  (c.layout partitionSet).map (·.host k)

end Catalog

end ScanPlan
