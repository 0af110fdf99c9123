import ScanPlan.Interval
import ScanPlan.Key.Group
import ScanPlan.Partitioning
import ScanPlan.Run

/-!
# Alignment

An extent is cut into splits along the partitions of a table, where each cut is
moved to a group boundary. One pass goes over the boundaries after the first. A
cut that does not lie after the one before it is dropped, so that its partition
joins the next one. The pass ends early at a cut that has no group boundary and at
a cut past the end of the extent. Each split then gets the host of its start.
-/

namespace ScanPlan

/-- Finds the host that serves a key, if one is known. -/
abbrev Locate := Key → Except Failure (Option String)

namespace Alignment

inductive Step where
  | collapsed (start boundary : Key)
  | cut (range : Interval)
  deriving DecidableEq, Repr

def emit (frame candidate : Interval) : List Step :=
  match candidate.clip frame with
  | none => []
  | some r => [.cut r]

/-- The pass over the boundaries that follow `start`. -/
def walk (g : Nat) (frame : Interval) (start : Key) : List Key → List Step
  | [] => emit frame ⟨start, none⟩
  | b :: rest =>
      match b.nearestGroup g with
      | none => emit frame ⟨start, none⟩
      | some e =>
          if e ≤ start then .collapsed start b :: walk g frame start rest
          else
            emit frame ⟨start, some e⟩ ++
              if Interval.endsBy e frame.stop then [] else walk g frame e rest

def steps? (p : Partitioning) (g : Int) (frame : Interval) : Except Failure (List Step) :=
  if g < 0 ∧ p.rest ≠ [] then .error (.negativeGroupLength g)
  else .ok (walk g.toNat frame p.first p.rest)

def hostOf (partitionSet : String) (locate : Option Locate) (k : Key) : Run (Option String) :=
  match locate with
  | none => pure none
  | some f => .ask (.resolveHost partitionSet k) (f k)

def assign (partitionSet : String) (locate : Option Locate) : List Step → Run (List Split)
  | [] => pure []
  | .collapsed start b :: rest => do
      .report (.collapsed start b)
      assign partitionSet locate rest
  | .cut r :: rest => do
      let host ← hostOf partitionSet locate r.start
      let others ← assign partitionSet locate rest
      pure (⟨host, some partitionSet, r⟩ :: others)

end Alignment

namespace Extent

open ScanPlan.Alignment

def reportUncovered (x : Extent) (p : Partitioning) : Run Unit :=
  if Partitioning.coversStart p.boundaries then pure ()
  else .report (.startUncovered x.partitionSet p.first)

def alignTo (x : Extent) (p : Partitioning) (g : Int) (locate : Option Locate) :
    Run (List Split) := do
  x.reportUncovered p
  let steps ← .ofExcept (steps? p g x.range)
  let splits ← assign x.partitionSet locate steps
  .report (.aligned splits.length p.boundaries.length x)
  pure splits

/-- Cuts an extent along boundaries, which have to cut a table. -/
def align (x : Extent) (boundaries : List Key) (g : Int) (locate : Option Locate) :
    Run (List Split) :=
  match Partitioning.ofList? boundaries with
  | .error d => .fail (.badBoundaries x.partitionSet d)
  | .ok p => x.alignTo p g locate

end Extent

end ScanPlan
