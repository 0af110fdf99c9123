import ScanPlan.Alignment
import ScanPlan.Partitioning.Catalog

/-!
# Planning

A query becomes splits in stages: an engine prepares its scans, the scans give its
extent, a topology lists the boundaries of the partition set, and the extent is
cut along them with a host for each split. The first stage that fails decides, and
no later stage is entered.
-/

namespace ScanPlan

/-- A sequence that is produced while it is read. It fails at once, or it yields
items of which one may be a failure. -/
abbrev Feed (α : Type) := Except Failure (List (Except Failure α))

def Feed.read {α : Type} (feed : Feed α) : Except Failure (List α) :=
  feed.bind fun items => items.mapM id

structure Engine where
  scans : Query → Feed Scan

structure Topology where
  boundaries : String → Feed Key
  host : String → Key → Except Failure (Option String)

def Catalog.topology (c : Catalog) : Topology where
  boundaries p := (c.boundaries p).map fun ks => ks.map .ok
  host p k := c.host p k

namespace Planning

/-- The failure of a collaborator as the planner reports it. A failure of the
library's own kinds stays as it is. -/
def ascribe (task : Task) (f : Failure) : Failure :=
  if f.family?.isSome then f else .wrapped task f

def guarded {α : Type} (task : Task) (answer : Except Failure α) : Except Failure α :=
  answer.mapError (ascribe task)

def prepare (engine : Engine) (q : Query) : Run (List Scan) :=
  .ask (.prepare q) (guarded .prepare (engine.scans q).read)

def unite (scans : List Scan) : Run Extent := do
  let x ← .ofExcept (Extent.ofScans? scans)
  .report (.extentFound x)
  pure x

def listBoundaries (topology : Topology) (p : String) : Run (List Key) :=
  .ask (.listBoundaries p) (guarded (.listBoundaries p) (topology.boundaries p).read)

def locator (topology : Topology) (p : String) : Locate :=
  fun k => guarded (.resolveHost p) (topology.host p k)

end Planning

open Planning in
def plan (q : Query) (engine : Engine) (topology : Topology) : Run (List Split) := do
  let scans ← prepare engine q
  if scans = [] then
    .report .nothingToPlan
    pure []
  else
    let x ← unite scans
    let boundaries ← listBoundaries topology x.partitionSet
    let splits ← x.align boundaries x.groupLength (some (locator topology x.partitionSet))
    .report (.planned splits.length scans.length x.partitionSet)
    pure splits

end ScanPlan
