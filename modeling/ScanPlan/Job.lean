import ScanPlan.Delivery
import ScanPlan.Planning

namespace ScanPlan

/-- A query with all that it takes to run it. -/
structure Job (ρ : Type) where
  query : Query
  engine : Engine
  topology : Topology
  execute : Executor ρ
  workers : Int

namespace Job

variable {ρ : Type}

def splits (j : Job ρ) : Run (List Split) :=
  plan j.query j.engine j.topology

def run (j : Job ρ) (callback : Callback ρ) : Run (List (Outcome ρ)) := do
  let splits ← j.splits
  deliver j.execute callback j.workers splits

end Job

end ScanPlan
