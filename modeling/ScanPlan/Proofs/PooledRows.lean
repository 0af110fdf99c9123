import ScanPlan.Proofs.PooledDelivery
import ScanPlan.Proofs.SplitRows

namespace ScanPlan.Proofs.PooledRows

open ScanPlan.Proofs.PlanCoverage
open ScanPlan.Proofs.PooledDelivery
open ScanPlan.Proofs.PooledDelivery.Pool
open ScanPlan.Proofs.RowConservation
open ScanPlan.Proofs.SplitRows
open ScanPlan.Proofs.SplitWorker
open ScanPlan.Proofs.StoredRows

section Trace

variable {ρ : Type} {w : Work ρ} {pool : Pool ρ}

/-- The rows that the callback was given, in the order of the steps. -/
def givenRows (pool : Pool ρ) : List ρ :=
  Worker.rowsOf (pool.trace.flatMap (·.2))

theorem lt_of_mem_trace (h : Reachable w pool) : ∀ t ∈ pool.trace, t.1 < w.splits.length := by
  induction h with
  | initial => exact fun t ht => absurd ht List.not_mem_nil
  | step hpool hstep ih =>
      obtain ⟨i, s, worker, deeds, worker', hs, -, -, rfl, -⟩ :=
        hstep.exists_next hpool.sound.length_eq hpool.sound.running_le
      intro t ht
      rcases List.mem_append.mp ht with ht | ht
      · exact ih t ht
      · rw [List.mem_singleton.mp ht]
        exact (List.getElem?_eq_some_iff.mp hs).1

theorem countP_range_eq (n i : Nat) :
    (List.range n).countP (fun j => decide (i = j)) = if decide (i < n) then 1 else 0 := by
  have hcount : (List.range n).countP (fun j => decide (i = j)) = (List.range n).count i := by
    apply List.countP_congr
    intro j _
    rw [decide_eq_true_eq, beq_iff_eq, eq_comm]
  rw [hcount, List.nodup_range.count]
  simp only [List.mem_range, decide_eq_true_eq]

/-- The steps of a pool are those of its splits, in some order. -/
theorem deeds_perm [DecidableEq ρ] (h : Reachable w pool) :
    ((List.range w.splits.length).flatMap pool.deedsAt).Perm (pool.trace.flatMap (·.2)) := by
  have hall : pool.trace.filter (fun t => decide (t.1 < w.splits.length)) = pool.trace :=
    List.filter_eq_self.mpr fun t ht => decide_eq_true (lt_of_mem_trace h t ht)
  have hshares : ((List.range w.splits.length).flatMap fun i =>
      pool.trace.filter (·.1 = i)).Perm pool.trace := by
    have hperm := perm_flatMap_filter (fun t => countP_range_eq w.splits.length t.1) pool.trace
    rwa [hall] at hperm
  have hdeeds := hshares.flatMap_right (·.2)
  rwa [List.flatMap_assoc] at hdeeds

theorem handed_eq_of_sequential {outcomes : List (Outcome ρ)} (h : Sequential w pool outcomes) :
    outcomes.map (·.handed) =
      (List.range w.splits.length).map fun i => Worker.rowsOf (pool.deedsAt i) := by
  apply List.ext_getElem
  · rw [List.length_map, List.length_map, List.length_range, h.length_eq]
  · intro i hi _
    rw [List.length_map, h.length_eq] at hi
    obtain ⟨o, ho, halone⟩ := h.alone i _ (List.getElem?_eq_getElem hi)
    obtain ⟨_, hout⟩ := List.getElem?_eq_some_iff.mp ho
    rw [List.getElem_map, List.getElem_map, List.getElem_range, hout, halone.rows_eq]

theorem givenRows_perm [DecidableEq ρ] {outcomes : List (Outcome ρ)} (h : Reachable w pool)
    (hsequential : Sequential w pool outcomes) :
    (givenRows pool).Perm (outcomes.flatMap (·.handed)) := by
  have hhanded : outcomes.flatMap (·.handed) =
      Worker.rowsOf ((List.range w.splits.length).flatMap pool.deedsAt) := by
    rw [Worker.rowsOf, List.filterMap_flatMap, List.flatMap_def, List.flatMap_def,
      handed_eq_of_sequential hsequential]
    rfl
  rw [hhanded]
  exact ((deeds_perm h).filterMap Deed.row?).symm

end Trace

theorem conserved_of_completed {store : Store} {p column : String} {l : Location}
    {splits : List Split} {first low high : Key} {callback : Callback Row} {workers : Int}
    {b : Batching} {size : Nat} {pool : Pool Row} {outcomes : List (Outcome Row)}
    (hcovering : Covering store p column l splits first low high)
    (hcallback : ∀ i n row, callback i n row = none) (hworkers : 1 ≤ workers) (hsize : 1 ≤ size)
    (h : Reachable ⟨b.executor store column size, callback, splits, workers⟩ pool)
    (hdone : Completed pool outcomes) :
    Conserved store column l splits first low high outcomes ∧
      (givenRows pool).Perm (rowsInReach store l column first low high) := by
  have hsequential := hdone.sequential hworkers h
  have hconserved : Conserved store column l splits first low high outcomes := by
    obtain ⟨outcomes', hdeliver, hconserved⟩ :=
      hcovering.exists_conserved hcallback hworkers size
    rw [← b.executor_eq hsize store column size, hsequential.outcome_eq] at hdeliver
    cases hdeliver
    exact hconserved
  exact ⟨hconserved, (givenRows_perm h hsequential).trans hconserved.perm⟩

/-- A pool that delivers a plan comes to an end, and whatever order its steps have and however
the tables are cut into batches, the callback is given every stored row with a key in reach of
the plan exactly once, and no other row. -/
theorem conserved_of_plan {store : Store} {p column : String} {l : Location}
    {splits : List Split} {q : Query} {engine : Engine} {topology : Topology}
    {scans : List Scan} {first low high : Key} {rest : List Key} {callback : Callback Row}
    {workers : Int} (hplan : (plan q engine topology).outcome = .ok splits)
    (hscans : (engine.scans q).read = .ok scans) (hne : scans ≠ [])
    (hset : ∀ s ∈ scans, s.partitionSet = p)
    (hlist : (topology.boundaries p).read = .ok (first :: rest))
    (hlow : IsLeast {k : Key | k ∈ scans.map (·.first)} low)
    (hhigh : IsGreatest {k : Key | k ∈ scans.map (·.last)} high)
    (hp : p ≠ "") (hstore : Holds store p l column)
    (hcallback : ∀ i n row, callback i n row = none) (hworkers : 1 ≤ workers)
    (b : Batching) {size : Nat} (hsize : 1 ≤ size) :
    (∃ pool outcomes, Reachable ⟨b.executor store column size, callback, splits, workers⟩ pool ∧
        Completed pool outcomes) ∧
      ∀ pool outcomes,
        Reachable ⟨b.executor store column size, callback, splits, workers⟩ pool →
          Completed pool outcomes →
            Conserved store column l splits first low high outcomes ∧
              (givenRows pool).Perm (rowsInReach store l column first low high) := by
  have hcovering : Covering store p column l splits first low high :=
    covering_of_plan hplan hscans hne hset hlist hlow hhigh hp hstore
  refine ⟨exists_completed hworkers .initial, ?_⟩
  intro pool outcomes h hdone
  exact conserved_of_completed hcovering hcallback hworkers hsize h hdone

end ScanPlan.Proofs.PooledRows
