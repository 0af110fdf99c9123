import Mathlib
import ScanPlan.Proofs.PlanCoverage
import ScanPlan.Proofs.SplitDelivery
import ScanPlan.Proofs.StoredRows

/-!
# Conservation of rows

A plan is delivered from a store of tables. Main statement: every stored row with a key in
reach of the plan is handed over exactly once, with a split that holds its key, and no
other row is.
-/

namespace ScanPlan.Proofs.RowConservation

open ScanPlan.Proofs.KeyValue
open ScanPlan.Proofs.PlanCoverage
open ScanPlan.Proofs.SplitDelivery
open ScanPlan.Proofs.StoredRows

section Shares

variable {α β : Type} [DecidableEq β] {share : α → β → Bool}

theorem count_filter_eq (p : β → Bool) (bs : List β) (b : β) :
    (bs.filter p).count b = (if p b then 1 else 0) * bs.count b := by
  split
  · rename_i hp
    rw [List.count_filter hp, Nat.one_mul]
  · rename_i hp
    rw [Nat.zero_mul, List.count_eq_zero]
    intro hmem
    exact hp (List.mem_filter.mp hmem).2

theorem count_flatMap_filter (as : List α) (bs : List β) (b : β) :
    (as.flatMap fun a => bs.filter (share a)).count b =
      as.countP (fun a => share a b) * bs.count b := by
  induction as with
  | nil => simp
  | cons a as ih =>
      rw [List.flatMap_cons, List.count_append, ih, count_filter_eq, List.countP_cons,
        Nat.add_comm, Nat.add_mul]

/-- Shares that hold some things exactly once, and others not at all, make up what is
wanted of a list. -/
theorem perm_flatMap_filter {wanted : β → Bool} {as : List α}
    (h : ∀ b, as.countP (fun a => share a b) = if wanted b then 1 else 0) (bs : List β) :
    (as.flatMap fun a => bs.filter (share a)).Perm (bs.filter wanted) := by
  rw [List.perm_iff_count]
  intro b
  rw [count_flatMap_filter, count_filter_eq, h]

end Shares

theorem countP_keyed {splits : List Split} {p : Key → Bool} (column : String)
    (h : ∀ k, splits.countP (·.contains k) = if p k then 1 else 0) (row : Row) :
    splits.countP (fun s => keyed column s.contains row) = if keyed column p row then 1 else 0 := by
  cases hk : keyIn column row with
  | none => simp [keyed, hk]
  | some k =>
      simp only [keyed, hk, Option.any_some]
      exact h k

section Delivery

variable {store : Store} {p column : String} {l : Location} {splits : List Split}

def shareOf (store : Store) (l : Location) (column : String) (s : Split) : List Row :=
  (rowsOf (inNameOrder (tablesAt store l))).filter (keyed column s.contains)

theorem outcome_deliver_store (hstore : Holds store p l column) (hp : p ≠ "")
    (hset : ∀ s ∈ splits, s.partitionSet = some p) {callback : Callback Row}
    (hcallback : ∀ i n row, callback i n row = none) {workers : Int} (hworkers : 1 ≤ workers)
    (batchSize : Nat) :
    (deliver (store.executor column batchSize) callback workers splits).outcome =
      .ok (splits.map fun s => completed s (shareOf store l column s)) := by
  apply outcome_deliver hcallback hworkers hp hset
  intro s _
  exact outcome_executor hstore batchSize s.range

theorem shares_perm {wanted : Key → Bool} (store : Store) (l : Location) (column : String)
    (h : ∀ k, splits.countP (·.contains k) = if wanted k then 1 else 0) :
    (splits.flatMap (shareOf store l column)).Perm
      ((rowsAt store l).filter (keyed column wanted)) :=
  (perm_flatMap_filter (countP_keyed column h) _).trans
    ((rowsOf_inNameOrder_perm store l).filter _)

theorem keyIn_of_mem_shareOf {s : Split} {row : Row} (h : row ∈ shareOf store l column s) :
    ∃ k, keyIn column row = some k ∧ s.contains k = true :=
  keyed_iff.mp (List.mem_filter.mp h).2

def rowsInReach (store : Store) (l : Location) (column : String) (first low high : Key) :
    List Row :=
  (rowsAt store l).filter (keyed column fun k => decide (InReach first low high k))

/-- Splits of a stored partition set that contain the keys in a reach once each, and no others. -/
structure Covering (store : Store) (p column : String) (l : Location) (splits : List Split)
    (first low high : Key) : Prop where
  holds : Holds store p l column
  named : p ≠ ""
  sets : ∀ s ∈ splits, s.partitionSet = some p
  countP_eq : ∀ k, splits.countP (·.contains k) =
    if decide (InReach first low high k) then 1 else 0

theorem covering_of_plan {q : Query} {engine : Engine} {topology : Topology}
    {scans : List Scan} {first low high : Key} {rest : List Key}
    (hplan : (plan q engine topology).outcome = .ok splits)
    (hscans : (engine.scans q).read = .ok scans) (hne : scans ≠ [])
    (hset : ∀ s ∈ scans, s.partitionSet = p)
    (hlist : (topology.boundaries p).read = .ok (first :: rest))
    (hlow : IsLeast {k : Key | k ∈ scans.map (·.first)} low)
    (hhigh : IsGreatest {k : Key | k ∈ scans.map (·.last)} high)
    (hp : p ≠ "") (hstore : Holds store p l column) :
    Covering store p column l splits first low high where
  holds := hstore
  named := hp
  sets := fun s hs => (partitionSet_of_plan hplan hscans hne hset hlist hlow hhigh s hs).1
  countP_eq := by
    intro k
    simp only [countP_contains_of_plan hplan hscans hne hset hlist hlow hhigh,
      decide_eq_true_eq]

/-- Outcomes of splits that hand over the rows in a reach once each, and no others. -/
structure Conserved (store : Store) (column : String) (l : Location) (splits : List Split)
    (first low high : Key) (outcomes : List (Outcome Row)) : Prop where
  splits_eq : outcomes.map (·.split) = splits
  perm : (outcomes.flatMap (·.handed)).Perm (rowsInReach store l column first low high)
  contained : ∀ o ∈ outcomes, o.isOk = true ∧
    ∀ row ∈ o.handed, ∃ k, keyIn column row = some k ∧ o.split.contains k = true
  sum_eq : (outcomes.map (·.rows)).sum = (rowsInReach store l column first low high).length

theorem Covering.exists_conserved {first low high : Key} {callback : Callback Row}
    {workers : Int} (h : Covering store p column l splits first low high)
    (hcallback : ∀ i n row, callback i n row = none) (hworkers : 1 ≤ workers)
    (batchSize : Nat) :
    ∃ outcomes, (deliver (store.executor column batchSize) callback workers splits).outcome =
      .ok outcomes ∧ Conserved store column l splits first low high outcomes := by
  have hperm : (splits.flatMap (shareOf store l column)).Perm
      (rowsInReach store l column first low high) := shares_perm store l column h.countP_eq
  refine ⟨_, outcome_deliver_store h.holds h.named h.sets hcallback hworkers batchSize, ?_⟩
  constructor
  case splits_eq =>
      rw [List.map_map]
      exact List.map_id splits
  case perm =>
      rw [List.flatMap_map]
      exact hperm
  case contained =>
      intro o ho
      obtain ⟨s, -, rfl⟩ := List.mem_map.mp ho
      exact ⟨rfl, fun row hrow => keyIn_of_mem_shareOf hrow⟩
  case sum_eq =>
      rw [← hperm.length_eq, List.length_flatMap, List.map_map]
      rfl

/-- A plan that is delivered from a store, to a callback that takes every row, hands over
every stored row with a key in its reach exactly once, with a split that holds the key,
and no other row. -/
theorem rows_handed_over_once {q : Query} {engine : Engine} {topology : Topology}
    {scans : List Scan} {first low high : Key} {rest : List Key} {callback : Callback Row}
    {workers : Int} (hplan : (plan q engine topology).outcome = .ok splits)
    (hscans : (engine.scans q).read = .ok scans) (hne : scans ≠ [])
    (hset : ∀ s ∈ scans, s.partitionSet = p)
    (hlist : (topology.boundaries p).read = .ok (first :: rest))
    (hlow : IsLeast {k : Key | k ∈ scans.map (·.first)} low)
    (hhigh : IsGreatest {k : Key | k ∈ scans.map (·.last)} high)
    (hp : p ≠ "") (hstore : Holds store p l column)
    (hcallback : ∀ i n row, callback i n row = none) (hworkers : 1 ≤ workers)
    (batchSize : Nat) :
    ∃ outcomes, (deliver (store.executor column batchSize) callback workers splits).outcome =
        .ok outcomes ∧
      outcomes.map (·.split) = splits ∧
      (outcomes.flatMap (·.handed)).Perm (rowsInReach store l column first low high) ∧
      (∀ o ∈ outcomes, o.isOk = true ∧
        ∀ row ∈ o.handed, ∃ k, keyIn column row = some k ∧ o.split.contains k = true) ∧
      (outcomes.map (·.rows)).sum = (rowsInReach store l column first low high).length := by
  obtain ⟨outcomes, hdeliver, hrows⟩ := (covering_of_plan hplan hscans hne hset hlist hlow
    hhigh hp hstore).exists_conserved hcallback hworkers batchSize
  exact ⟨outcomes, hdeliver, hrows.splits_eq, hrows.perm, hrows.contained, hrows.sum_eq⟩

end Delivery

def twoTables : Store where
  root := "root"
  nodes := [([], .directory), (["p"], .directory),
    (["p", "b.parquet"], .table ⟨["key", "n"],
      [[.key [0x03, 0xFF], .integer 1], [.key [0x00, 0x30], .integer 2]]⟩),
    (["p", "a.parquet"], .table ⟨["key", "n"],
      [[.key [0x01, 0x07], .integer 3], [.key [0x03, 0xFF], .integer 1],
        [.key [0x04], .integer 4]]⟩)]
  distinct := by decide

theorem holds_twoTables : Holds twoTables "p" ["p"] "key" where
  place := by cbv
  tables := by
    intro name node hmem _
    simp only [twoTables, List.mem_cons, Prod.mk.injEq] at hmem
    rcases hmem with ⟨h, -⟩ | ⟨h, -⟩ | ⟨-, rfl⟩ | ⟨-, rfl⟩ | h
    · cases h
    · cases h
    · exact ⟨_, rfl⟩
    · exact ⟨_, rfl⟩
    · cases h
  keys := by
    intro row hrow
    have hkeys : ∀ row ∈ rowsAt twoTables ["p"], (keyIn "key" row).isSome = true := by
      decide +kernel
    exact Option.isSome_iff_exists.mp (hkeys row hrow)

theorem rows_handed_over_once_twoTables :
    ∃ splits outcomes, (plan ⟨"q", .empty⟩ (fixedEngine twoScans)
        (fixedTopology [[], [0x02, 0x90], [0x03, 0x10]])).outcome = .ok splits ∧
      (deliver (twoTables.executor "key" 2) (fun _ _ _ => none) 4 splits).outcome =
        .ok outcomes ∧
      (outcomes.flatMap (·.handed)).Perm
        [[("key", .key [0x03, 0xFF]), ("n", .integer 1)],
          [("key", .key [0x01, 0x07]), ("n", .integer 3)],
          [("key", .key [0x03, 0xFF]), ("n", .integer 1)]] ∧
      (outcomes.map (·.rows)).sum = 3 := by
  have hscans : ((fixedEngine twoScans).scans ⟨"q", .empty⟩).read = .ok twoScans :=
    read_ok_map_ok twoScans
  have hlist : ((fixedTopology [[], [0x02, 0x90], [0x03, 0x10]]).boundaries "p").read =
      .ok [[], [0x02, 0x90], [0x03, 0x10]] := read_ok_map_ok _
  have hset : ∀ s ∈ twoScans, s.partitionSet = "p" := by decide
  have hrows : rowsInReach twoTables ["p"] "key" [] [0x00, 0x40] [0x03] =
      [[("key", .key [0x03, 0xFF]), ("n", .integer 1)],
        [("key", .key [0x01, 0x07]), ("n", .integer 3)],
        [("key", .key [0x03, 0xFF]), ("n", .integer 1)]] := by decide +kernel
  obtain ⟨splits, hplan⟩ := exists_plan (g := 1) hscans (by decide) hset (by decide) hlist
    (by decide) (fun _ => ⟨none, rfl⟩)
  obtain ⟨outcomes, hdeliver, -, hperm, -, hsum⟩ := rows_handed_over_once hplan
    hscans (by decide) hset hlist isLeast_twoScans isGreatest_twoScans (by decide)
    holds_twoTables (fun _ _ _ => rfl) (show (1 : Int) ≤ 4 by decide) 2
  rw [hrows] at hperm hsum
  exact ⟨splits, outcomes, hplan, hdeliver, hperm, hsum⟩

end ScanPlan.Proofs.RowConservation
