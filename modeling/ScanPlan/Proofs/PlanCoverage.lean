import ScanPlan.Planning
import ScanPlan.Proofs.AlignedSplits
import ScanPlan.Proofs.ScanExtent

/-!
# What a plan covers

A plan over scans covers the keys from the first partition on that lie from the least
first key of the scans to the key after the greatest last one. Main statement: every
such key lies in exactly one split of the plan, and every other key in none.
-/

namespace ScanPlan.Proofs.PlanCoverage

open ScanPlan.Interval ScanPlan.Planning
open ScanPlan.Proofs.AlignedSplits
open ScanPlan.Proofs.IntervalTiling
open ScanPlan.Proofs.KeyValue
open ScanPlan.Proofs.ScanExtent
open ScanPlan.Proofs.SplitCuts

/-- Whether a plan over scans from `low` to `high` reaches a key, in a table whose
partitions begin with the one at `first`. -/
def InReach (first low high k : Key) : Prop :=
  first ≤ k ∧ low ≤ k ∧ BeforeNext high k

instance (first low high k : Key) : Decidable (InReach first low high k) :=
  inferInstanceAs (Decidable (_ ∧ _ ∧ _))

theorem guarded_eq_ok_iff {α : Type} (task : Task) (answer : Except Failure α) (a : α) :
    guarded task answer = .ok a ↔ answer = .ok a := by
  cases answer with
  | error f =>
      apply iff_of_false
      · rintro ⟨⟩
      · rintro ⟨⟩
  | ok b => exact Iff.rfl

theorem outcome_unite_eq_ok_iff (scans : List Scan) (x : Extent) :
    (unite scans).outcome = .ok x ↔ Extent.ofScans? scans = .ok x := by
  rw [unite, Run.outcome_bind_eq_ok]
  constructor
  · rintro ⟨y, hy, hlast⟩
    obtain ⟨_, -, hpure⟩ := Run.outcome_bind_eq_ok.mp hlast
    cases hpure
    exact hy
  · intro hx
    exact ⟨x, hx, Run.outcome_bind_eq_ok.mpr ⟨(), rfl, rfl⟩⟩

theorem outcome_plan_eq_ok_iff {q : Query} {engine : Engine} {topology : Topology}
    {scans : List Scan} {splits : List Split} (hscans : (engine.scans q).read = .ok scans)
    (hne : scans ≠ []) :
    (plan q engine topology).outcome = .ok splits ↔
      ∃ x boundaries, Extent.ofScans? scans = .ok x ∧
        (topology.boundaries x.partitionSet).read = .ok boundaries ∧
          (x.align boundaries x.groupLength
            (some (locator topology x.partitionSet))).outcome = .ok splits := by
  rw [plan, Run.outcome_bind_eq_ok]
  constructor
  · rintro ⟨scans', hprepare, h⟩
    rw [prepare, Run.outcome_ask, guarded_eq_ok_iff, hscans] at hprepare
    cases hprepare
    rw [if_neg hne] at h
    obtain ⟨x, hx, h⟩ := Run.outcome_bind_eq_ok.mp h
    obtain ⟨boundaries, hlist, h⟩ := Run.outcome_bind_eq_ok.mp h
    obtain ⟨splits', halign, h⟩ := Run.outcome_bind_eq_ok.mp h
    obtain ⟨_, -, hpure⟩ := Run.outcome_bind_eq_ok.mp h
    cases hpure
    exact ⟨x, boundaries, (outcome_unite_eq_ok_iff scans x).mp hx,
      (guarded_eq_ok_iff _ _ _).mp hlist, halign⟩
  · rintro ⟨x, boundaries, hx, hlist, halign⟩
    refine ⟨scans, (guarded_eq_ok_iff _ _ _).mpr hscans, ?_⟩
    rw [if_neg hne]
    exact Run.outcome_bind_eq_ok.mpr ⟨x, (outcome_unite_eq_ok_iff scans x).mpr hx,
      Run.outcome_bind_eq_ok.mpr ⟨boundaries, (guarded_eq_ok_iff _ _ _).mpr hlist,
        Run.outcome_bind_eq_ok.mpr ⟨splits, halign,
          Run.outcome_bind_eq_ok.mpr ⟨(), rfl, rfl⟩⟩⟩⟩

theorem answers_locator {topology : Topology} {p : String}
    (h : ∀ k, ∃ host, topology.host p k = .ok host) : Answers (some (locator topology p)) := by
  intro f hf k
  cases hf
  obtain ⟨host, hhost⟩ := h k
  exact ⟨host, (guarded_eq_ok_iff _ _ _).mpr hhost⟩

theorem countP_contains_of_reach {x : Extent} {first low high : Key} {rest : List Key}
    {g : Nat} {locate : Option Locate} {splits : List Split}
    (h : (x.align (first :: rest) g locate).outcome = .ok splits)
    (hrange : x.range = ⟨low, Key.successor? high⟩)
    (hframe : Before low (Key.successor? high)) (k : Key) :
    splits.countP (·.contains k) = if InReach first low high k then 1 else 0 := by
  have hreach : first ≤ k ∧ k ∈ x.range ↔ InReach first low high k := by
    rw [hrange, mem_iff, before_successor?_iff]
    exact Iff.rfl
  have hholds : Before x.range.start x.range.stop := by
    rw [hrange]
    exact hframe
  rw [countP_contains_of_align h hholds]
  simp only [hreach]

theorem contains_start_of_align {x : Extent} {boundaries : List Key} {g : Nat}
    {locate : Option Locate} {splits : List Split}
    (h : (x.align boundaries g locate).outcome = .ok splits)
    (hframe : Before x.range.start x.range.stop) :
    ∀ s ∈ splits, s.contains s.range.start = true := by
  obtain ⟨first, rest, rfl, -⟩ := splits_of_align h
  by_cases hfirst : Before first x.range.stop
  · intro s hs
    exact contains_iff.mpr ((tiling_of_align h hframe hfirst).start_mem s.range
      (List.mem_map.mpr ⟨s, hs, rfl⟩))
  · rw [eq_nil_of_align h hfirst]
    simp

section Plan

variable {q : Query} {engine : Engine} {topology : Topology} {scans : List Scan}
  {splits : List Split} {p : String} {first low high : Key} {rest : List Key}

theorem align_of_plan (hplan : (plan q engine topology).outcome = .ok splits)
    (hscans : (engine.scans q).read = .ok scans) (hne : scans ≠ [])
    (hset : ∀ s ∈ scans, s.partitionSet = p)
    (hlist : (topology.boundaries p).read = .ok (first :: rest))
    (hlow : IsLeast {k : Key | k ∈ scans.map (·.first)} low)
    (hhigh : IsGreatest {k : Key | k ∈ scans.map (·.last)} high) :
    ∃ (x : Extent) (g : Nat) (locate : Option Locate), x.partitionSet = p ∧
      x.range = ⟨low, Key.successor? high⟩ ∧
        (x.align (first :: rest) g locate).outcome = .ok splits := by
  obtain ⟨x, boundaries, hx, hlist', halign⟩ :=
    (outcome_plan_eq_ok_iff hscans hne).mp hplan
  obtain ⟨g, hg, hagree⟩ := agree_of_ofScans? hx
  obtain ⟨s, hs⟩ := List.exists_mem_of_ne_nil scans hne
  have hp : x.partitionSet = p := (hagree s hs).1.symm.trans (hset s hs)
  rw [hp, hlist] at hlist'
  cases hlist'
  rw [hg] at halign
  exact ⟨x, g, _, hp, range_of_ofScans? hx hlow hhigh, halign⟩

theorem countP_contains_of_plan (hplan : (plan q engine topology).outcome = .ok splits)
    (hscans : (engine.scans q).read = .ok scans) (hne : scans ≠ [])
    (hset : ∀ s ∈ scans, s.partitionSet = p)
    (hlist : (topology.boundaries p).read = .ok (first :: rest))
    (hlow : IsLeast {k : Key | k ∈ scans.map (·.first)} low)
    (hhigh : IsGreatest {k : Key | k ∈ scans.map (·.last)} high) (k : Key) :
    splits.countP (·.contains k) = if InReach first low high k then 1 else 0 := by
  obtain ⟨x, g, locate, -, hrange, halign⟩ :=
    align_of_plan hplan hscans hne hset hlist hlow hhigh
  exact countP_contains_of_reach halign hrange (before_of_bounds hlow hhigh) k

theorem partitionSet_of_plan (hplan : (plan q engine topology).outcome = .ok splits)
    (hscans : (engine.scans q).read = .ok scans) (hne : scans ≠ [])
    (hset : ∀ s ∈ scans, s.partitionSet = p)
    (hlist : (topology.boundaries p).read = .ok (first :: rest))
    (hlow : IsLeast {k : Key | k ∈ scans.map (·.first)} low)
    (hhigh : IsGreatest {k : Key | k ∈ scans.map (·.last)} high) :
    ∀ s ∈ splits, s.partitionSet = some p ∧ s.contains s.range.start = true := by
  obtain ⟨x, g, locate, hp, hrange, halign⟩ :=
    align_of_plan hplan hscans hne hset hlist hlow hhigh
  have hframe : Before x.range.start x.range.stop := by
    rw [hrange]
    exact before_of_bounds hlow hhigh
  obtain ⟨_, _, _, -, hsets⟩ := splits_of_align halign
  intro s hs
  exact ⟨hp ▸ hsets s hs, contains_start_of_align halign hframe s hs⟩

theorem exists_plan {g : Nat} (hscans : (engine.scans q).read = .ok scans) (hne : scans ≠ [])
    (hset : ∀ s ∈ scans, s.partitionSet = p) (hgroup : ∀ s ∈ scans, s.groupLength = g)
    (hlist : (topology.boundaries p).read = .ok (first :: rest))
    (hasc : (first :: rest).Pairwise (· < ·))
    (hhost : ∀ k, ∃ host, topology.host p k = .ok host) :
    ∃ splits, (plan q engine topology).outcome = .ok splits := by
  obtain ⟨x, hx⟩ := exists_ofScans? hne hset hgroup
  obtain ⟨g', hg', hagree⟩ := agree_of_ofScans? hx
  obtain ⟨s, hs⟩ := List.exists_mem_of_ne_nil scans hne
  have hp : x.partitionSet = p := (hagree s hs).1.symm.trans (hset s hs)
  obtain ⟨splits, halign⟩ :=
    exists_align (x := x) (List.cons_ne_nil first rest) hasc g' (answers_locator hhost)
  refine ⟨splits, (outcome_plan_eq_ok_iff hscans hne).mpr ⟨x, first :: rest, hx, ?_, ?_⟩⟩
  · rw [hp]
    exact hlist
  · rw [hg', hp]
    exact halign

theorem inReach_of_scan {s : Scan} (hs : s ∈ scans) {k : Key}
    (hlow : IsLeast {k : Key | k ∈ scans.map (·.first)} low)
    (hhigh : IsGreatest {k : Key | k ∈ scans.map (·.last)} high)
    (hfirst : first ≤ k) (hk : s.first ≤ k) (hk' : k ≤ s.last) : InReach first low high k := by
  have hls : low ≤ s.first := hlow.2 (List.mem_map.mpr ⟨s, hs, rfl⟩)
  have hsh : s.last ≤ high := hhigh.2 (List.mem_map.mpr ⟨s, hs, rfl⟩)
  exact ⟨hfirst, List.le_trans hls hk, beforeNext_of_le (List.le_trans hk' hsh)⟩

/-- A plan over scans exists, and its splits hold each key in reach exactly once and no
other key. So they hold every key of every scan from the first partition on. -/
theorem plan_covers {g : Nat} (hscans : (engine.scans q).read = .ok scans) (hne : scans ≠ [])
    (hset : ∀ s ∈ scans, s.partitionSet = p) (hgroup : ∀ s ∈ scans, s.groupLength = g)
    (hlist : (topology.boundaries p).read = .ok (first :: rest))
    (hasc : (first :: rest).Pairwise (· < ·))
    (hhost : ∀ k, ∃ host, topology.host p k = .ok host)
    (hlow : IsLeast {k : Key | k ∈ scans.map (·.first)} low)
    (hhigh : IsGreatest {k : Key | k ∈ scans.map (·.last)} high) :
    ∃ splits, (plan q engine topology).outcome = .ok splits ∧
      (∀ k, splits.countP (·.contains k) = if InReach first low high k then 1 else 0) ∧
      (∀ s ∈ scans, ∀ k, first ≤ k → s.first ≤ k → k ≤ s.last →
        splits.countP (·.contains k) = 1) ∧
      (∀ s ∈ splits, s.partitionSet = some p ∧ ∃ k, s.contains k = true) ∧
      ((∀ b ∈ high, b = 0xFF) → ∀ k, InReach first low high k ↔ first ≤ k ∧ low ≤ k) := by
  obtain ⟨splits, hplan⟩ := exists_plan hscans hne hset hgroup hlist hasc hhost
  have hcount := countP_contains_of_plan hplan hscans hne hset hlist hlow hhigh
  refine ⟨splits, hplan, hcount, ?_, ?_, ?_⟩
  · intro s hs k hfirst hk hk'
    rw [hcount, if_pos (inReach_of_scan hs hlow hhigh hfirst hk hk')]
  · intro s hs
    obtain ⟨hp, hstart⟩ := partitionSet_of_plan hplan hscans hne hset hlist hlow hhigh s hs
    exact ⟨hp, s.range.start, hstart⟩
  · intro hfull k
    have hall := (beforeNext_all_iff high).mpr hfull k
    exact ⟨fun hk => ⟨hk.1, hk.2.1⟩, fun hk => ⟨hk.1, hk.2, hall⟩⟩

end Plan

theorem read_ok_map_ok {α : Type} (as : List α) :
    Feed.read (.ok (as.map .ok)) = .ok as := by
  simp only [Feed.read, Except.bind]
  induction as with
  | nil => rfl
  | cons a as ih =>
      rw [List.map_cons, List.mapM_cons, ih]
      rfl

def fixedEngine (scans : List Scan) : Engine :=
  ⟨fun _ => .ok (scans.map .ok)⟩

def fixedTopology (boundaries : List Key) : Topology :=
  ⟨fun _ => .ok (boundaries.map .ok), fun _ _ => .ok none⟩

def twoScans : List Scan :=
  [⟨[0x01, 0x00], [0x03], 1, "p", by decide⟩, ⟨[0x00, 0x40], [0x01, 0xFF], 1, "p", by decide⟩]

theorem isLeast_twoScans : IsLeast {k : Key | k ∈ twoScans.map (·.first)} [0x00, 0x40] := by
  refine ⟨show [0x00, 0x40] ∈ twoScans.map (·.first) by decide, ?_⟩
  exact fun k hk => (by decide : ∀ k ∈ twoScans.map (·.first), [0x00, 0x40] ≤ k) k hk

theorem isGreatest_twoScans : IsGreatest {k : Key | k ∈ twoScans.map (·.last)} [0x03] := by
  refine ⟨show [0x03] ∈ twoScans.map (·.last) by decide, ?_⟩
  exact fun k hk => (by decide : ∀ k ∈ twoScans.map (·.last), k ≤ [0x03]) k hk

theorem plan_covers_twoScans :
    ∃ splits, (plan ⟨"q", .empty⟩ (fixedEngine twoScans)
        (fixedTopology [[], [0x02, 0x90], [0x03, 0x10]])).outcome = .ok splits ∧
      splits.countP (·.contains [0x03, 0xFF]) = 1 ∧
        splits.countP (·.contains [0x04]) = 0 := by
  have hscans : ((fixedEngine twoScans).scans ⟨"q", .empty⟩).read = .ok twoScans :=
    read_ok_map_ok twoScans
  have hlist : ((fixedTopology [[], [0x02, 0x90], [0x03, 0x10]]).boundaries "p").read =
      .ok [[], [0x02, 0x90], [0x03, 0x10]] := read_ok_map_ok _
  obtain ⟨splits, hplan, hcount, -⟩ := plan_covers (g := 1) hscans (by decide) (by decide)
    (by decide) hlist (by decide) (fun _ => ⟨none, rfl⟩) isLeast_twoScans isGreatest_twoScans
  refine ⟨splits, hplan, ?_, ?_⟩
  · rw [hcount, if_pos (by decide)]
  · rw [hcount, if_neg (by decide)]

end ScanPlan.Proofs.PlanCoverage
