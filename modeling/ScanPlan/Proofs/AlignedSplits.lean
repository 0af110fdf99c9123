import ScanPlan.Proofs.SplitCuts

namespace ScanPlan.Proofs.AlignedSplits

open ScanPlan.Alignment ScanPlan.Interval
open ScanPlan.Proofs.IntervalTiling
open ScanPlan.Proofs.SplitCuts

/-- Whether the host of every key can be asked for without a failure. -/
def Answers (locate : Option Locate) : Prop :=
  ∀ f, locate = some f → ∀ k, ∃ host, f k = .ok host

theorem outcome_hostOf {p : String} {locate : Option Locate} (h : Answers locate) (k : Key) :
    ∃ host, (hostOf p locate k).outcome = .ok host := by
  cases hl : locate with
  | none => exact ⟨none, rfl⟩
  | some f => exact h f hl k

theorem outcome_assign {p : String} {locate : Option Locate} (h : Answers locate)
    (steps : List Step) : ∃ splits, (assign p locate steps).outcome = .ok splits := by
  induction steps with
  | nil => exact ⟨[], rfl⟩
  | cons step rest ih =>
      obtain ⟨splits, hrest⟩ := ih
      cases step with
      | collapsed start b =>
          exact ⟨splits, Run.outcome_bind_eq_ok.mpr ⟨(), rfl, hrest⟩⟩
      | cut r =>
          obtain ⟨host, hhost⟩ := outcome_hostOf h r.start
          exact ⟨⟨host, some p, r⟩ :: splits, Run.outcome_bind_eq_ok.mpr
            ⟨host, hhost, Run.outcome_bind_eq_ok.mpr ⟨splits, hrest, rfl⟩⟩⟩

theorem splits_of_assign {p : String} {locate : Option Locate} {steps : List Step}
    {splits : List Split} (h : (assign p locate steps).outcome = .ok splits) :
    splits.map (·.range) = ranges steps ∧ ∀ s ∈ splits, s.partitionSet = some p := by
  induction steps generalizing splits with
  | nil =>
      cases h
      exact ⟨rfl, by simp⟩
  | cons step rest ih =>
      cases step with
      | collapsed start b =>
          obtain ⟨_, -, hrest⟩ := Run.outcome_bind_eq_ok.mp h
          exact ih hrest
      | cut r =>
          obtain ⟨host, -, hgo⟩ := Run.outcome_bind_eq_ok.mp h
          obtain ⟨others, hothers, hlast⟩ := Run.outcome_bind_eq_ok.mp hgo
          obtain ⟨hranges, hset⟩ := ih hothers
          cases hlast
          refine ⟨congrArg (r :: ·) hranges, ?_⟩
          intro s hs
          rcases List.mem_cons.mp hs with rfl | hs
          · rfl
          · exact hset s hs

theorem descentFrom_eq_none {i : Nat} {previous : Key} {ks : List Key}
    (h : (previous :: ks).Pairwise (· < ·)) : Partitioning.descentFrom i previous ks = none := by
  induction ks generalizing i previous with
  | nil => rfl
  | cons k ks ih =>
      obtain ⟨hlt, hks⟩ := List.pairwise_cons.mp h
      rw [Partitioning.descentFrom,
        if_neg (List.not_le.mpr (hlt k List.mem_cons_self))]
      exact ih hks

theorem ofList?_of_pairwise {first : Key} {rest : List Key}
    (h : (first :: rest).Pairwise (· < ·)) :
    Partitioning.ofList? (first :: rest) = .ok ⟨first, rest, h⟩ := by
  simp only [Partitioning.ofList?]
  split
  · rename_i i hi
    rw [descentFrom_eq_none h] at hi
    contradiction
  · rfl

theorem outcome_reportUncovered (x : Extent) (p : Partitioning) :
    (x.reportUncovered p).outcome = .ok () := by
  unfold Extent.reportUncovered
  split
  · rfl
  · rfl

theorem outcome_steps? (p : Partitioning) (g : Nat) (frame : Interval) :
    steps? p g frame = .ok (walk g frame p.first p.rest) := by
  have hg : ¬ ((g : Int) < 0 ∧ p.rest ≠ []) := by omega
  rw [steps?, if_neg hg, Int.toNat_natCast]

theorem exists_align {x : Extent} {boundaries : List Key} (hne : boundaries ≠ [])
    (hasc : boundaries.Pairwise (· < ·)) (g : Nat) {locate : Option Locate}
    (hlocate : Answers locate) :
    ∃ splits, (x.align boundaries g locate).outcome = .ok splits := by
  cases boundaries with
  | nil => exact absurd rfl hne
  | cons first rest =>
      obtain ⟨splits, hsplits⟩ :=
        outcome_assign (p := x.partitionSet) hlocate (walk g x.range first rest)
      refine ⟨splits, ?_⟩
      simp only [Extent.align, ofList?_of_pairwise hasc]
      exact Run.outcome_bind_eq_ok.mpr ⟨(), outcome_reportUncovered x _,
        Run.outcome_bind_eq_ok.mpr ⟨_, outcome_steps? _ g x.range,
          Run.outcome_bind_eq_ok.mpr ⟨splits, hsplits, rfl⟩⟩⟩

theorem splits_of_align {x : Extent} {boundaries : List Key} {g : Nat}
    {locate : Option Locate} {splits : List Split}
    (h : (x.align boundaries g locate).outcome = .ok splits) :
    ∃ first rest, boundaries = first :: rest ∧
      splits.map (·.range) = ranges (walk g x.range first rest) ∧
        ∀ s ∈ splits, s.partitionSet = some x.partitionSet := by
  unfold Extent.align at h
  split at h
  · contradiction
  · rename_i p hp
    obtain ⟨_, -, h⟩ := Run.outcome_bind_eq_ok.mp h
    obtain ⟨steps, hsteps, h⟩ := Run.outcome_bind_eq_ok.mp h
    obtain ⟨splits', hassign, h⟩ := Run.outcome_bind_eq_ok.mp h
    cases h
    rw [Run.outcome_ofExcept, outcome_steps?] at hsteps
    cases hsteps
    obtain ⟨hranges, hset⟩ := splits_of_assign hassign
    exact ⟨p.first, p.rest, (Partitioning.boundaries_of_ofList? hp).symm, hranges, hset⟩

section Align

variable {x : Extent} {first : Key} {rest : List Key} {g : Nat} {locate : Option Locate}
  {splits : List Split}

theorem tiling_of_align (h : (x.align (first :: rest) g locate).outcome = .ok splits)
    (hframe : Before x.range.start x.range.stop) (hfirst : Before first x.range.stop) :
    Tiling (Moved g rest) x.range.stop (later first x.range.start) (splits.map (·.range)) := by
  obtain ⟨_, _, heq, hranges, -⟩ := splits_of_align h
  cases heq
  rw [hranges]
  exact tiling_walk hframe hfirst rest

theorem eq_nil_of_align (h : (x.align (first :: rest) g locate).outcome = .ok splits)
    (hfirst : ¬ Before first x.range.stop) : splits = [] := by
  obtain ⟨_, _, heq, hranges, -⟩ := splits_of_align h
  cases heq
  rw [ranges_walk_of_not_before hfirst] at hranges
  exact List.map_eq_nil_iff.mp hranges

theorem countP_contains_map (splits : List Split) (k : Key) :
    (splits.map (·.range)).countP (·.contains k) = splits.countP (·.contains k) :=
  List.countP_map

/-- A key of an extent that lies in the partitioned part is held by exactly one split, and
any other key by none. -/
theorem countP_contains_of_align (h : (x.align (first :: rest) g locate).outcome = .ok splits)
    (hframe : Before x.range.start x.range.stop) (k : Key) :
    splits.countP (·.contains k) = if first ≤ k ∧ k ∈ x.range then 1 else 0 := by
  by_cases hfirst : Before first x.range.stop
  · have htiling := tiling_of_align h hframe hfirst
    rw [← countP_contains_map]
    split
    · rename_i hk
      obtain ⟨hfk, hsk, hke⟩ := hk
      exact htiling.countP_contains ((later_le_iff _ _ _).mpr ⟨hfk, hsk⟩) hke
    · rename_i hk
      rw [List.countP_eq_zero]
      intro r hr hc
      obtain ⟨hle, hke⟩ := htiling.bounds_of_mem hr (contains_iff.mp hc)
      obtain ⟨hfk, hsk⟩ := (later_le_iff _ _ _).mp hle
      exact hk ⟨hfk, hsk, hke⟩
  · rw [eq_nil_of_align h hfirst, if_neg]
    · rfl
    · rintro ⟨hfk, -, hke⟩
      exact hfirst (before_of_le hfk hke)

theorem length_le_one_of_align (h : (x.align (first :: rest) g locate).outcome = .ok splits)
    (hframe : ¬ Before x.range.start x.range.stop) : splits.length ≤ 1 := by
  obtain ⟨_, _, heq, hranges, -⟩ := splits_of_align h
  cases heq
  rw [← List.length_map (f := (·.range)), hranges]
  exact length_ranges_walk_le_one hframe first rest

end Align

def HeldAt (splits : List Split) (i : Nat) (k : Key) : Prop :=
  ∃ s, splits[i]? = some s ∧ s.contains k = true

theorem range_of_heldAt {splits : List Split} {i : Nat} {k : Key} (h : HeldAt splits i k) :
    ∃ r, (splits.map (·.range))[i]? = some r ∧ k ∈ r := by
  obtain ⟨s, hs, hk⟩ := h
  refine ⟨s.range, ?_, contains_iff.mp hk⟩
  rw [List.getElem?_map, hs]
  rfl

theorem heldAt_of_range {splits : List Split} {i : Nat} {r : Interval} {k : Key}
    (hr : (splits.map (·.range))[i]? = some r) (hk : k ∈ r) : HeldAt splits i k := by
  rw [List.getElem?_map] at hr
  obtain ⟨s, hs, rfl⟩ := Option.map_eq_some_iff.mp hr
  exact ⟨s, hs, contains_iff.mpr hk⟩

end ScanPlan.Proofs.AlignedSplits
