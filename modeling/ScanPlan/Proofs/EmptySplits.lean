import ScanPlan.Proofs.SeparatePasses

namespace ScanPlan.Proofs.EmptySplits

open ScanPlan.Interval
open ScanPlan.Proofs.AlignedSplits
open ScanPlan.Proofs.IntervalTiling
open ScanPlan.Proofs.KeyOrder
open ScanPlan.Proofs.SeparatePasses
open ScanPlan.Proofs.SplitCuts

theorem overlap_eq_frame {frame candidate : Interval}
    (hframe : ¬ Before frame.start frame.stop) (h : Meets frame candidate) :
    overlap frame candidate = frame := by
  obtain ⟨start, stop⟩ := frame
  obtain ⟨hstart, hstop⟩ := h
  cases stop with
  | none => exact absurd trivial hframe
  | some e =>
      have hle : e ≤ start := List.not_lt.mp hframe
      rw [overlap, later_of_lt (lt_of_lt_of_le hstop hle)]
      cases hend : candidate.stop with
      | none => rfl
      | some f =>
          rw [hend] at hstart
          have hfe : ¬ Before f (some e) :=
            List.not_lt.mpr (List.le_trans hle (List.le_of_lt hstart))
          rw [earlierEnd_of_not_before hfe]

def keptCandidates (g : Nat) (first : Key) (rest : List Key) : List Interval :=
  candidates first (ascents [first] (movedUntilNone g rest))

section Align

variable {x : Extent} {first : Key} {rest : List Key} {g : Nat} {locate : Option Locate}
  {splits : List Split}

theorem before_stop_of_align (h : (x.align (first :: rest) g locate).outcome = .ok splits)
    (hframe : Before x.range.start x.range.stop) :
    ∀ s ∈ splits, Before s.range.start s.range.stop := by
  intro s hs
  by_cases hfirst : Before first x.range.stop
  · have htiling := tiling_of_align h hframe hfirst
    exact (htiling.start_mem s.range (List.mem_map.mpr ⟨s, hs, rfl⟩)).2
  · rw [eq_nil_of_align h hfirst] at hs
    contradiction

theorem ranges_of_align (h : (x.align (first :: rest) g locate).outcome = .ok splits) :
    splits.map (·.range) = inFrame x.range (keptCandidates g first rest) := by
  obtain ⟨_, _, heq, hranges, -⟩ := splits_of_align h
  cases heq
  rw [hranges]
  exact ranges_walk_eq_inFrame (isGreatest_singleton first) rest

theorem range_of_mem (h : (x.align (first :: rest) g locate).outcome = .ok splits)
    (hframe : ¬ Before x.range.start x.range.stop) : ∀ s ∈ splits, s.range = x.range := by
  intro s hs
  have hmem : s.range ∈ inFrame x.range (keptCandidates g first rest) := by
    rw [← ranges_of_align h]
    exact List.mem_map.mpr ⟨s, hs, rfl⟩
  obtain ⟨c, hc, hrange⟩ := List.mem_map.mp hmem
  have hmeets := of_decide_eq_true (List.mem_filter.mp hc).2
  rw [← hrange, overlap_eq_frame hframe hmeets]

theorem eq_nil_iff_of_align (h : (x.align (first :: rest) g locate).outcome = .ok splits) :
    splits = [] ↔ ∀ c ∈ keptCandidates g first rest, ¬ Meets x.range c := by
  rw [← List.map_eq_nil_iff (f := (·.range)), ranges_of_align h, inFrame,
    List.map_eq_nil_iff, List.filter_eq_nil_iff]
  simp only [decide_eq_true_eq]

end Align

/-- The splits of an extent all hold a key exactly when the extent does or meets no
candidate. Of an extent that holds no key there is one split at most, the extent itself. -/
theorem before_stop_iff {x : Extent} {first : Key} {rest : List Key}
    (hasc : (first :: rest).Pairwise (· < ·)) (g : Nat) (locate : Option Locate) :
    (Answers locate → ∃ splits, (x.align (first :: rest) g locate).outcome = .ok splits) ∧
      ∀ splits, (x.align (first :: rest) g locate).outcome = .ok splits →
        ((∀ s ∈ splits, Before s.range.start s.range.stop) ↔
          Before x.range.start x.range.stop ∨
            ∀ c ∈ keptCandidates g first rest, ¬ Meets x.range c) ∧
        (¬ Before x.range.start x.range.stop →
          splits.length ≤ 1 ∧ ∀ s ∈ splits, s.range = x.range) := by
  refine ⟨exists_align (List.cons_ne_nil first rest) hasc g, ?_⟩
  intro splits h
  refine ⟨?_, fun hframe => ⟨length_le_one_of_align h hframe, range_of_mem h hframe⟩⟩
  constructor
  · intro hbefore
    by_cases hframe : Before x.range.start x.range.stop
    · exact .inl hframe
    · right
      apply (eq_nil_iff_of_align h).mp
      apply List.eq_nil_iff_forall_not_mem.mpr
      intro s hs
      have hs' := hbefore s hs
      rw [range_of_mem h hframe s hs] at hs'
      exact hframe hs'
  · rintro (hframe | hnone)
    · exact before_stop_of_align h hframe
    · rw [(eq_nil_iff_of_align h).mpr hnone]
      simp

theorem before_stop_iff_at_inverted :
    ∃ splits, (Extent.align ⟨⟨[0x07], some [0x05]⟩, 1, "p"⟩ [[], [0x05, 0x90], [0x0A]]
        (1 : Nat) none).outcome = .ok splits ∧ splits = [] ∧
      ((∀ s ∈ splits, Before s.range.start s.range.stop) ↔
        Before [0x07] (some [0x05]) ∨
          ∀ c ∈ keptCandidates 1 [] [[0x05, 0x90], [0x0A]],
            ¬ Meets ⟨[0x07], some [0x05]⟩ c) := by
  have hasc : ([[], [0x05, 0x90], [0x0A]] : List Key).Pairwise (· < ·) := by decide
  have hall := (before_stop_iff (x := ⟨⟨[0x07], some [0x05]⟩, 1, "p"⟩) hasc 1 none).2
  exact ⟨_, rfl, rfl, (hall _ rfl).1⟩

/-- It does not hold that no split is empty: an extent from `07` to `03` becomes one split
from `07` to `03`. -/
theorem not_forall_before_stop :
    ¬ ∀ (x : Extent) (boundaries : List Key) (g : Nat) (locate : Option Locate)
      (splits : List Split), boundaries ≠ [] → boundaries.Pairwise (· < ·) →
        (x.align boundaries g locate).outcome = .ok splits →
          ∀ s ∈ splits, Before s.range.start s.range.stop := by
  intro hall
  have hbefore := hall ⟨⟨[0x07], some [0x03]⟩, 1, "p"⟩ [[]] 1 none _ (by decide) (by decide) rfl
    _ List.mem_cons_self
  exact absurd hbefore (by decide)

end ScanPlan.Proofs.EmptySplits
