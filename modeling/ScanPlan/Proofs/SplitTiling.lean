import ScanPlan.Proofs.AlignedSplits

namespace ScanPlan.Proofs.SplitTiling

open ScanPlan.Interval
open ScanPlan.Proofs.AlignedSplits
open ScanPlan.Proofs.IntervalTiling
open ScanPlan.Proofs.SplitCuts

/-- Splits that cover a range from `first` on without a gap and without an overlap. -/
structure GapFree (first : Key) (range : Interval) (splits : List Split) : Prop where
  eq_nil_iff : splits = [] ↔ ∃ e, range.stop = some e ∧ e ≤ first
  start_head : ∀ s ∈ splits.head?, s.range.start = later first range.start
  stop_last : ∀ s ∈ splits.getLast?, s.range.stop = range.stop
  before_stop : ∀ s ∈ splits, Before s.range.start s.range.stop
  bounded : ∀ s ∈ splits.dropLast, s.range.isUnbounded = false
  adjacent : splits.IsChain fun s t => s.range.stop = some t.range.start
  held_once : ∀ k, splits.countP (·.contains k) = if first ≤ k ∧ k ∈ range then 1 else 0

theorem not_before_iff (k : Key) (stop : Option Key) :
    ¬ Before k stop ↔ ∃ e, stop = some e ∧ e ≤ k := by
  cases stop with
  | none => simp [Before]
  | some e => simp [Before, List.not_lt]

section Tiled

variable {Cut : Key → Prop} {start : Key} {stop : Option Key} {splits : List Split}

theorem ne_nil_of_tiling (h : Tiling Cut stop start (splits.map (·.range))) : splits ≠ [] := by
  rintro rfl
  cases h

theorem start_head_of_tiling (h : Tiling Cut stop start (splits.map (·.range))) :
    ∀ s ∈ splits.head?, s.range.start = start := by
  intro s hs
  have hstart := h.head?_start
  rw [List.head?_map, hs] at hstart
  exact Option.some.inj hstart

theorem stop_last_of_tiling (h : Tiling Cut stop start (splits.map (·.range))) :
    ∀ s ∈ splits.getLast?, s.range.stop = stop := by
  intro s hs
  have hstop := h.getLast?_stop
  rw [List.getLast?_map, hs] at hstop
  exact Option.some.inj hstop

theorem adjacent_of_tiling (h : Tiling Cut stop start (splits.map (·.range))) :
    splits.IsChain fun s t => s.range.stop = some t.range.start :=
  (List.isChain_map _).mp h.isChain

end Tiled

theorem bounded_of_adjacent {splits : List Split}
    (h : splits.IsChain fun s t => s.range.stop = some t.range.start) :
    ∀ s ∈ splits.dropLast, s.range.isUnbounded = false := by
  induction h with
  | nil => simp
  | singleton s => simp
  | cons_cons hst _ ih =>
      intro u hu
      rw [List.dropLast_cons_cons] at hu
      rcases List.mem_cons.mp hu with rfl | hu
      · simp [isUnbounded, hst]
      · exact ih u hu

/-- The splits of an extent that holds a key are free of gaps, and there are splits. -/
theorem gapFree_of_align {x : Extent} {first : Key} {rest : List Key}
    (hasc : (first :: rest).Pairwise (· < ·)) (hframe : Before x.range.start x.range.stop)
    (g : Nat) (locate : Option Locate) :
    (Answers locate → ∃ splits, (x.align (first :: rest) g locate).outcome = .ok splits) ∧
      ∀ splits, (x.align (first :: rest) g locate).outcome = .ok splits →
        GapFree first x.range splits := by
  refine ⟨exists_align (List.cons_ne_nil first rest) hasc g, ?_⟩
  intro splits h
  have hcount := countP_contains_of_align h hframe
  by_cases hfirst : Before first x.range.stop
  · have htiling := tiling_of_align h hframe hfirst
    have hadjacent := adjacent_of_tiling htiling
    refine ⟨?_, start_head_of_tiling htiling, stop_last_of_tiling htiling, ?_,
      bounded_of_adjacent hadjacent, hadjacent, hcount⟩
    · rw [← not_before_iff]
      exact iff_of_false (ne_nil_of_tiling htiling) (not_not_intro hfirst)
    · intro s hs
      exact (htiling.start_mem s.range (List.mem_map.mpr ⟨s, hs, rfl⟩)).2
  · obtain rfl := eq_nil_of_align h hfirst
    refine ⟨?_, ?_, ?_, ?_, ?_, List.isChain_nil, hcount⟩
    · exact iff_of_true rfl ((not_before_iff _ _).mp hfirst)
    all_goals simp

theorem gapFree_around_cut_at_0600 :
    ∃ splits, (Extent.align ⟨⟨[0x02], some [0x09]⟩, 1, "p"⟩
        [[], [0x05, 0x90], [0x05, 0xA0], [0x0A, 0x10]] (1 : Nat) none).outcome = .ok splits ∧
      splits.map (·.range) = [⟨[0x02], some [0x06, 0x00]⟩, ⟨[0x06, 0x00], some [0x09]⟩] ∧
        GapFree [] ⟨[0x02], some [0x09]⟩ splits := by
  have hasc : ([[], [0x05, 0x90], [0x05, 0xA0], [0x0A, 0x10]] : List Key).Pairwise (· < ·) := by
    decide
  have hall := (gapFree_of_align (x := ⟨⟨[0x02], some [0x09]⟩, 1, "p"⟩) hasc (by decide) 1
    none).2
  exact ⟨_, rfl, rfl, hall _ rfl⟩

end ScanPlan.Proofs.SplitTiling
