import ScanPlan.Proofs.AlignedSplits

/-!
# Groups that splits divide

A split ends where the next one starts, at a group boundary. When that boundary is
longer than its group, the group itself, and the group with fewer zero bytes after it,
stay in the split before it. Main statements: these are the only keys that are cut
off from others of their group, and a table whose cuts are no longer than groups has
none.
-/

namespace ScanPlan.Proofs.GroupSeparation

open ScanPlan.Interval
open ScanPlan.Proofs.AlignedSplits
open ScanPlan.Proofs.GroupBoundaries
open ScanPlan.Proofs.IntervalTiling
open ScanPlan.Proofs.KeyOrder
open ScanPlan.Proofs.SplitCuts

/-- Whether keys of one group that splits hold are always held by one split. -/
def KeepsGroups (g : Nat) (splits : List Split) : Prop :=
  ∀ k k' : Key, g ≤ k.length → g ≤ k'.length → k.take g = k'.take g →
    ∀ i j, HeldAt splits i k → HeldAt splits j k' → i = j

theorem mem_tail_map {splits : List Split} {r : Interval} :
    r ∈ (splits.map (·.range)).tail ↔ ∃ s ∈ splits.tail, s.range = r := by
  rw [← List.map_tail, List.mem_map]

section Tiled

variable {g : Nat} {bs : List Key} {start : Key} {stop : Option Key} {splits : List Split}
  {k k' : Key} {i j : Nat}

theorem index_ne_iff_of_tiling
    (h : Tiling (Moved g bs) stop start (splits.map (·.range))) (hlt : k < k')
    (hi : HeldAt splits i k) (hj : HeldAt splits j k') :
    i ≠ j ↔ ∃ u ∈ splits.tail, k < u.range.start ∧ u.range.start ≤ k' := by
  obtain ⟨r, hr, hk⟩ := range_of_heldAt hi
  obtain ⟨r', hr', hk'⟩ := range_of_heldAt hj
  rw [h.index_ne_iff hr hr' hk hk' hlt]
  constructor
  · rintro ⟨r, hr, hbetween⟩
    obtain ⟨u, hu, rfl⟩ := mem_tail_map.mp hr
    exact ⟨u, hu, hbetween⟩
  · rintro ⟨u, hu, hbetween⟩
    exact ⟨u.range, mem_tail_map.mpr ⟨u, hu, rfl⟩, hbetween⟩

theorem index_eq_of_tiling (h : Tiling (Moved g bs) stop start (splits.map (·.range)))
    (hi : HeldAt splits i k) (hj : HeldAt splits j k) : i = j := by
  obtain ⟨r, hr, hk⟩ := range_of_heldAt hi
  obtain ⟨r', hr', hk'⟩ := range_of_heldAt hj
  exact h.index_eq hr hr' hk hk'

theorem onBoundary_of_mem_tail (h : Tiling (Moved g bs) stop start (splits.map (·.range)))
    {u : Split} (hu : u ∈ splits.tail) : OnBoundary g u.range.start := by
  obtain ⟨⟨b, -, hb⟩, -⟩ := h.cut_of_mem_tail u.range (mem_tail_map.mpr ⟨u, hu, rfl⟩)
  exact onBoundary_nearestGroup hb

theorem separated_iff_of_tiling
    (h : Tiling (Moved g bs) stop start (splits.map (·.range)))
    (hgroup : k.take g = k'.take g) (hlt : k < k')
    (hi : HeldAt splits i k) (hj : HeldAt splits j k') :
    i ≠ j ↔ ∃ u ∈ splits.tail, ∃ m n, 1 ≤ m ∧ n < m ∧
      u.range.start = k.take g ++ List.replicate m 0 ∧
        k = k.take g ++ List.replicate n 0 ∧ u.range.start ≤ k' := by
  rw [index_ne_iff_of_tiling h hlt hi hj]
  constructor
  · rintro ⟨u, hu, hku, huk⟩
    obtain ⟨m, n, hnm, hstart, hk⟩ :=
      between_keys_of_group hgroup (onBoundary_of_mem_tail h hu) hku huk
    exact ⟨u, hu, m, n, by omega, hnm, hstart, hk, huk⟩
  · rintro ⟨u, hu, m, n, -, hnm, hstart, hk, huk⟩
    refine ⟨u, hu, ?_, huk⟩
    have hzeros := append_zeros_lt (k.take g) hnm
    rw [← hk, ← hstart] at hzeros
    exact hzeros

theorem index_eq_of_short_cuts
    (h : Tiling (Moved g bs) stop start (splits.map (·.range)))
    (hshort : ∀ s ∈ splits.tail, s.range.start.length ≤ g) (hlen : g ≤ k.length)
    (hgroup : k.take g = k'.take g) (hlt : k < k')
    (hi : HeldAt splits i k) (hj : HeldAt splits j k') : i = j := by
  apply Classical.byContradiction
  intro hne
  obtain ⟨u, hu, m, n, hm, -, hstart, -, -⟩ :=
    (separated_iff_of_tiling h hgroup hlt hi hj).mp hne
  have hu' := hshort u hu
  rw [hstart, List.length_append, List.length_take, List.length_replicate] at hu'
  omega

theorem start_le_of_keepsGroups
    (h : Tiling (Moved g bs) stop start (splits.map (·.range)))
    (hkeeps : KeepsGroups g splits) : ∀ s ∈ splits.tail, s.range.start.length ≤ g := by
  intro s hs
  apply Nat.le_of_not_lt
  intro hlong
  have hmem : s.range ∈ (splits.map (·.range)).tail := mem_tail_map.mpr ⟨s, hs, rfl⟩
  have hself := h.start_mem s.range (List.mem_of_mem_tail hmem)
  obtain ⟨k, hk, hlen, hgroup⟩ :=
    exists_predecessor (onBoundary_of_mem_tail h hs) hlong
  have hlt : k < s.range.start := by
    rw [hk]
    exact lt_append_zero k
  have hstart : start ≤ k := by
    have hcut := (h.cut_of_mem_tail s.range hmem).2
    rw [hk] at hcut
    exact (lt_append_zero_iff start k).mp hcut
  have hstop : Before k stop :=
    before_of_lt hlt (h.bounds_of_mem (List.mem_of_mem_tail hmem) hself).2
  obtain ⟨r, hr, hkr⟩ := h.exists_mem hstart hstop
  obtain ⟨i, hi⟩ := List.mem_iff_getElem?.mp hr
  obtain ⟨j, hj⟩ := List.mem_iff_getElem?.mp (List.mem_of_mem_tail hmem)
  have hij : i = j := hkeeps k s.range.start hlen (by omega) hgroup i j
    (heldAt_of_range hi hkr) (heldAt_of_range hj hself)
  rw [hij, hj] at hi
  cases hi
  exact absurd hlt (List.not_lt.mpr hkr.1)

theorem index_eq_of_long_keys
    (h : Tiling (Moved g bs) stop start (splits.map (·.range)))
    (hlong : ∀ b ∈ bs, b.length ≤ k.length)
    (hgroup : k.take g = k'.take g) (hlt : k < k')
    (hi : HeldAt splits i k) (hj : HeldAt splits j k') : i = j := by
  apply Classical.byContradiction
  intro hne
  obtain ⟨u, hu, m, n, -, hnm, hstart, hk, -⟩ :=
    (separated_iff_of_tiling h hgroup hlt hi hj).mp hne
  obtain ⟨⟨b, hb, hmoved⟩, -⟩ := h.cut_of_mem_tail u.range (mem_tail_map.mpr ⟨u, hu, rfl⟩)
  have hlow := congrArg List.length hk
  have hcut := (length_nearestGroup hmoved).symm.trans (congrArg List.length hstart)
  have hle := hlong b hb
  simp only [List.length_append, List.length_take, List.length_replicate] at hlow hcut
  omega

theorem keepsGroups_of_tiling
    (h : Tiling (Moved g bs) stop start (splits.map (·.range)))
    (hshort : ∀ s ∈ splits.tail, s.range.start.length ≤ g) : KeepsGroups g splits := by
  intro k k' hlen hlen' hgroup i j hi hj
  rcases lt_or_le k k' with hlt | hge
  · exact index_eq_of_short_cuts h hshort hlen hgroup hlt hi hj
  · rcases List.le_iff_lt_or_eq.mp hge with hgt | rfl
    · exact (index_eq_of_short_cuts h hshort hlen' hgroup.symm hgt hj hi).symm
    · exact index_eq_of_tiling h hi hj

end Tiled

theorem keepsGroups_of_length_le_one {g : Nat} {splits : List Split}
    (h : splits.length ≤ 1) : KeepsGroups g splits := by
  rintro k k' - - - i j ⟨s, hs, -⟩ ⟨t, ht, -⟩
  obtain ⟨hi, -⟩ := List.getElem?_eq_some_iff.mp hs
  obtain ⟨hj, -⟩ := List.getElem?_eq_some_iff.mp ht
  omega

theorem tail_eq_nil_of_length_le_one {splits : List Split} (h : splits.length ≤ 1) :
    splits.tail = [] := by
  apply List.eq_nil_of_length_eq_zero
  rw [List.length_tail]
  omega

/-- The splits of an extent keep groups whole exactly when no split but the first starts
at a key that is longer than its group. -/
theorem keepsGroups_iff {x : Extent} {boundaries : List Key} {g : Nat}
    {locate : Option Locate} {splits : List Split}
    (h : (x.align boundaries g locate).outcome = .ok splits) :
    KeepsGroups g splits ↔ ∀ s ∈ splits.tail, s.range.start.length ≤ g := by
  obtain ⟨first, rest, rfl, -⟩ := splits_of_align h
  have hsmall : splits.length ≤ 1 →
      (KeepsGroups g splits ↔ ∀ s ∈ splits.tail, s.range.start.length ≤ g) := by
    intro hle
    rw [tail_eq_nil_of_length_le_one hle]
    exact iff_of_true (keepsGroups_of_length_le_one hle) (by simp)
  by_cases hframe : Before x.range.start x.range.stop
  · by_cases hfirst : Before first x.range.stop
    · have htiling := tiling_of_align h hframe hfirst
      exact ⟨start_le_of_keepsGroups htiling, keepsGroups_of_tiling htiling⟩
    · apply hsmall
      rw [eq_nil_of_align h hfirst]
      exact Nat.zero_le 1
  · exact hsmall (length_le_one_of_align h hframe)

theorem keepsGroups_iff_cut_at_0600 :
    ∃ splits, (Extent.align ⟨⟨[], none⟩, 1, "p"⟩ [[], [0x05, 0x90]] (1 : Nat) none).outcome =
        .ok splits ∧ splits.map (·.range.start) = [[], [0x06, 0x00]] ∧
      (KeepsGroups 1 splits ↔ ∀ s ∈ splits.tail, s.range.start.length ≤ 1) :=
  ⟨_, rfl, rfl, keepsGroups_iff (show (Extent.align ⟨⟨[], none⟩, 1, "p"⟩
    [[], [0x05, 0x90]] (1 : Nat) none).outcome = _ from rfl)⟩

/-- Splits do not keep groups whole in general: the key `06` stays before the cut at
`06 00`, which divides it from the rest of its group. -/
theorem not_forall_keepsGroups :
    ¬ ∀ (x : Extent) (boundaries : List Key) (g : Nat) (locate : Option Locate)
      (splits : List Split), boundaries ≠ [] → boundaries.Pairwise (· < ·) →
        (x.align boundaries g locate).outcome = .ok splits → KeepsGroups g splits := by
  intro hall
  have hkeeps := hall ⟨⟨[], none⟩, 1, "p"⟩ [[], [0x05, 0x90]] 1 none _
    (by decide) (by decide) rfl
  have hsame : 0 = 1 := hkeeps [0x06] [0x06, 0x00] (by decide) (by decide) rfl 0 1
    ⟨_, rfl, rfl⟩ ⟨_, rfl, rfl⟩
  exact absurd hsame (by decide)

/-- Two keys of one group lie in different splits exactly when the lower one is the group
followed by zero bytes and a later split starts at the group followed by more of them,
at or before the upper key. Keys as long as every boundary are never separated. -/
theorem separated_iff {x : Extent} {boundaries : List Key} (hne : boundaries ≠ [])
    (hasc : boundaries.Pairwise (· < ·)) (hframe : Before x.range.start x.range.stop)
    (g : Nat) (locate : Option Locate) :
    (Answers locate → ∃ splits, (x.align boundaries g locate).outcome = .ok splits) ∧
      ∀ splits, (x.align boundaries g locate).outcome = .ok splits →
        ∀ k k' : Key, g ≤ k.length → g ≤ k'.length → k.take g = k'.take g → k < k' →
          ∀ i j, HeldAt splits i k → HeldAt splits j k' →
            (i ≠ j ↔ ∃ u ∈ splits.tail, ∃ m n, 1 ≤ m ∧ n < m ∧
              u.range.start = k.take g ++ List.replicate m 0 ∧
                k = k.take g ++ List.replicate n 0 ∧ u.range.start ≤ k') ∧
              ((∀ b ∈ boundaries, b.length ≤ k.length ∧ b.length ≤ k'.length) → i = j) := by
  refine ⟨exists_align hne hasc g, ?_⟩
  intro splits h k k' hlen hlen' hgroup hlt i j hi hj
  obtain ⟨first, rest, rfl, -⟩ := splits_of_align h
  by_cases hfirst : Before first x.range.stop
  · have htiling := tiling_of_align h hframe hfirst
    refine ⟨separated_iff_of_tiling htiling hgroup hlt hi hj, ?_⟩
    intro hlong
    apply index_eq_of_long_keys htiling _ hgroup hlt hi hj
    intro b hb
    exact (hlong b (List.mem_cons_of_mem first hb)).1
  · rw [eq_nil_of_align h hfirst] at hi
    obtain ⟨s, hs, -⟩ := hi
    simp at hs

theorem separated_by_cut_at_0600 :
    ∃ splits, (Extent.align ⟨⟨[], none⟩, 1, "p"⟩ [[], [0x05, 0x90]] (1 : Nat) none).outcome =
        .ok splits ∧ HeldAt splits 0 [0x06] ∧ HeldAt splits 1 [0x06, 0x00, 0x01] ∧
      ∃ u ∈ splits.tail, ∃ m n, 1 ≤ m ∧ n < m ∧
        u.range.start = [0x06] ++ List.replicate m 0 ∧
          ([0x06] : Key) = [0x06] ++ List.replicate n 0 ∧
            u.range.start ≤ [0x06, 0x00, 0x01] := by
  have hboundaries : ([[], [0x05, 0x90]] : List Key) ≠ [] := by decide
  have hall := (separated_iff (x := ⟨⟨[], none⟩, 1, "p"⟩) hboundaries (by decide) trivial 1
    none).2
  refine ⟨_, rfl, ⟨_, rfl, rfl⟩, ⟨_, rfl, rfl⟩, ?_⟩
  exact (hall _ rfl [0x06] [0x06, 0x00, 0x01] (by decide) (by decide) rfl (by decide) 0 1
    ⟨_, rfl, rfl⟩ ⟨_, rfl, rfl⟩).1.mp (by decide)

end ScanPlan.Proofs.GroupSeparation
