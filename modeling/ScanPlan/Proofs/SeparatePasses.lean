import Mathlib.Order.Bounds.Defs
import ScanPlan.Proofs.AlignedSplits

namespace ScanPlan.Proofs.SeparatePasses

open ScanPlan.Alignment ScanPlan.Interval ScanPlan.Key
open ScanPlan.Proofs.AlignedSplits
open ScanPlan.Proofs.GroupBoundaries
open ScanPlan.Proofs.SplitCuts

def movedUntilNone (g : Nat) (bs : List Key) : List Key :=
  ((bs.map (nearestGroup g)).takeWhile Option.isSome).filterMap id

/-- The keys that lie after all keys before them, those in `earlier` included. A key that is
left out still counts for the keys behind it. -/
def ascents (earlier : List Key) : List Key → List Key
  | [] => []
  | k :: ks =>
      if ∀ e ∈ earlier, e < k then k :: ascents (earlier ++ [k]) ks
      else ascents (earlier ++ [k]) ks

def candidates (start : Key) : List Key → List Interval
  | [] => [⟨start, none⟩]
  | k :: ks => ⟨start, some k⟩ :: candidates k ks

def Meets (frame candidate : Interval) : Prop :=
  Before frame.start candidate.stop ∧ Before candidate.start frame.stop

instance (frame : Interval) : DecidablePred (Meets frame) :=
  fun _ => inferInstanceAs (Decidable (_ ∧ _))

def overlap (frame candidate : Interval) : Interval :=
  ⟨later candidate.start frame.start, earlierEnd candidate.stop frame.stop⟩

def inFrame (frame : Interval) (rs : List Interval) : List Interval :=
  (rs.filter (Meets frame)).map (overlap frame)

/-- The intervals of an extent, one pass after the other. -/
def cutInPasses (g : Nat) (frame : Interval) (first : Key) (rest : List Key) : List Interval :=
  inFrame frame (candidates first (ascents [first] (movedUntilNone g rest)))

theorem movedUntilNone_of_none {g : Nat} {b : Key} (hb : nearestGroup g b = none)
    (bs : List Key) : movedUntilNone g (b :: bs) = [] := by
  simp [movedUntilNone, hb]

theorem movedUntilNone_of_some {g : Nat} {b e : Key} (hb : nearestGroup g b = some e)
    (bs : List Key) : movedUntilNone g (b :: bs) = e :: movedUntilNone g bs := by
  simp [movedUntilNone, hb]

section Greatest

variable {start e : Key} {earlier : List Key}

theorem isGreatest_singleton (start : Key) : IsGreatest {k : Key | k ∈ [start]} start := by
  refine ⟨List.mem_singleton.mpr rfl, ?_⟩
  rintro e he
  rw [List.mem_singleton.mp he]
  exact List.le_refl start

theorem isGreatest_append {top : Key} (h : IsGreatest {k : Key | k ∈ earlier} start)
    (hmem : top ∈ earlier ++ [e]) (hstart : start ≤ top) (he : e ≤ top) :
    IsGreatest {k : Key | k ∈ earlier ++ [e]} top := by
  refine ⟨hmem, ?_⟩
  rintro k hk
  rcases List.mem_append.mp hk with hk | hk
  · exact List.le_trans (h.2 hk) hstart
  · rw [List.mem_singleton.mp hk]
    exact he

theorem ascents_of_le (h : IsGreatest {k : Key | k ∈ earlier} start) (hle : e ≤ start)
    (ks : List Key) : ascents earlier (e :: ks) = ascents (earlier ++ [e]) ks := by
  rw [ascents, if_neg]
  intro hall
  exact List.not_lt.mpr hle (hall start h.1)

theorem ascents_of_lt (h : IsGreatest {k : Key | k ∈ earlier} start) (hlt : start < e)
    (ks : List Key) : ascents earlier (e :: ks) = e :: ascents (earlier ++ [e]) ks := by
  rw [ascents, if_pos]
  intro k hk
  exact List.lt_of_le_of_lt (h.2 hk) hlt

end Greatest

theorem inFrame_cons (frame r : Interval) (rs : List Interval) :
    inFrame frame (r :: rs) = (r.clip frame).toList ++ inFrame frame rs := by
  unfold inFrame
  by_cases h : Meets frame r
  · rw [clip_eq_some h.1 h.2, List.filter_cons_of_pos (by simpa using h)]
    rfl
  · rw [clip_eq_none (Decidable.not_and_iff_not_or_not.mp h),
      List.filter_cons_of_neg (by simpa using h)]
    rfl

theorem ranges_emit_eq_inFrame (frame : Interval) (start : Key) :
    ranges (emit frame ⟨start, none⟩) = inFrame frame (candidates start []) := by
  rw [ranges_emit, candidates, inFrame_cons]
  exact (List.append_nil _).symm

theorem ranges_walk_eq_inFrame {g : Nat} {frame : Interval} {start : Key} {earlier : List Key}
    (h : IsGreatest {k : Key | k ∈ earlier} start) (bs : List Key) :
    ranges (walk g frame start bs) =
      inFrame frame (candidates start (ascents earlier (movedUntilNone g bs))) := by
  -- `start` stays the greatest of the keys that were moved, those included that cut nothing.
  induction bs generalizing start earlier with
  | nil =>
      rw [walk, ranges_emit_eq_inFrame]
      rfl
  | cons b rest ih =>
      cases hb : nearestGroup g b with
      | none =>
          rw [ranges_walk_of_none hb, movedUntilNone_of_none hb, ranges_emit_eq_inFrame]
          rfl
      | some e =>
          rw [ranges_walk_cons hb, movedUntilNone_of_some hb]
          split
          · rename_i hle
            rw [ascents_of_le h hle]
            apply ih
            exact isGreatest_append h (List.mem_append_left _ h.1) (List.le_refl start) hle
          · rename_i hle
            have hlt : start < e := List.not_le.mp hle
            have hgreatest : IsGreatest {k : Key | k ∈ earlier ++ [e]} e :=
              isGreatest_append h (List.mem_append_right _ (List.mem_singleton.mpr rfl))
                (List.le_of_lt hlt) (List.le_refl e)
            rw [ascents_of_lt h hlt, candidates, inFrame_cons, ← ih hgreatest]
            congr 1
            split
            · rfl
            · rename_i hbe
              exact (ranges_walk_of_not_before hbe rest).symm

theorem movedUntilNone_eq_filterMap {g : Nat} {bs : List Key}
    (h : bs.Pairwise fun b b' => nearestGroup g b = none → nearestGroup g b' = none) :
    movedUntilNone g bs = bs.filterMap (nearestGroup g) := by
  induction h with
  | nil => rfl
  | @cons b bs hb _ ih =>
      cases hmove : nearestGroup g b with
      | none =>
          rw [movedUntilNone_of_none hmove, List.filterMap_cons_none hmove]
          apply Eq.symm
          apply List.filterMap_eq_nil_iff.mpr
          intro b' hb'
          exact hb b' hb' hmove
      | some e =>
          rw [movedUntilNone_of_some hmove, List.filterMap_cons_some hmove, ih]

/-- The splits of an extent are those of the separate passes. After a boundary that cannot
be moved no other can, so cutting the boundaries there loses no cut. -/
theorem ranges_of_align_eq_cutInPasses {x : Extent} {first : Key} {rest : List Key}
    (hasc : (first :: rest).Pairwise (· < ·)) (g : Nat) (locate : Option Locate) :
    (Answers locate → ∃ splits, (x.align (first :: rest) g locate).outcome = .ok splits) ∧
      (∀ splits, (x.align (first :: rest) g locate).outcome = .ok splits →
        splits.map (·.range) = cutInPasses g x.range first rest) ∧
      (rest.Pairwise fun b b' => nearestGroup g b = none → nearestGroup g b' = none) ∧
        movedUntilNone g rest = rest.filterMap (nearestGroup g) := by
  have hnone : rest.Pairwise fun b b' => nearestGroup g b = none → nearestGroup g b' = none :=
    (List.pairwise_cons.mp hasc).2.imp fun hlt => nearestGroup_eq_none_of_le (List.le_of_lt hlt)
  refine ⟨exists_align (List.cons_ne_nil first rest) hasc g, ?_, hnone,
    movedUntilNone_eq_filterMap hnone⟩
  intro splits h
  obtain ⟨_, _, heq, hranges, -⟩ := splits_of_align h
  cases heq
  rw [hranges]
  exact ranges_walk_eq_inFrame (isGreatest_singleton first) rest

theorem ranges_around_cut_at_060000 :
    ∃ splits, (Extent.align ⟨⟨[0x02], some [0x0A]⟩, 1, "p"⟩ [[], [0x05, 0x90, 0x00],
        [0x05, 0xFF], [0x0A, 0x10], [0xFF, 0x90], [0xFF, 0xA0]] (1 : Nat) none).outcome =
        .ok splits ∧
      splits.map (·.range) =
        [⟨[0x02], some [0x06, 0x00, 0x00]⟩, ⟨[0x06, 0x00, 0x00], some [0x0A]⟩] ∧
      splits.map (·.range) = cutInPasses 1 ⟨[0x02], some [0x0A]⟩ [] [[0x05, 0x90, 0x00],
        [0x05, 0xFF], [0x0A, 0x10], [0xFF, 0x90], [0xFF, 0xA0]] := by
  have hasc : ([[], [0x05, 0x90, 0x00], [0x05, 0xFF], [0x0A, 0x10], [0xFF, 0x90],
      [0xFF, 0xA0]] : List Key).Pairwise (· < ·) := by
    decide
  have hall := (ranges_of_align_eq_cutInPasses (x := ⟨⟨[0x02], some [0x0A]⟩, 1, "p"⟩) hasc 1
    none).2.1
  exact ⟨_, rfl, rfl, hall _ rfl⟩

end ScanPlan.Proofs.SeparatePasses
