import Mathlib.Order.Bounds.Defs
import ScanPlan.Proofs.KeyValue
import ScanPlan.Scan
import ScanPlan.Extent

namespace ScanPlan.Proofs.ScanExtent

open ScanPlan.Extent ScanPlan.Interval
open ScanPlan.Proofs.KeyValue

def best (better : Key → Key → Prop) [DecidableRel better] (k : Key) : List Key → Key
  | [] => k
  | l :: ls => best better (if better l k then l else k) ls

theorem best_mem (better : Key → Key → Prop) [DecidableRel better] (k : Key) (ls : List Key) :
    best better k ls ∈ k :: ls := by
  induction ls generalizing k with
  | nil => exact List.mem_singleton.mpr rfl
  | cons l ls ih =>
      rw [best]
      split
      · exact List.mem_cons_of_mem k (ih l)
      · rcases List.mem_cons.mp (ih k) with heq | hmem
        · rw [heq]
          exact List.mem_cons_self
        · exact List.mem_cons_of_mem k (List.mem_cons_of_mem l hmem)

theorem not_better_best (better : Key → Key → Prop) [DecidableRel better]
    (hasymm : ∀ k l, better k l → ¬ better l k)
    (htrans : ∀ k l m, ¬ better k l → ¬ better l m → ¬ better k m) (k : Key) (ls : List Key) :
    ∀ l ∈ k :: ls, ¬ better l (best better k ls) := by
  induction ls generalizing k with
  | nil =>
      intro l hl
      rw [List.mem_singleton.mp hl]
      exact fun h => hasymm _ _ h h
  | cons l ls ih =>
      have hnext := ih (if better l k then l else k)
      have hhead := hnext _ List.mem_cons_self
      have hk : ¬ better k (if better l k then l else k) := by
        split
        · rename_i hlk
          exact hasymm l k hlk
        · exact fun h => hasymm k k h h
      have hl : ¬ better l (if better l k then l else k) := by
        split
        · exact fun h => hasymm l l h h
        · rename_i hlk
          exact hlk
      intro m hm
      rw [best]
      rcases List.mem_cons.mp hm with rfl | hm
      · exact htrans _ _ _ hk hhead
      · rcases List.mem_cons.mp hm with rfl | hm
        · exact htrans _ _ _ hl hhead
        · exact hnext m (List.mem_cons_of_mem _ hm)

theorem spread_eq (low high : Key) (scans : List Scan) :
    spread low high scans = (best (fun k l => k < l) low (scans.map (·.first)),
      best (fun k l => l < k) high (scans.map (·.last))) := by
  induction scans generalizing low high with
  | nil => rfl
  | cons s rest ih =>
      rw [spread, ih]
      rfl

theorem isLeast_spread (low high : Key) (scans : List Scan) :
    IsLeast {k : Key | k ∈ low :: scans.map (·.first)} (spread low high scans).1 := by
  rw [spread_eq]
  refine ⟨best_mem _ _ _, ?_⟩
  intro k hk
  apply List.not_lt.mp
  refine not_better_best (fun k l => k < l) ?_ ?_ low _ k hk
  · intro k l hkl
    exact List.lt_asymm hkl
  · intro k l m hkl hlm
    exact List.not_lt.mpr (List.le_trans (List.not_lt.mp hlm) (List.not_lt.mp hkl))

theorem isGreatest_spread (low high : Key) (scans : List Scan) :
    IsGreatest {k : Key | k ∈ high :: scans.map (·.last)} (spread low high scans).2 := by
  rw [spread_eq]
  refine ⟨best_mem _ _ _, ?_⟩
  intro k hk
  apply List.not_lt.mp
  refine not_better_best (fun k l => l < k) ?_ ?_ high _ k hk
  · intro k l hkl
    exact List.lt_asymm hkl
  · intro k l m hkl hlm
    exact List.not_lt.mpr (List.le_trans (List.not_lt.mp hkl) (List.not_lt.mp hlm))

theorem disagreement?_eq_none_iff (first scan : Scan) :
    disagreement? first scan = none ↔
      scan.partitionSet = first.partitionSet ∧ scan.groupLength = first.groupLength := by
  unfold disagreement?
  split
  · rename_i hne
    simp [hne]
  · rename_i heq
    split
    · rename_i hne
      simp [hne]
    · rename_i heq'
      exact iff_of_true rfl ⟨Decidable.not_not.mp heq, Decidable.not_not.mp heq'⟩

theorem ofScans?_cons_eq_ok_iff (s : Scan) (rest : List Scan) (x : Extent) :
    ofScans? (s :: rest) = .ok x ↔
      (∀ t ∈ rest, t.partitionSet = s.partitionSet ∧ t.groupLength = s.groupLength) ∧
        x = ⟨⟨(spread s.first s.last rest).1,
          Key.successor? (spread s.first s.last rest).2⟩, s.groupLength, s.partitionSet⟩ := by
  have hagree : rest.findSome? (disagreement? s) = none ↔
      ∀ t ∈ rest, t.partitionSet = s.partitionSet ∧ t.groupLength = s.groupLength := by
    simp only [List.findSome?_eq_none_iff, disagreement?_eq_none_iff]
  rw [← hagree]
  simp only [ofScans?]
  split
  · rename_i f hf
    simp [hf]
  · rename_i hnone
    simp only [hnone, Except.ok.injEq, true_and]
    exact eq_comm

theorem exists_ofScans? {scans : List Scan} {p : String} {g : Nat} (hne : scans ≠ [])
    (hset : ∀ s ∈ scans, s.partitionSet = p) (hgroup : ∀ s ∈ scans, s.groupLength = g) :
    ∃ x, ofScans? scans = .ok x := by
  cases scans with
  | nil => exact absurd rfl hne
  | cons s rest =>
      refine ⟨_, (ofScans?_cons_eq_ok_iff s rest _).mpr ⟨?_, rfl⟩⟩
      intro t ht
      have ht' := List.mem_cons_of_mem s ht
      exact ⟨(hset t ht').trans (hset s List.mem_cons_self).symm,
        (hgroup t ht').trans (hgroup s List.mem_cons_self).symm⟩

theorem agree_of_ofScans? {scans : List Scan} {x : Extent} (h : ofScans? scans = .ok x) :
    ∃ g : Nat, x.groupLength = g ∧
      ∀ s ∈ scans, s.partitionSet = x.partitionSet ∧ s.groupLength = g := by
  cases scans with
  | nil => contradiction
  | cons s rest =>
      obtain ⟨hagree, rfl⟩ := (ofScans?_cons_eq_ok_iff s rest x).mp h
      refine ⟨s.groupLength, rfl, ?_⟩
      intro t ht
      rcases List.mem_cons.mp ht with rfl | ht
      · exact ⟨rfl, rfl⟩
      · exact hagree t ht

theorem range_of_ofScans? {scans : List Scan} {x : Extent} (h : ofScans? scans = .ok x)
    {low high : Key} (hlow : IsLeast {k : Key | k ∈ scans.map (·.first)} low)
    (hhigh : IsGreatest {k : Key | k ∈ scans.map (·.last)} high) :
    x.range = ⟨low, Key.successor? high⟩ := by
  cases scans with
  | nil => contradiction
  | cons s rest =>
      obtain ⟨-, rfl⟩ := (ofScans?_cons_eq_ok_iff s rest x).mp h
      have hleast := isLeast_spread s.first s.last rest
      have hgreatest := isGreatest_spread s.first s.last rest
      rw [List.le_antisymm (hleast.2 hlow.1) (hlow.2 hleast.1),
        List.le_antisymm (hhigh.2 hgreatest.1) (hgreatest.2 hhigh.1)]

theorem before_of_bounds {scans : List Scan} {low high : Key}
    (hlow : IsLeast {k : Key | k ∈ scans.map (·.first)} low)
    (hhigh : IsGreatest {k : Key | k ∈ scans.map (·.last)} high) :
    Before low (Key.successor? high) := by
  obtain ⟨s, hs, rfl⟩ := List.mem_map.mp hlow.1
  have hle : s.last ≤ high := hhigh.2 (List.mem_map.mpr ⟨s, hs, rfl⟩)
  exact (before_successor?_iff _ _).mpr (beforeNext_of_le (List.le_trans s.ordered hle))

end ScanPlan.Proofs.ScanExtent
