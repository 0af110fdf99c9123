import ScanPlan.Proofs.ExtentKeys
import ScanPlan.Proofs.PlanStages

namespace ScanPlan.Proofs.ScanAgreement

open ScanPlan.Extent
open ScanPlan.Proofs.ExtentKeys
open ScanPlan.Proofs.PlanStages
open ScanPlan.Proofs.ScanExtent

variable {scans others : List Scan} {x : Extent}

theorem exists_ofScans?_iff : (∃ x, ofScans? scans = .ok x) ↔
    scans ≠ [] ∧ ∃ p g, ∀ s ∈ scans, s.partitionSet = p ∧ s.groupLength = g := by
  constructor
  · rintro ⟨x, hx⟩
    obtain ⟨g, -, hagree⟩ := agree_of_ofScans? hx
    refine ⟨?_, x.partitionSet, g, hagree⟩
    rintro rfl
    contradiction
  · rintro ⟨hne, p, g, hagree⟩
    exact exists_ofScans? hne (fun s hs => (hagree s hs).1) fun s hs => (hagree s hs).2

theorem setOf_mem_map_eq {f : Scan → Key} (h : ∀ s, s ∈ others ↔ s ∈ scans) :
    {k : Key | k ∈ others.map f} = {k : Key | k ∈ scans.map f} := by
  ext k
  change k ∈ others.map f ↔ k ∈ scans.map f
  simp only [List.mem_map, h]

theorem ofScans?_of_mem_iff (hx : ofScans? scans = .ok x)
    (h : ∀ s, s ∈ others ↔ s ∈ scans) : ofScans? others = .ok x := by
  obtain ⟨hne, p, g, hagree⟩ := exists_ofScans?_iff.mp ⟨x, hx⟩
  obtain ⟨s, hs⟩ := List.exists_mem_of_ne_nil scans hne
  have hs' : s ∈ others := (h s).mpr hs
  obtain ⟨y, hy⟩ := exists_ofScans?_iff.mpr
    ⟨List.ne_nil_of_mem hs', p, g, fun t ht => hagree t ((h t).mp ht)⟩
  obtain ⟨low, high, hlow, hhigh⟩ := exists_bounds hne
  have hrange : y.range = x.range := by
    rw [range_of_ofScans? hx hlow hhigh]
    rw [← setOf_mem_map_eq h] at hlow hhigh
    exact range_of_ofScans? hy hlow hhigh
  obtain ⟨m, hm, hxs⟩ := agree_of_ofScans? hx
  obtain ⟨n, hn, hys⟩ := agree_of_ofScans? hy
  have hset : y.partitionSet = x.partitionSet := (hys s hs').1.symm.trans (hxs s hs).1
  have hgroup : y.groupLength = x.groupLength := by
    rw [hm, hn, ← (hxs s hs).2, ← (hys s hs').2]
  rw [hy]
  cases x
  cases y
  cases hrange
  cases hset
  cases hgroup
  rfl

/-- Scans have an extent exactly when there are any and all agree. It stays the same when the
scans are put in another order or repeated. When they do not agree, the first scan that
differs from the first one decides on the failure, and its partition set before its length of
groups. -/
theorem extent_of_agreeing (scans : List Scan) :
    ((∃ x, ofScans? scans = .ok x) ↔
        scans ≠ [] ∧ ∃ p g, ∀ s ∈ scans, s.partitionSet = p ∧ s.groupLength = g) ∧
      (∀ x others, ofScans? scans = .ok x → (∀ s, s ∈ others ↔ s ∈ scans) →
        ofScans? others = .ok x) ∧
      ∀ s rest f, scans = s :: rest → (ofScans? scans = .error f ↔
        ∃ before t after, rest = before ++ t :: after ∧ (∀ u ∈ before, Agrees s u) ∧
          Disagrees s t f) := by
  refine ⟨exists_ofScans?_iff, fun _ _ => ofScans?_of_mem_iff, ?_⟩
  rintro s rest f rfl
  exact ofScans?_cons_eq_error_iff s rest f

def disagreeingScans : List Scan :=
  [⟨[0x01], [0x02], 1, "p", by decide⟩, ⟨[0x00], [0x05], 1, "p", by decide⟩,
    ⟨[0x01], [0x02], 2, "q", by decide⟩, ⟨[0x01], [0x02], 2, "p", by decide⟩]

theorem extent_of_agreeing_disagreeingScans :
    ofScans? disagreeingScans = .error (.partitionSetsDiffer "p" "q") ∧
      ofScans? (disagreeingScans.take 2) = .ok ⟨⟨[0x00], some [0x06]⟩, 1, "p"⟩ ∧
        ofScans? ((disagreeingScans.take 2).reverse ++ disagreeingScans.take 1) =
          .ok ⟨⟨[0x00], some [0x06]⟩, 1, "p"⟩ := by
  obtain ⟨-, -, herror⟩ := extent_of_agreeing disagreeingScans
  obtain ⟨-, hsame, -⟩ := extent_of_agreeing (disagreeingScans.take 2)
  have hextent : ofScans? (disagreeingScans.take 2) = .ok ⟨⟨[0x00], some [0x06]⟩, 1, "p"⟩ := by
    decide +kernel
  refine ⟨(herror _ _ _ rfl).mpr ?_, hextent, hsame _ _ hextent ?_⟩
  · refine ⟨[⟨[0x00], [0x05], 1, "p", by decide⟩], _, _, rfl, ?_, .partitionSet (by decide)⟩
    intro u hu
    rw [List.mem_singleton.mp hu]
    exact ⟨rfl, rfl⟩
  · intro s
    rw [List.mem_append, List.mem_reverse]
    exact or_iff_left_of_imp fun hs => List.mem_cons.mpr (.inl (List.mem_singleton.mp hs))

end ScanPlan.Proofs.ScanAgreement
