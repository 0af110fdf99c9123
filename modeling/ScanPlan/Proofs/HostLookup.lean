import ScanPlan.Proofs.GroupStarts
import ScanPlan.Proofs.PartitionOwners
import ScanPlan.Proofs.PlanStages

namespace ScanPlan.Proofs.HostLookup

open ScanPlan.Alignment ScanPlan.Interval ScanPlan.Key
open ScanPlan.Proofs.AlignedSplits
open ScanPlan.Proofs.GroupStarts
open ScanPlan.Proofs.PartitionOwners
open ScanPlan.Proofs.PlanStages
open ScanPlan.Proofs.SplitCuts

def unhosted (s : Split) : Split :=
  { s with host := none }

/-- Cutting an extent with a lookup, next to the splits that are cut without one. -/
structure FollowsCuts (x : Extent) (ks : List Key) (g : Nat) (cuts : List Split)
    (f : Locate) : Prop where
  of_answered : (∀ s ∈ cuts, ∃ host, f s.range.start = .ok host) →
    asked (x.align ks g (some f)) = cuts.map (lookup x.partitionSet) ∧
      ∃ splits, (x.align ks g (some f)).outcome = .ok splits ∧ splits.map unhosted = cuts ∧
        ∀ s ∈ splits, f s.range.start = .ok s.host
  of_failure : ∀ before s after e, cuts = before ++ s :: after →
    (∀ t ∈ before, ∃ host, f t.range.start = .ok host) → f s.range.start = .error e →
      asked (x.align ks g (some f)) = (before ++ [s]).map (lookup x.partitionSet) ∧
        (x.align ks g (some f)).outcome = .error e

section Assign

variable {p : String} {steps : List Step} {splits : List Split}

theorem map_unhosted_of_assign {locate : Option Locate}
    (h : (assign p locate steps).outcome = .ok splits) :
    splits.map unhosted = bare p steps := by
  obtain ⟨hranges, hset⟩ := splits_of_assign h
  rw [bare, ← hranges, List.map_map]
  apply List.map_congr_left
  intro s hs
  show Split.mk none s.partitionSet s.range = Split.mk none (some p) s.range
  rw [hset s hs]

theorem hosts_of_assign {f : Locate} (h : (assign p (some f) steps).outcome = .ok splits) :
    ∀ s ∈ splits, f s.range.start = .ok s.host := by
  induction steps generalizing splits with
  | nil =>
      cases h
      exact nofun
  | cons step rest ih =>
      cases step with
      | collapsed start b =>
          obtain ⟨_, -, hrest⟩ := Run.outcome_bind_eq_ok.mp h
          exact ih hrest
      | cut r =>
          obtain ⟨host, hhost, hgo⟩ := Run.outcome_bind_eq_ok.mp h
          obtain ⟨others, hothers, hlast⟩ := Run.outcome_bind_eq_ok.mp hgo
          cases hlast
          exact List.forall_mem_cons.mpr ⟨hhost, ih hothers⟩

end Assign

theorem followsCuts {x : Extent} {ks : List Key} {g : Nat} {cuts : List Split}
    (h : (x.align ks g none).outcome = .ok cuts) (f : Locate) : FollowsCuts x ks g cuts f := by
  constructor
  case of_answered =>
      intro hanswered
      obtain ⟨p, hp, hassign⟩ := exists_partitioning_of_align h
      rw [outcome_assign_none] at hassign
      obtain rfl := Except.ok.inj hassign
      obtain ⟨hasked, houtcome⟩ := align_of_partitioning hp x g (some f)
      obtain ⟨hlookups, splits, hsplits⟩ := assign_of_answered hanswered
      rw [hasked, houtcome]
      exact ⟨hlookups, splits, hsplits, map_unhosted_of_assign hsplits, hosts_of_assign hsplits⟩
  case of_failure =>
      rintro before s after e rfl hbefore hs
      exact align_of_failure h hbefore hs

theorem start_le_of_mem_clip {r frame clipped : Interval}
    (h : clipped ∈ (r.clip frame).toList) : r.start ≤ clipped.start := by
  have hstart := (starts_clip_sublist r frame).subset (List.mem_map.mpr ⟨clipped, h, rfl⟩)
  rw [List.mem_singleton.mp hstart]
  exact ((later_le_iff _ _ _).mp (List.le_refl _)).1

theorem start_le_of_mem_walk {g : Nat} {frame : Interval} {start : Key} {bs : List Key}
    {r : Interval} (h : r ∈ ranges (walk g frame start bs)) : start ≤ r.start := by
  induction bs generalizing start with
  | nil =>
      rw [walk, ranges_emit] at h
      exact start_le_of_mem_clip h
  | cons b rest ih =>
      cases hb : nearestGroup g b with
      | none =>
          rw [ranges_walk_of_none hb, ranges_emit] at h
          exact start_le_of_mem_clip h
      | some e =>
          rw [ranges_walk_cons hb] at h
          split at h
          · exact ih h
          · rename_i hle
            rcases List.mem_append.mp h with h | h
            · exact start_le_of_mem_clip h
            · split at h
              · exact List.le_trans (List.le_of_lt (List.not_le.mp hle)) (ih h)
              · contradiction

section Align

variable {x : Extent} {first : Key} {rest : List Key} {g : Nat} {locate : Option Locate}
  {splits : List Split}

theorem first_le_start_of_align (h : (x.align (first :: rest) g locate).outcome = .ok splits) :
    ∀ s ∈ splits, first ≤ s.range.start := by
  obtain ⟨_, _, heq, hranges, -⟩ := splits_of_align h
  cases heq
  intro s hs
  have hmem : s.range ∈ ranges (walk g x.range first rest) :=
    hranges ▸ List.mem_map.mpr ⟨s, hs, rfl⟩
  exact start_le_of_mem_walk hmem

theorem starts_ascend_of_align (h : (x.align (first :: rest) g locate).outcome = .ok splits) :
    (splits.map (·.range.start)).Pairwise (· < ·) := by
  by_cases hframe : Before x.range.start x.range.stop
  · by_cases hfirst : Before first x.range.stop
    · have htiling := tiling_of_align h hframe hfirst
      apply List.pairwise_map.mpr
      apply (pairwise_of_tiling htiling).imp_of_mem
      intro s t hs _ hlt
      exact hlt _ (start_contained htiling hs)
    · rw [eq_nil_of_align h hfirst]
      exact .nil
  · have hone := length_le_one_of_align h hframe
    apply List.pairwise_iff_getElem.mpr
    intro i j _ hj hij
    rw [List.length_map] at hj
    omega

end Align

section Catalog

variable {x : Extent} {first : Key} {rest : List Key} {g : Nat} {cuts : List Split}
  {sets : List (String × List Partition)} {ps : List Partition}

theorem exists_owns_start (h : (x.align (first :: rest) g none).outcome = .ok cuts)
    (hnames : (sets.map (·.1)).Nodup) (hset : (x.partitionSet, ps) ∈ sets)
    (hstarts : (ps.map (·.start)).Perm (first :: rest)) :
    ∀ s ∈ cuts, ∃ q, Owns ps q s.range.start ∧
      (Catalog.ofList sets).host x.partitionSet s.range.start = .ok q.host := by
  intro s hs
  obtain ⟨r, hr, hfirst⟩ := List.mem_map.mp (hstarts.mem_iff.mpr List.mem_cons_self)
  apply exists_owns_host hnames hset hr
  rw [hfirst]
  exact first_le_start_of_align h s hs

theorem exists_align_of_catalog (h : (x.align (first :: rest) g none).outcome = .ok cuts)
    (hnames : (sets.map (·.1)).Nodup) (hset : (x.partitionSet, ps) ∈ sets)
    (hstarts : (ps.map (·.start)).Perm (first :: rest)) :
    ∃ splits, (x.align (first :: rest) g
        (some ((Catalog.ofList sets).host x.partitionSet))).outcome = .ok splits ∧
      splits.map unhosted = cuts ∧
        ∀ s ∈ splits, ∃ q, Owns ps q s.range.start ∧ s.host = q.host := by
  have howned := exists_owns_start h hnames hset hstarts
  have hanswered : ∀ s ∈ cuts, ∃ host,
      (Catalog.ofList sets).host x.partitionSet s.range.start = .ok host := by
    intro s hs
    obtain ⟨q, -, hhost⟩ := howned s hs
    exact ⟨q.host, hhost⟩
  obtain ⟨-, splits, hsplits, hsame, hhosts⟩ := (followsCuts h _).of_answered hanswered
  refine ⟨splits, hsplits, hsame, ?_⟩
  intro s hs
  have hcut : unhosted s ∈ cuts := hsame ▸ List.mem_map.mpr ⟨s, hs, rfl⟩
  obtain ⟨q, howns, hhost⟩ := howned (unhosted s) hcut
  exact ⟨q, howns, Except.ok.inj ((hhosts s hs).symm.trans hhost)⟩

end Catalog

/-- Hosts are looked up for the splits that are cut without a lookup, each once, until the
lookup fails. A catalog of the partitions of the boundaries does not fail, and tells the
host of the partition that owns the start of the split. -/
theorem hosts_follow_cuts {x : Extent} {first : Key} {rest : List Key}
    (hasc : (first :: rest).Pairwise (· < ·)) (g : Nat) :
    ∃ cuts, (x.align (first :: rest) g none).outcome = .ok cuts ∧
      (cuts.map (·.range.start)).Pairwise (· < ·) ∧
      (∀ f, FollowsCuts x (first :: rest) g cuts f) ∧
      ∀ (sets : List (String × List Partition)) (ps : List Partition),
        (sets.map (·.1)).Nodup → (x.partitionSet, ps) ∈ sets →
        (ps.map (·.start)).Perm (first :: rest) →
          ∃ splits, (x.align (first :: rest) g
              (some ((Catalog.ofList sets).host x.partitionSet))).outcome = .ok splits ∧
            splits.map unhosted = cuts ∧
              ∀ s ∈ splits, ∃ q, Owns ps q s.range.start ∧ s.host = q.host := by
  have hnone : Answers none := nofun
  obtain ⟨cuts, hcuts⟩ := exists_align (x := x) (List.cons_ne_nil first rest) hasc g hnone
  refine ⟨cuts, hcuts, starts_ascend_of_align hcuts, followsCuts hcuts, ?_⟩
  intro sets ps hnames hset hstarts
  exact exists_align_of_catalog hcuts hnames hset hstarts

def lateAt06 : Locate := fun k =>
  if k = [0x06, 0x00] then .error (.foreign .timeout "late") else .ok (some "rs1")

def threeHosts : List Partition :=
  [⟨[0x0A, 0x10], some "rs3"⟩, ⟨[], some "rs1"⟩, ⟨[0x05, 0x90], none⟩]

theorem hosts_follow_cuts_from_02 :
    asked (Extent.align ⟨⟨[0x02], none⟩, 1, "p"⟩ [[], [0x05, 0x90], [0x0A, 0x10]] (1 : Nat)
        (some lateAt06)) = [.resolveHost "p" [0x02], .resolveHost "p" [0x06, 0x00]] ∧
      ∃ splits, (Extent.align ⟨⟨[0x02], none⟩, 1, "p"⟩ [[], [0x05, 0x90], [0x0A, 0x10]]
          (1 : Nat) (some ((Catalog.ofList [("p", threeHosts)]).host "p"))).outcome = .ok splits ∧
        splits.map (·.range.start) = [[0x02], [0x06, 0x00], [0x0A, 0x00]] := by
  have hasc : ([[], [0x05, 0x90], [0x0A, 0x10]] : List Key).Pairwise (· < ·) := by decide
  obtain ⟨cuts, hcuts, -, hfollows, hcatalog⟩ :=
    hosts_follow_cuts (x := ⟨⟨[0x02], none⟩, 1, "p"⟩) hasc 1
  cases hcuts
  refine ⟨((hfollows lateAt06).of_failure [_] _ [_] _ rfl ?_ rfl).1, ?_⟩
  · intro t ht
    exact ⟨some "rs1", by rw [List.mem_singleton.mp ht]; rfl⟩
  · obtain ⟨splits, hsplits, hsame, -⟩ := hcatalog [("p", threeHosts)] threeHosts
      (by decide) List.mem_cons_self (by decide)
    refine ⟨splits, hsplits, ?_⟩
    have hstarts := congrArg (List.map (·.range.start)) hsame
    rw [List.map_map] at hstarts
    exact hstarts

end ScanPlan.Proofs.HostLookup
