import ScanPlan.Proofs.HostLookup

namespace ScanPlan.Proofs.LocalityHint

open ScanPlan.Key
open ScanPlan.Proofs.AlignedSplits
open ScanPlan.Proofs.GroupStarts
open ScanPlan.Proofs.HostLookup
open ScanPlan.Proofs.PartitionOwners
open ScanPlan.Proofs.SplitCuts

def movedStart? (g : Nat) : Nat → Key → Option Key
  | 0, b => some b
  | _ + 1, b => nearestGroup g b

/-- The split that comes of the partition at a position. -/
structure Hinted (g : Nat) (qs : List Partition) (i : Nat) (q : Partition) (s : Split) :
    Prop where
  start_eq : movedStart? g i q.start = some s.range.start
  stop_eq : s.range.stop = qs[i + 1]?.bind fun r => nearestGroup g r.start
  owner : ∃ r, Owns qs r s.range.start ∧ s.host = r.host
  own : Owns qs q s.range.start → s.host = q.host
  of_distinct : (qs.map (·.host)).Nodup → s.host = q.host → Owns qs q s.range.start

theorem map_some_filterMap {α β : Type} {f : α → Option β} {as : List α}
    (h : (as.filterMap f).length = as.length) : (as.filterMap f).map some = as.map f := by
  have hsome := List.filterMap_length_eq_length.mp h
  clear h
  induction as with
  | nil => rfl
  | cons a as ih =>
      obtain ⟨ha, has⟩ := List.forall_mem_cons.mp hsome
      obtain ⟨b, hb⟩ := Option.isSome_iff_exists.mp ha
      rw [List.filterMap_cons_some hb, List.map_cons, List.map_cons, hb, ih has]

section Align

variable {x : Extent} {first : Key} {rest : List Key} {g : Nat} {locate : Option Locate}
  {splits : List Split}

theorem starts_of_length_eq (h : (x.align (first :: rest) g locate).outcome = .ok splits)
    (hstart : x.range.start = first) (hlength : splits.length = rest.length + 1) :
    splits.map (fun s => some s.range.start) = some first :: rest.map (nearestGroup g) := by
  obtain ⟨_, _, heq, hranges, -⟩ := splits_of_align h
  cases heq
  have hsublist := starts_walk_sublist g x.range first rest
  rw [← hranges, List.map_map, hstart, later_of_le (List.le_refl first)] at hsublist
  have hle := List.length_filterMap_le (nearestGroup g) rest
  have hstarts := hsublist.eq_of_length_le (by simpa [hlength] using hle)
  have hfull : (rest.filterMap (nearestGroup g)).length = rest.length := by
    have hsame := congrArg List.length hstarts
    simp only [List.length_map, List.length_cons] at hsame
    omega
  rw [← map_some_filterMap hfull]
  have hsome := congrArg (List.map some) hstarts
  rw [List.map_map] at hsome
  exact hsome

theorem stops_of_length_eq (h : (x.align (first :: rest) g locate).outcome = .ok splits)
    (hrange : x.range = ⟨first, none⟩) (hlength : splits.length = rest.length + 1) :
    splits.map (·.range.stop) = rest.map (nearestGroup g) ++ [none] := by
  have hstarts := starts_of_length_eq h (by rw [hrange]) hlength
  have htail : splits.tail.map (fun s => some s.range.start) = rest.map (nearestGroup g) := by
    rw [List.map_tail, hstarts, List.tail_cons]
  have htiling := tiling_of_align h (by rw [hrange]; trivial) (by rw [hrange]; trivial)
  have hstops := htiling.map_stop
  rw [List.map_map, ← List.map_tail, List.map_map, hrange] at hstops
  rw [← htail]
  exact hstops

end Align

theorem eq_bind_of_getElem? {α β : Type} {f : α → Option β} {as : List α} {i : Nat}
    {b? : Option β} (h : (as.map f ++ [none])[i]? = some b?) : b? = as[i]?.bind f := by
  induction as generalizing i with
  | nil =>
      cases i with
      | zero => exact (Option.some.inj h).symm
      | succ i => contradiction
  | cons a as ih =>
      cases i with
      | zero => exact (Option.some.inj h).symm
      | succ i => exact ih h

/-- Cutting a whole table along the partitions that a catalog has of it. -/
def cutAlong (sets : List (String × List Partition)) (p : String) (groupLength : Int)
    (first : Partition) (rest : List Partition) (g : Nat) : Run (List Split) :=
  Extent.align ⟨⟨first.start, none⟩, groupLength, p⟩ ((first :: rest).map (·.start)) g
    (some ((Catalog.ofList sets).host p))

section Catalog

variable {sets : List (String × List Partition)} {p : String} {ps : List Partition}
  {first : Partition} {rest : List Partition} {groupLength : Int} {g : Nat}
  {splits : List Split}

theorem exists_cutAlong (hnames : (sets.map (·.1)).Nodup) (hset : (p, ps) ∈ sets)
    (hperm : (first :: rest).Perm ps)
    (hasc : ((first :: rest).map (·.start)).Pairwise (· < ·)) (groupLength : Int) (g : Nat) :
    ∃ splits, (cutAlong sets p groupLength first rest g).outcome = .ok splits ∧
      ∀ s ∈ splits, ∃ r, Owns (first :: rest) r s.range.start ∧ s.host = r.host := by
  have hnone : Answers none := nofun
  obtain ⟨cuts, hcuts⟩ := exists_align (x := ⟨⟨first.start, none⟩, groupLength, p⟩)
    (List.cons_ne_nil _ _) hasc g hnone
  obtain ⟨splits, hsplits, -, hhosts⟩ :=
    exists_align_of_catalog hcuts hnames hset (hperm.symm.map _)
  refine ⟨splits, hsplits, ?_⟩
  intro s hs
  obtain ⟨r, hr, hhost⟩ := hhosts s hs
  exact ⟨r, (owns_iff_of_perm hperm r _).mpr hr, hhost⟩

theorem hinted_of_owner (h : (cutAlong sets p groupLength first rest g).outcome = .ok splits)
    (hasc : ((first :: rest).map (·.start)).Pairwise (· < ·))
    (hlength : splits.length = (first :: rest).length) {i : Nat} {q r : Partition} {s : Split}
    (hq : (first :: rest)[i]? = some q) (hs : splits[i]? = some s)
    (hr : Owns (first :: rest) r s.range.start) (hhost : s.host = r.host) :
    Hinted g (first :: rest) i q s := by
  have hlength' : splits.length = (rest.map (·.start)).length + 1 := by
    rw [List.length_map]
    exact hlength
  constructor
  case start_eq =>
      have hstart := congrArg (·[i]?) (starts_of_length_eq h rfl hlength')
      cases i with
      | zero =>
          cases hq
          simp only [List.getElem?_map, hs, Option.map_some] at hstart
          exact (Option.some.inj hstart).symm
      | succ i =>
          rw [List.getElem?_cons_succ] at hq
          simp only [List.getElem?_map, List.getElem?_cons_succ, hs, hq, Option.map_some]
            at hstart
          exact (Option.some.inj hstart).symm
  case stop_eq =>
      have hstop := congrArg (·[i]?) (stops_of_length_eq h rfl hlength')
      rw [List.map_map] at hstop
      simp only [List.getElem?_map, hs, Option.map_some] at hstop
      exact eq_bind_of_getElem? hstop.symm
  case owner => exact ⟨r, hr, hhost⟩
  case own =>
      intro howns
      rw [hhost, hr.unique hasc.nodup howns]
  case of_distinct =>
      intro hdistinct heq
      have hsame : r = q :=
        List.inj_on_of_nodup_map hdistinct hr.mem (List.mem_of_getElem? hq) (hhost.symm.trans heq)
      exact hsame ▸ hr

/-- A table that is cut into as many splits as it has partitions is cut at their moved
starts. The host of a split is that of the partition which owns its start, and so that of
its own partition unless the start was moved out of it. -/
theorem hinted_of_length_eq (hnames : (sets.map (·.1)).Nodup) (hset : (p, ps) ∈ sets)
    (hperm : (first :: rest).Perm ps)
    (hasc : ((first :: rest).map (·.start)).Pairwise (· < ·)) (groupLength : Int) (g : Nat) :
    (Catalog.ofList sets).boundaries p = .ok ((first :: rest).map (·.start)) ∧
      ∃ splits, (cutAlong sets p groupLength first rest g).outcome = .ok splits ∧
        (splits.length = (first :: rest).length →
          ∀ i q s, (first :: rest)[i]? = some q → splits[i]? = some s →
            Hinted g (first :: rest) i q s) := by
  obtain ⟨splits, hsplits, hhosts⟩ := exists_cutAlong hnames hset hperm hasc groupLength g
  refine ⟨boundaries_ofList hnames hset hperm hasc, splits, hsplits, ?_⟩
  intro hlength i q s hq hs
  obtain ⟨r, hr, hhost⟩ := hhosts s (List.mem_of_getElem? hs)
  exact hinted_of_owner hsplits hasc hlength hq hs hr hhost

end Catalog

theorem hinted_at_06_and_0A :
    ∃ splits, (cutAlong [("p", threeHosts)] "p" 1 ⟨[], some "rs1"⟩
        [⟨[0x05, 0x90], none⟩, ⟨[0x0A, 0x10], some "rs3"⟩] 1).outcome = .ok splits ∧
      splits.map (fun s => (s.host, s.range.start)) =
        [(some "rs1", []), (none, [0x06, 0x00]), (none, [0x0A, 0x00])] ∧
      ∀ s, splits[1]? = some s → Hinted 1 [⟨[], some "rs1"⟩, ⟨[0x05, 0x90], none⟩,
        ⟨[0x0A, 0x10], some "rs3"⟩] 1 ⟨[0x05, 0x90], none⟩ s := by
  have hnames : ([("p", threeHosts)].map (·.1)).Nodup := by decide
  have hset : ("p", threeHosts) ∈ [("p", threeHosts)] := List.mem_cons_self
  have hperm : [⟨[], some "rs1"⟩, ⟨[0x05, 0x90], none⟩, ⟨[0x0A, 0x10], some "rs3"⟩].Perm
      threeHosts := by decide
  have hasc : ([⟨[], some "rs1"⟩, ⟨[0x05, 0x90], none⟩, ⟨[0x0A, 0x10], some "rs3"⟩].map
      Partition.start).Pairwise (· < ·) := by decide
  obtain ⟨-, splits, hsplits, hhinted⟩ := hinted_of_length_eq hnames hset hperm hasc 1 1
  have hcut := hsplits
  rw [cutAlong, host_ofList hnames hset hperm hasc] at hcut
  cases hcut
  exact ⟨_, hsplits, rfl, fun s hs => hhinted rfl 1 _ s rfl hs⟩

def twoHosts : List Partition :=
  [⟨[], some "h1"⟩, ⟨[0x05, 0x10], some "h2"⟩]

/-- It does not hold that each split has the host of its own partition: at `05 10` the split
of the partition of `h2` starts at `05 00`, which belongs to `h1`. -/
theorem not_forall_host_eq :
    ¬ ∀ (sets : List (String × List Partition)) (p : String) (ps : List Partition)
      (first : Partition) (rest : List Partition) (groupLength : Int) (g : Nat)
      (splits : List Split), (sets.map (·.1)).Nodup → (p, ps) ∈ sets →
        (first :: rest).Perm ps → ((first :: rest).map (·.start)).Pairwise (· < ·) →
        (cutAlong sets p groupLength first rest g).outcome = .ok splits →
        splits.length = (first :: rest).length →
          splits.map (·.host) = (first :: rest).map (·.host) := by
  intro hall
  have hnames : ([("p", twoHosts)].map (·.1)).Nodup := by decide
  have hasc : (twoHosts.map (·.start)).Pairwise (· < ·) := by decide
  have hcut : (cutAlong [("p", twoHosts)] "p" 1 ⟨[], some "h1"⟩
      [⟨[0x05, 0x10], some "h2"⟩] 1).outcome =
        .ok [⟨some "h1", some "p", ⟨[], some [0x05, 0x00]⟩⟩,
          ⟨some "h1", some "p", ⟨[0x05, 0x00], none⟩⟩] := by
    rw [cutAlong, host_ofList hnames List.mem_cons_self (.refl twoHosts) hasc]
    rfl
  have hhosts := hall _ _ _ _ _ _ _ _ hnames List.mem_cons_self (.refl twoHosts) hasc hcut rfl
  exact absurd hhosts (by decide)

end ScanPlan.Proofs.LocalityHint
