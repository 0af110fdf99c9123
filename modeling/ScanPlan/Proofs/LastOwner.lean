import ScanPlan.Proofs.PartitionOwners

namespace ScanPlan.Proofs.LastOwner

open ScanPlan.Proofs.PartitionOwners

variable {ps qs : List Partition} {q r : Partition} {k : Key}

def startingAt (s : Key) (ps : List Partition) : List Partition :=
  ps.filter fun r => decide (r.start = s)

theorem mem_startingAt_iff {s : Key} : q ∈ startingAt s ps ↔ q ∈ ps ∧ q.start = s := by
  rw [startingAt, List.mem_filter, decide_eq_true_eq]

theorem startingAt_append_cons (before after : List Partition) (q : Partition) :
    startingAt q.start (before ++ q :: after) =
      startingAt q.start before ++ q :: startingAt q.start after := by
  have hq : decide (q.start = q.start) = true := decide_eq_true rfl
  rw [startingAt, List.filter_append, List.filter_cons, if_pos hq]
  rfl

theorem startingAt_ofList (s : Key) (ps : List Partition) :
    startingAt s (Layout.ofList ps).partitions = startingAt s ps := by
  have hties : (startingAt s ps).Pairwise fun q r => q.startsBy r = true := by
    apply List.pairwise_of_forall_mem_list
    intro q hq r hr
    have hstart := (mem_startingAt_iff.mp hq).2.trans (mem_startingAt_iff.mp hr).2.symm
    rw [Partition.startsBy, hstart]
    exact decide_eq_true (List.le_refl r.start)
  have hsublist : (startingAt s ps).Sublist (Layout.ofList ps).partitions :=
    List.sublist_mergeSort Partition.startsBy_trans Partition.startsBy_total hties
      List.filter_sublist
  have hself : (startingAt s ps).filter (fun r => decide (r.start = s)) = startingAt s ps :=
    List.filter_eq_self.mpr fun r hr => (List.mem_filter.mp hr).2
  have hstarting := hsublist.filter fun r => decide (r.start = s)
  rw [hself] at hstarting
  exact (hstarting.eq_of_length ((partitions_perm ps).filter _).length_eq.symm).symm

theorem ofList_eq_of_perm (hperm : qs.Perm ps) (hstarts : (ps.map (·.start)).Nodup) :
    Layout.ofList qs = Layout.ofList ps := by
  have hsame : (Layout.ofList qs).partitions = (Layout.ofList ps).partitions := by
    apply eq_of_perm_of_sorted _ _ (Layout.ofList qs).sorted (Layout.ofList ps).sorted
    · exact (((partitions_perm ps).map _).nodup_iff).mpr hstarts
    · exact ((partitions_perm qs).trans hperm).trans (partitions_perm ps).symm
  rw [Layout.ofList, Layout.ofList, Layout.mk.injEq]
  exact hsame

theorem owner?_eq_none_iff : (Layout.ofList ps).owner? k = none ↔ ∀ q ∈ ps, k < q.start := by
  rw [owner?_eq_getLast?, List.getLast?_eq_none_iff, List.filter_eq_nil_iff]
  simp only [decide_eq_true_eq, List.not_le, (partitions_perm ps).mem_iff]

/-- The owner of a key in a layout is the last given of the partitions that have the greatest
start at or before it. -/
theorem owner?_eq_some_iff : (Layout.ofList ps).owner? k = some q ↔
    Owns ps q k ∧ (startingAt q.start ps).getLast? = some q := by
  have hlast : ∀ q, (Layout.ofList ps).owner? k = some q →
      Owns ps q k ∧ (startingAt q.start ps).getLast? = some q := by
    intro q hq
    have howns := (owns_iff_of_perm (partitions_perm ps) q k).mp (owns_of_owner? hq)
    refine ⟨howns, ?_⟩
    rw [owner?_eq_getLast?] at hq
    obtain ⟨before, hbefore⟩ := List.getLast?_eq_some_iff.mp hq
    have hsame : startingAt q.start (Layout.ofList ps).partitions =
        startingAt q.start (before ++ [q]) := by
      rw [← hbefore, startingAt, startingAt, List.filter_filter]
      apply List.filter_congr
      intro r _
      rw [eq_comm, Bool.and_eq_left_iff_imp, decide_eq_true_eq, decide_eq_true_eq]
      intro hr
      rw [hr]
      exact howns.start_le
    rw [← startingAt_ofList, hsame, startingAt_append_cons]
    exact List.getLast?_concat
  constructor
  · exact hlast q
  · rintro ⟨howns, hq⟩
    obtain ⟨r, hr⟩ := exists_owner? ((partitions_perm ps).mem_iff.mpr howns.mem) howns.start_le
    obtain ⟨howns', hr'⟩ := hlast r hr
    have hstart : r.start = q.start := by
      apply List.le_antisymm
      · exact howns.greatest r howns'.mem howns'.start_le
      · exact howns'.greatest q howns.mem howns.start_le
    rw [hstart, hq] at hr'
    rw [hr, hr']

theorem getLast?_startingAt_iff : (startingAt q.start ps).getLast? = some q ↔
    ∃ before after, ps = before ++ q :: after ∧ ∀ r ∈ after, r.start ≠ q.start := by
  constructor
  · intro h
    obtain ⟨others, hothers⟩ := List.getLast?_eq_some_iff.mp h
    obtain ⟨before, rest, rfl, -, hrest⟩ := List.filter_eq_append_iff.mp hothers
    obtain ⟨between, after, rfl, -, -, hafter⟩ := List.filter_eq_cons_iff.mp hrest
    refine ⟨before ++ between, after, (List.append_assoc _ _ _).symm, ?_⟩
    intro r hr hstart
    exact List.filter_eq_nil_iff.mp hafter r hr (decide_eq_true hstart)
  · rintro ⟨before, after, rfl, hafter⟩
    have hnone : startingAt q.start after = [] := by
      apply List.filter_eq_nil_iff.mpr
      intro r hr hstart
      exact hafter r hr (of_decide_eq_true hstart)
    rw [startingAt_append_cons, hnone]
    exact List.getLast?_concat

/-- The host that a key gets from partitions in the order in which they are given: that of the
last one of those with the greatest start at or before the key. A key before all starts gets
none. -/
inductive HostedBy (ps : List Partition) (k : Key) : Option String → Prop where
  | unowned (h : ∀ q ∈ ps, k < q.start) : HostedBy ps k none
  | owned (before : List Partition) (q : Partition) (after : List Partition)
      (hps : ps = before ++ q :: after) (howns : Owns ps q k)
      (hlast : ∀ r ∈ after, r.start ≠ q.start) : HostedBy ps k q.host

theorem hostedBy_iff (host : Option String) :
    HostedBy ps k host ↔ host = (Layout.ofList ps).host k := by
  constructor
  · intro h
    cases h with
    | unowned h => rw [Layout.host, owner?_eq_none_iff.mpr h, Option.bind_none]
    | owned before q after hps howns hlast =>
        have hq := getLast?_startingAt_iff.mpr ⟨before, after, hps, hlast⟩
        rw [Layout.host, owner?_eq_some_iff.mpr ⟨howns, hq⟩, Option.bind_some]
  · rintro rfl
    cases howner : (Layout.ofList ps).owner? k with
    | none =>
        rw [Layout.host, howner]
        exact .unowned (owner?_eq_none_iff.mp howner)
    | some q =>
        obtain ⟨howns, hq⟩ := owner?_eq_some_iff.mp howner
        obtain ⟨before, after, hps, hlast⟩ := getLast?_startingAt_iff.mp hq
        rw [Layout.host, howner]
        exact .owned before q after hps howns hlast

theorem boundaries_perm (ps : List Partition) :
    (Layout.ofList ps).boundaries.Perm (ps.map (·.start)) :=
  (partitions_perm ps).map _

theorem boundaries_ascend (l : Layout) : l.boundaries.Pairwise (· ≤ ·) := by
  rw [Layout.boundaries, List.pairwise_map]
  exact l.sorted.imp of_decide_eq_true

/-- A catalog lists the starts of a set's partitions in order, and gives every key the host of
the last given partition among those with the greatest start at or before it. When no two of
the partitions have one start, neither depends on the order in which they were given. -/
theorem host_of_last_given {sets : List (String × List Partition)} {p : String}
    (hnames : (sets.map (·.1)).Nodup) (hset : (p, ps) ∈ sets) :
    (∃ bs, (Catalog.ofList sets).boundaries p = .ok bs ∧ bs.Perm (ps.map (·.start)) ∧
        bs.Pairwise (· ≤ ·)) ∧
      (∀ k, ∃ host, (Catalog.ofList sets).host p k = .ok host ∧
        ∀ host', HostedBy ps k host' ↔ host' = host) ∧
      ((ps.map (·.start)).Nodup → ∀ (others : List (String × List Partition)) qs,
        (others.map (·.1)).Nodup → (p, qs) ∈ others → qs.Perm ps →
          (Catalog.ofList others).boundaries p = (Catalog.ofList sets).boundaries p ∧
            ∀ k, (Catalog.ofList others).host p k = (Catalog.ofList sets).host p k) := by
  have hlayout := layout_ofList hnames hset
  refine ⟨⟨(Layout.ofList ps).boundaries, ?_, boundaries_perm ps, boundaries_ascend _⟩, ?_, ?_⟩
  · rw [Catalog.boundaries, hlayout]
    rfl
  · intro k
    refine ⟨(Layout.ofList ps).host k, ?_, hostedBy_iff⟩
    rw [Catalog.host, hlayout]
    rfl
  · intro hstarts others qs hnames' hset' hperm
    have hlayout' := layout_ofList hnames' hset'
    rw [ofList_eq_of_perm hperm hstarts, ← hlayout] at hlayout'
    refine ⟨?_, fun k => ?_⟩
    · rw [Catalog.boundaries, hlayout', Catalog.boundaries]
    · rw [Catalog.host, hlayout', Catalog.host]

def tiedHosts : List Partition :=
  [⟨[0x05], some "rs1"⟩, ⟨[0x02], none⟩, ⟨[0x05], some "rs2"⟩, ⟨[0x09], some "rs3"⟩]

theorem host_of_last_given_tiedHosts :
    (Catalog.ofList [("p", tiedHosts)]).boundaries "p" =
        .ok [[0x02], [0x05], [0x05], [0x09]] ∧
      (Catalog.ofList [("p", tiedHosts)]).host "p" [0x07] = .ok (some "rs2") ∧
      (Catalog.ofList [("p", tiedHosts)]).host "p" [0x01] = .ok none ∧
      (Catalog.ofList [("p", tiedHosts.tail.reverse)]).host "p" [0x07] =
        (Catalog.ofList [("p", tiedHosts.tail)]).host "p" [0x07] := by
  have hset : ("p", tiedHosts) ∈ [("p", tiedHosts)] := List.mem_cons_self
  have hset' : ("p", tiedHosts.tail) ∈ [("p", tiedHosts.tail)] := List.mem_cons_self
  obtain ⟨⟨bs, hbs, hperm, hasc⟩, hhosts, -⟩ := host_of_last_given (by decide) hset
  obtain ⟨-, -, hsame⟩ := host_of_last_given (by decide) hset'
  refine ⟨?_, ?_, ?_, ?_⟩
  · have hsorted : bs = [[0x02], [0x05], [0x05], [0x09]] := by
      apply List.Perm.eq_of_pairwise _ hasc (by decide) (hperm.trans (by decide))
      intro a b _ _ hab hba
      exact List.le_antisymm hab hba
    rw [hbs, hsorted]
  · obtain ⟨host, hhost, hiff⟩ := hhosts [0x07]
    have howns : Owns tiedHosts ⟨[0x05], some "rs2"⟩ [0x07] :=
      ⟨by decide, by decide, by decide⟩
    have hserved : HostedBy tiedHosts [0x07] (some "rs2") :=
      .owned (tiedHosts.take 2) ⟨[0x05], some "rs2"⟩ _ rfl howns (by decide)
    rw [hhost, ← (hiff _).mp hserved]
  · obtain ⟨host, hhost, hiff⟩ := hhosts [0x01]
    rw [hhost, ← (hiff none).mp (.unowned (by decide))]
  · exact (hsame (by decide) _ _ (by decide) List.mem_cons_self (List.reverse_perm _)).2 _

end ScanPlan.Proofs.LastOwner
