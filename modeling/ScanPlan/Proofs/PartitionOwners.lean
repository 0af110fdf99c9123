import ScanPlan.Partitioning.Catalog
import ScanPlan.Proofs.ParameterEntries

namespace ScanPlan.Proofs.PartitionOwners

open ScanPlan.Proofs.ParameterEntries

/-- The partition that a key belongs to, among those of a set. -/
structure Owns (ps : List Partition) (q : Partition) (k : Key) : Prop where
  mem : q ∈ ps
  start_le : q.start ≤ k
  greatest : ∀ r ∈ ps, r.start ≤ k → r.start ≤ q.start

section Owns

variable {ps : List Partition} {q r : Partition} {k : Key}

theorem Owns.unique (h : (ps.map (·.start)).Nodup) (hq : Owns ps q k) (hr : Owns ps r k) :
    q = r := by
  apply List.inj_on_of_nodup_map h hq.mem hr.mem
  apply List.le_antisymm
  · exact hr.greatest q hq.mem hq.start_le
  · exact hq.greatest r hr.mem hr.start_le

theorem owns_iff_of_perm {qs : List Partition} (h : qs.Perm ps) (q : Partition) (k : Key) :
    Owns qs q k ↔ Owns ps q k := by
  constructor
  · rintro ⟨hmem, hle, hgreatest⟩
    exact ⟨h.mem_iff.mp hmem, hle, fun r hr => hgreatest r (h.mem_iff.mpr hr)⟩
  · rintro ⟨hmem, hle, hgreatest⟩
    exact ⟨h.mem_iff.mpr hmem, hle, fun r hr => hgreatest r (h.mem_iff.mp hr)⟩

end Owns

section Layout

variable {l : Layout} {q : Partition} {k : Key}

theorem takeWhile_eq_filter {α : Type} {P : α → Bool} {as : List α}
    (h : as.Pairwise fun a b => P b = true → P a = true) : as.takeWhile P = as.filter P := by
  induction as with
  | nil => rfl
  | cons a as ih =>
      obtain ⟨hfirst, has⟩ := List.pairwise_cons.mp h
      by_cases ha : P a = true
      · rw [List.takeWhile_cons_of_pos ha, List.filter_cons_of_pos ha, ih has]
      · rw [List.takeWhile_cons_of_neg ha, List.filter_cons_of_neg ha, eq_comm,
          List.filter_eq_nil_iff]
        intro b hb hPb
        exact ha (hfirst b hb hPb)

theorem owner?_eq_getLast? (l : Layout) (k : Key) :
    l.owner? k = (l.partitions.filter fun p => decide (p.start ≤ k)).getLast? := by
  rw [Layout.owner?, takeWhile_eq_filter]
  apply l.sorted.imp
  intro p q hpq hq
  exact decide_eq_true (List.le_trans (of_decide_eq_true hpq) (of_decide_eq_true hq))

theorem owns_of_owner? (h : l.owner? k = some q) : Owns l.partitions q k := by
  rw [owner?_eq_getLast?] at h
  obtain ⟨hmem, hle⟩ := List.mem_filter.mp (List.mem_of_getLast? h)
  refine ⟨hmem, of_decide_eq_true hle, ?_⟩
  intro r hr hrk
  obtain ⟨before, hbefore⟩ := List.getLast?_eq_some_iff.mp h
  have hsorted := l.sorted.filter fun p => decide (p.start ≤ k)
  have hrmem : r ∈ l.partitions.filter fun p => decide (p.start ≤ k) :=
    List.mem_filter.mpr ⟨hr, decide_eq_true hrk⟩
  rw [hbefore] at hsorted hrmem
  rcases List.mem_append.mp hrmem with hr | hr
  · exact of_decide_eq_true ((List.pairwise_append.mp hsorted).2.2 r hr q List.mem_cons_self)
  · rw [List.mem_singleton.mp hr]
    exact List.le_refl _

theorem exists_owner? (hq : q ∈ l.partitions) (hle : q.start ≤ k) :
    ∃ r, l.owner? k = some r := by
  have hmem : q ∈ l.partitions.filter fun p => decide (p.start ≤ k) :=
    List.mem_filter.mpr ⟨hq, decide_eq_true hle⟩
  rw [owner?_eq_getLast?]
  exact ⟨_, List.getLast?_eq_some_getLast (List.ne_nil_of_mem hmem)⟩

theorem partitions_perm (ps : List Partition) : (Layout.ofList ps).partitions.Perm ps :=
  List.mergeSort_perm ps Partition.startsBy

theorem eq_of_perm_of_sorted {ps qs : List Partition} (hstarts : (ps.map (·.start)).Nodup)
    (hperm : qs.Perm ps) (hqs : qs.Pairwise fun q r => q.startsBy r = true)
    (hps : ps.Pairwise fun q r => q.startsBy r = true) : qs = ps := by
  apply List.Perm.eq_of_pairwise _ hqs hps hperm
  intro q r hq hr hqr hrq
  apply List.inj_on_of_nodup_map hstarts (hperm.mem_iff.mp hq) hr
  exact List.le_antisymm (of_decide_eq_true hqr) (of_decide_eq_true hrq)

theorem partitions_ofList {ps qs : List Partition} (hperm : qs.Perm ps)
    (hasc : (qs.map (·.start)).Pairwise (· < ·)) : (Layout.ofList ps).partitions = qs := by
  apply eq_of_perm_of_sorted hasc.nodup ((partitions_perm ps).trans hperm.symm)
    (Layout.ofList ps).sorted
  apply (List.pairwise_map.mp hasc).imp
  intro q r hlt
  exact decide_eq_true (List.le_of_lt hlt)

end Layout

section Catalog

variable {sets : List (String × List Partition)} {p : String} {ps : List Partition} {k : Key}

theorem layout_ofList (hnames : (sets.map (·.1)).Nodup) (hset : (p, ps) ∈ sets) :
    (Catalog.ofList sets).layout p = .ok (Layout.ofList ps) := by
  have hnodup : ((Catalog.ofList sets).sets.reverse.map (·.1)).Nodup := by
    rw [List.map_reverse, List.nodup_reverse, Catalog.ofList, List.map_map]
    exact hnames
  have hmem : (p, Layout.ofList ps) ∈ (Catalog.ofList sets).sets.reverse :=
    List.mem_reverse.mpr (List.mem_map.mpr ⟨(p, ps), hset, rfl⟩)
  have hlookup := (lookup_eq_some_iff_mem hnodup p (Layout.ofList ps)).mpr hmem
  rw [Catalog.layout]
  split
  · rename_i l hl
    exact congrArg Except.ok (Option.some.inj (hl.symm.trans hlookup))
  · rename_i hl
    exact absurd (hl.symm.trans hlookup) (Option.some_ne_none _).symm

theorem boundaries_ofList (hnames : (sets.map (·.1)).Nodup) (hset : (p, ps) ∈ sets)
    {qs : List Partition} (hperm : qs.Perm ps) (hasc : (qs.map (·.start)).Pairwise (· < ·)) :
    (Catalog.ofList sets).boundaries p = .ok (qs.map (·.start)) := by
  rw [Catalog.boundaries, layout_ofList hnames hset, Except.map, Layout.boundaries,
    partitions_ofList hperm hasc]

theorem host_ofList (hnames : (sets.map (·.1)).Nodup) (hset : (p, ps) ∈ sets)
    {qs : List Partition} (hperm : qs.Perm ps) (hasc : (qs.map (·.start)).Pairwise (· < ·)) :
    (Catalog.ofList sets).host p =
      fun k => .ok ((qs.takeWhile fun q => decide (q.start ≤ k)).getLast?.bind (·.host)) := by
  funext k
  rw [Catalog.host, layout_ofList hnames hset, Except.map, Layout.host, Layout.owner?,
    partitions_ofList hperm hasc]

theorem exists_owns_host (hnames : (sets.map (·.1)).Nodup) (hset : (p, ps) ∈ sets)
    {r : Partition} (hr : r ∈ ps) (hle : r.start ≤ k) :
    ∃ q, Owns ps q k ∧ (Catalog.ofList sets).host p k = .ok q.host := by
  obtain ⟨q, hq⟩ := exists_owner? ((partitions_perm ps).mem_iff.mpr hr) hle
  refine ⟨q, (owns_iff_of_perm (partitions_perm ps) q k).mp (owns_of_owner? hq), ?_⟩
  rw [Catalog.host, layout_ofList hnames hset, Except.map, Layout.host, hq]
  rfl

end Catalog

end ScanPlan.Proofs.PartitionOwners
