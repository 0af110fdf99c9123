import ScanPlan.Proofs.LastOwner
import ScanPlan.Proofs.PlanStages

namespace ScanPlan.Proofs.BoundaryInspection

open ScanPlan.Partitioning
open ScanPlan.Proofs.AlignedSplits
open ScanPlan.Proofs.IntervalTiling
open ScanPlan.Proofs.LastOwner
open ScanPlan.Proofs.PartitionOwners
open ScanPlan.Proofs.PlanStages

variable {ks : List Key}

/-- The keys of each partition: from its boundary up to the next one, and without end after
the last. -/
def intervals : List Key → List Interval
  | [] => []
  | k :: ks => ⟨k, ks.head?⟩ :: intervals ks

/-- Boundaries cut the keys from the first of them on into intervals that are not empty. -/
structure CutsKeys (ks : List Key) : Prop where
  ne_nil : ks ≠ []
  existsUnique : ∀ first, ks.head? = some first → ∀ k, first ≤ k →
    ∃! i : Nat, ∃ r, (intervals ks)[i]? = some r ∧ k ∈ r
  nonempty : ∀ r ∈ intervals ks, ∃ k, k ∈ r

theorem tiling_intervals {first : Key} {rest : List Key}
    (h : (first :: rest).Pairwise (· < ·)) :
    Tiling (fun _ => True) none first (intervals (first :: rest)) := by
  induction rest generalizing first with
  | nil => exact .last trivial
  | cons k rest ih =>
      obtain ⟨hfirst, hrest⟩ := List.pairwise_cons.mp h
      exact .cut (hfirst k List.mem_cons_self) trivial (ih hrest)

theorem isChain_of_nonempty (h : ∀ r ∈ intervals ks, ∃ k, k ∈ r) : ks.IsChain (· < ·) := by
  induction ks with
  | nil => exact .nil
  | cons k ks ih =>
      have hks := ih fun r hr => h r (List.mem_cons_of_mem _ hr)
      cases ks with
      | nil => exact .singleton k
      | cons l ks =>
          obtain ⟨m, hle, hlt⟩ := h ⟨k, some l⟩ List.mem_cons_self
          exact .cons_cons (List.lt_of_le_of_lt hle hlt) hks

theorem cutsKeys_iff_pairwise : CutsKeys ks ↔ ks ≠ [] ∧ ks.Pairwise (· < ·) := by
  constructor
  · intro h
    exact ⟨h.ne_nil, List.isChain_iff_pairwise.mp (isChain_of_nonempty h.nonempty)⟩
  · rintro ⟨hne, hasc⟩
    obtain ⟨first, rest, rfl⟩ := List.exists_cons_of_ne_nil hne
    have htiling := tiling_intervals hasc
    refine ⟨hne, ?_, fun r hr => ⟨r.start, htiling.start_mem r hr⟩⟩
    rintro _ ⟨⟩ k hk
    exact htiling.existsUnique_index hk trivial

theorem accepts_iff_exists : accepts ks = true ↔ ∃ p, ofList? ks = .ok p := by
  rw [accepts]
  cases ofList? ks with
  | error d => exact iff_of_false nofun nofun
  | ok p => exact iff_of_true rfl ⟨p, rfl⟩

theorem accepts_iff_pairwise : accepts ks = true ↔ ks ≠ [] ∧ ks.Pairwise (· < ·) := by
  rw [accepts_iff_exists]
  constructor
  · rintro ⟨p, hp⟩
    rw [← boundaries_of_ofList? hp]
    exact ⟨List.cons_ne_nil _ _, p.ascending⟩
  · rintro ⟨hne, hasc⟩
    obtain ⟨first, rest, rfl⟩ := List.exists_cons_of_ne_nil hne
    exact ⟨_, ofList?_of_pairwise hasc⟩

theorem accepts_iff_cutsKeys : accepts ks = true ↔ CutsKeys ks :=
  accepts_iff_pairwise.trans cutsKeys_iff_pairwise.symm

def DescendsAt (ks : List Key) (i : Nat) : Prop :=
  ∃ j, ∃ h : j + 1 < ks.length, i = j + 1 ∧ ks[j + 1] ≤ ks[j]

theorem isChain_take_iff (ks : List Key) (i : Nat) :
    (ks.take i).IsChain (· < ·) ↔ ∀ j, DescendsAt ks j → i ≤ j := by
  rw [List.isChain_iff_getElem]
  simp only [List.length_take, List.getElem_take]
  constructor
  · rintro hasc _ ⟨j, hj, rfl, hle⟩
    apply Nat.le_of_not_lt
    intro hlt
    exact List.not_lt.mpr hle (hasc j (by omega))
  · intro hleast j hj
    apply List.not_le.mp
    intro hle
    have hdescends : DescendsAt ks (j + 1) := ⟨j, by omega, rfl, hle⟩
    have := hleast _ hdescends
    omega

theorem faulty_iff_descendsAt {i : Nat} :
    Faulty ks (.notAscendingAt i) ↔ DescendsAt ks i ∧ (ks.take i).IsChain (· < ·) := by
  constructor
  · rintro (_ | @⟨before, k, l, after, hasc, hl⟩)
    refine ⟨⟨before.length, by simp, rfl, by simpa using hl⟩, ?_⟩
    rw [List.append_cons, List.take_left' (by simp)]
    exact hasc
  · rintro ⟨⟨j, hj, rfl, hle⟩, hasc⟩
    have hsplit : ks = ks.take j ++ ks[j] :: ks[j + 1] :: ks.drop (j + 2) := by
      rw [← List.drop_eq_getElem_cons hj, ← List.drop_eq_getElem_cons (Nat.lt_of_succ_lt hj),
        List.take_append_drop]
    have hlength : (ks.take j).length = j := List.length_take_of_le (by omega)
    rw [← List.take_append_getElem (Nat.lt_of_succ_lt hj)] at hasc
    have hfaulty : Faulty (ks.take j ++ ks[j] :: ks[j + 1] :: ks.drop (j + 2)) _ :=
      .notAscending hasc hle
    rwa [← hsplit, hlength] at hfaulty

theorem ofList?_eq_notAscendingAt_iff {i : Nat} :
    ofList? ks = .error (.notAscendingAt i) ↔ IsLeast {i | DescendsAt ks i} i := by
  rw [ofList?_eq_error_iff, faulty_iff_descendsAt, isChain_take_iff]
  rfl

theorem ofList?_eq_noPartitions_iff : ofList? ks = .error .noPartitions ↔ ks = [] := by
  rw [ofList?_eq_error_iff]
  constructor
  · rintro ⟨⟩
    rfl
  · rintro rfl
    exact .noPartitions

theorem accepts_take {i : Nat} (h : IsLeast {i | DescendsAt ks i} i) :
    accepts (ks.take i) = true := by
  obtain ⟨⟨j, hj, rfl, -⟩, hleast⟩ := h
  refine accepts_iff_pairwise.mpr ⟨?_, ?_⟩
  · apply List.ne_nil_of_length_pos
    rw [List.length_take]
    omega
  · exact List.isChain_iff_pairwise.mp ((isChain_take_iff ks _).mpr hleast)

/-- The reason that goes with boundaries: they cut the keys, there are none, or there is a
first that does not lie after the one before it. -/
inductive Reason (ks : List Key) : String → Prop where
  | ok (h : CutsKeys ks) : Reason ks "ok"
  | noPartitions (h : ks = []) : Reason ks "no-partitions"
  | notAscending {i : Nat} (h : IsLeast {i | DescendsAt ks i} i) :
      Reason ks s!"not-ascending-at-{i}"

theorem verdict_of_error {d : Defect} (h : ofList? ks = .error d) : verdict ks = d.text := by
  rw [verdict, h]

theorem verdict_of_accepts (h : accepts ks = true) : verdict ks = "ok" := by
  obtain ⟨p, hp⟩ := accepts_iff_exists.mp h
  rw [verdict, hp]

theorem reason_verdict (ks : List Key) : Reason ks (verdict ks) := by
  cases hp : ofList? ks with
  | error d =>
      rw [verdict_of_error hp]
      cases d with
      | noPartitions => exact .noPartitions (ofList?_eq_noPartitions_iff.mp hp)
      | notAscendingAt i => exact .notAscending (ofList?_eq_notAscendingAt_iff.mp hp)
  | ok p =>
      have hok := accepts_iff_exists.mpr ⟨p, hp⟩
      rw [verdict_of_accepts hok]
      exact .ok (accepts_iff_cutsKeys.mp hok)

theorem verdict_eq_iff (reason : String) : verdict ks = reason ↔ Reason ks reason := by
  constructor
  · rintro rfl
    exact reason_verdict ks
  · rintro (h | h | h)
    · exact verdict_of_accepts (accepts_iff_cutsKeys.mpr h)
    · exact verdict_of_error (ofList?_eq_noPartitions_iff.mpr h)
    · exact verdict_of_error (ofList?_eq_notAscendingAt_iff.mpr h)

/-- What inspecting boundaries tells. -/
structure Inspection (ks : List Key) : Prop where
  accepts_iff : accepts ks = true ↔ CutsKeys ks
  cutsKeys_iff : CutsKeys ks ↔
    ks ≠ [] ∧ ∀ i j (_ : i < j) (_ : j < ks.length), ks[i] < ks[j]
  verdict_iff : ∀ reason, verdict ks = reason ↔ Reason ks reason
  accepts_take : ∀ i, IsLeast {i | DescendsAt ks i} i → accepts (ks.take i) = true

theorem inspection (ks : List Key) : Inspection ks := by
  constructor
  case accepts_iff => exact accepts_iff_cutsKeys
  case cutsKeys_iff =>
      rw [cutsKeys_iff_pairwise, List.pairwise_iff_getElem]
      apply and_congr_right
      intro _
      exact ⟨fun h i j hij hj => h i j (by omega) hj hij, fun h i j _ hj hij => h i j hij hj⟩
  case verdict_iff => exact verdict_eq_iff
  case accepts_take => exact fun i => BoundaryInspection.accepts_take

theorem accepts_boundaries_iff (ps : List Partition) :
    accepts (Layout.ofList ps).boundaries = true ↔ ps ≠ [] ∧ (ps.map (·.start)).Nodup := by
  have hperm := boundaries_perm ps
  have hempty : (Layout.ofList ps).boundaries = [] ↔ ps = [] := by
    rw [← List.length_eq_zero_iff, hperm.length_eq, List.length_eq_zero_iff, List.map_eq_nil_iff]
  rw [accepts_iff_pairwise, Ne, hempty, ← hperm.nodup_iff]
  apply and_congr_right
  intro _
  constructor
  · exact fun hasc => hasc.nodup
  · intro hnodup
    apply ((boundaries_ascend _).and hnodup).imp
    rintro k l ⟨hle, hne⟩
    exact (List.le_iff_lt_or_eq.mp hle).resolve_right hne

/-- Inspection accepts the boundaries that cut the keys, and tells of any others that there are
none or where they first do not ascend. It accepts what a catalog lists of a set exactly when
the set has partitions and no two of them have one start. -/
theorem boundaries_inspected : (∀ ks, Inspection ks) ∧
    ∀ (sets : List (String × List Partition)) p ps, (sets.map (·.1)).Nodup → (p, ps) ∈ sets →
      ∃ bs, (Catalog.ofList sets).boundaries p = .ok bs ∧
        (accepts bs = true ↔ ps ≠ [] ∧ (ps.map (·.start)).Nodup) := by
  refine ⟨inspection, ?_⟩
  intro sets p ps hnames hset
  refine ⟨(Layout.ofList ps).boundaries, ?_, accepts_boundaries_iff ps⟩
  rw [Catalog.boundaries, layout_ofList hnames hset]
  rfl

theorem boundaries_inspected_tiedHosts :
    verdict [[], [0x07], [0x06], [0x08], [0x08]] = "not-ascending-at-2" ∧
      accepts [[], [0x07]] = true ∧
      (∃ bs, (Catalog.ofList [("p", tiedHosts)]).boundaries "p" = .ok bs ∧
        accepts bs = false) ∧
      ∃ bs, (Catalog.ofList [("p", tiedHosts.tail)]).boundaries "p" = .ok bs ∧
        accepts bs = true := by
  obtain ⟨hinspection, hlisted⟩ := boundaries_inspected
  have hdescends : IsLeast {i | DescendsAt [[], [0x07], [0x06], [0x08], [0x08]] i} 2 := by
    refine ⟨⟨1, by decide, rfl, by decide⟩, ?_⟩
    rintro _ ⟨j, hj, rfl, hle⟩
    cases j with
    | zero =>
        change ([0x07] : Key) ≤ [] at hle
        exact absurd hle (by decide)
    | succ j => omega
  refine ⟨?_, (hinspection _).accepts_take 2 hdescends, ?_, ?_⟩
  · exact ((hinspection _).verdict_iff _).mpr (.notAscending hdescends)
  · obtain ⟨bs, hbs, hiff⟩ := hlisted [("p", tiedHosts)] "p" tiedHosts (by decide)
      List.mem_cons_self
    refine ⟨bs, hbs, ?_⟩
    rw [Bool.eq_false_iff, Ne, hiff]
    exact fun h => absurd h.2 (by decide)
  · obtain ⟨bs, hbs, hiff⟩ := hlisted [("p", tiedHosts.tail)] "p" tiedHosts.tail (by decide)
      List.mem_cons_self
    exact ⟨bs, hbs, hiff.mpr (by decide)⟩

end ScanPlan.Proofs.BoundaryInspection
