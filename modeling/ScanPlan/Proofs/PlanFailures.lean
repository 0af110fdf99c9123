import ScanPlan.Proofs.PlanStages

namespace ScanPlan.Proofs.PlanFailures

open ScanPlan.Alignment ScanPlan.Planning
open ScanPlan.Proofs.AlignedSplits
open ScanPlan.Proofs.PlanCoverage
open ScanPlan.Proofs.PlanStages
open ScanPlan.Proofs.ScanExtent

section Plans

variable (q : Query) (engine : Engine) (topology : Topology)

def Unites (x : Extent) : Prop :=
  ∃ scans, Yields (engine.scans q) scans ∧ Extent.ofScans? scans = .ok x

/-- The first collaborator of a plan that fails: its task, its failure, and all that was
asked of collaborators until then. -/
inductive Culprit : Task → Failure → List Action → Prop where
  | prepare {c : Failure} (h : FailsWith (engine.scans q) c) :
      Culprit .prepare c [.prepare q]
  | listing {x : Extent} {c : Failure} (hx : Unites q engine x)
      (h : FailsWith (topology.boundaries x.partitionSet) c) :
      Culprit (.listBoundaries x.partitionSet) c [.prepare q, .listBoundaries x.partitionSet]
  | lookup {x : Extent} {ks : List Key} {before after : List Split} {s : Split} {c : Failure}
      (hx : Unites q engine x) (hks : Yields (topology.boundaries x.partitionSet) ks)
      (hcut : (x.align ks x.groupLength none).outcome = .ok (before ++ s :: after))
      (hbefore : ∀ t ∈ before, ∃ host, topology.host x.partitionSet t.range.start = .ok host)
      (h : topology.host x.partitionSet s.range.start = .error c) :
      Culprit (.resolveHost x.partitionSet) c
        (.prepare q :: .listBoundaries x.partitionSet ::
          (before ++ [s]).map (lookup x.partitionSet))

/-- What is asked of collaborators for a plan, and how the plan ends. -/
inductive Planned : List Action → Except Failure (List Split) → Prop where
  /-- A collaborator fails. -/
  | collaborator {task : Task} {c f : Failure} {asks : List Action}
      (h : Culprit q engine topology task c asks) (hf : Ascribed task c f) :
      Planned asks (.error f)
  /-- There is nothing to scan. -/
  | nothing (h : Yields (engine.scans q) []) : Planned [.prepare q] (.ok [])
  /-- A scan does not agree with the first one, and those between them do. -/
  | mismatch {first scan : Scan} {before after : List Scan} {f : Failure}
      (h : Yields (engine.scans q) (first :: before ++ scan :: after))
      (hbefore : ∀ s ∈ before, Agrees first s) (hf : Disagrees first scan f) :
      Planned [.prepare q] (.error f)
  /-- The boundaries cut no table. -/
  | boundaries {x : Extent} {ks : List Key} {d : Partitioning.Defect}
      (hx : Unites q engine x) (hks : Yields (topology.boundaries x.partitionSet) ks)
      (hd : Faulty ks d) :
      Planned [.prepare q, .listBoundaries x.partitionSet]
        (.error (.badBoundaries x.partitionSet d))
  /-- All stages are passed, and the host of each split is asked for once. -/
  | splits {x : Extent} {ks : List Key} {splits : List Split} (hx : Unites q engine x)
      (hks : Yields (topology.boundaries x.partitionSet) ks)
      (h : (x.align ks x.groupLength (some (topology.host x.partitionSet))).outcome =
        .ok splits) :
      Planned
        (.prepare q :: .listBoundaries x.partitionSet :: splits.map (lookup x.partitionSet))
        (.ok splits)

end Plans

section Stages

variable {q : Query} {engine : Engine} {topology : Topology} {x : Extent} {ks : List Key}

def cutting (topology : Topology) (x : Extent) : Run (List Split) := do
  let boundaries ← listBoundaries topology x.partitionSet
  x.align boundaries x.groupLength (some (locator topology x.partitionSet))

theorem outcome_prepare_of_yields {scans : List Scan} (h : Yields (engine.scans q) scans) :
    (prepare engine q).outcome = .ok scans := by
  rw [prepare, Run.outcome_ask, read_of_yields h, guarded_ok]

theorem plan_of_failsWith {c : Failure} (h : FailsWith (engine.scans q) c) :
    plan q engine topology = ⟨[.prepare q], .error (ascribe .prepare c)⟩ := by
  have hread : (prepare engine q).outcome = .error (ascribe .prepare c) := by
    rw [prepare, Run.outcome_ask, read_of_failsWith h, guarded_error]
  exact Run.bind_of_error hread _

theorem plan_of_yields_nil (h : Yields (engine.scans q) []) :
    plan q engine topology = ⟨[.prepare q, .report .nothingToPlan], .ok []⟩ :=
  Run.bind_of_ok (outcome_prepare_of_yields h) _

theorem asked_unite (scans : List Scan) :
    asked (unite scans) = [] ∧ (unite scans).outcome = Extent.ofScans? scans :=
  reporting (.ofExcept (Extent.ofScans? scans)) .extentFound

theorem plan_of_mismatch {scans : List Scan} {f : Failure} (h : Yields (engine.scans q) scans)
    (hne : scans ≠ []) (hf : Extent.ofScans? scans = .error f) :
    asked (plan q engine topology) = [.prepare q] ∧
      (plan q engine topology).outcome = .error f := by
  obtain ⟨hasked, houtcome⟩ := asked_unite scans
  rw [hf] at houtcome
  rw [plan, asked_bind_of_ok (outcome_prepare_of_yields h),
    Run.bind_of_ok (outcome_prepare_of_yields h), if_neg hne, asked_bind_of_error houtcome,
    Run.bind_of_error houtcome, hasked]
  exact ⟨rfl, rfl⟩

theorem plan_of_unites (h : Unites q engine x) (topology : Topology) :
    asked (plan q engine topology) = .prepare q :: asked (cutting topology x) ∧
      (plan q engine topology).outcome = (cutting topology x).outcome := by
  obtain ⟨scans, hscans, hx⟩ := h
  obtain ⟨hasked, houtcome⟩ := asked_unite scans
  rw [hx] at houtcome
  have hne : scans ≠ [] := by
    rintro rfl
    contradiction
  rw [plan, asked_bind_of_ok (outcome_prepare_of_yields hscans),
    Run.bind_of_ok (outcome_prepare_of_yields hscans), if_neg hne, asked_bind_of_ok houtcome,
    Run.bind_of_ok houtcome, hasked, ← bind_assoc]
  obtain ⟨hcut, hcut'⟩ := reporting (cutting topology x) fun splits =>
    .planned splits.length scans.length x.partitionSet
  exact ⟨congrArg (List.cons (Action.prepare q)) hcut, hcut'⟩

theorem cutting_of_failsWith {c : Failure}
    (h : FailsWith (topology.boundaries x.partitionSet) c) :
    cutting topology x = ⟨[.listBoundaries x.partitionSet],
      .error (ascribe (.listBoundaries x.partitionSet) c)⟩ := by
  have hread : (listBoundaries topology x.partitionSet).outcome =
      .error (ascribe (.listBoundaries x.partitionSet) c) := by
    rw [listBoundaries, Run.outcome_ask, read_of_failsWith h, guarded_error]
  exact Run.bind_of_error hread _

theorem cutting_of_yields (h : Yields (topology.boundaries x.partitionSet) ks) :
    asked (cutting topology x) = .listBoundaries x.partitionSet ::
        asked (x.align ks x.groupLength (some (locator topology x.partitionSet))) ∧
      (cutting topology x).outcome =
        (x.align ks x.groupLength (some (locator topology x.partitionSet))).outcome := by
  have hread : (listBoundaries topology x.partitionSet).outcome = .ok ks := by
    rw [listBoundaries, Run.outcome_ask, read_of_yields h, guarded_ok]
  rw [cutting, asked_bind_of_ok hread, Run.bind_of_ok hread]
  exact ⟨rfl, rfl⟩

theorem exists_groupLength (h : Unites q engine x) : ∃ g : Nat, x.groupLength = g := by
  obtain ⟨scans, -, hx⟩ := h
  obtain ⟨g, hg, -⟩ := agree_of_ofScans? hx
  exact ⟨g, hg⟩

end Stages

section Classification

variable {q : Query} {engine : Engine} {topology : Topology}

theorem plan_of_culprit {task : Task} {c : Failure} {asks : List Action}
    (h : Culprit q engine topology task c asks) :
    asked (plan q engine topology) = asks ∧
      (plan q engine topology).outcome = .error (ascribe task c) := by
  cases h with
  | prepare h =>
      rw [plan_of_failsWith h]
      exact ⟨rfl, rfl⟩
  | listing hx h =>
      obtain ⟨hasked, houtcome⟩ := plan_of_unites hx topology
      rw [hasked, houtcome, cutting_of_failsWith h]
      exact ⟨rfl, rfl⟩
  | @lookup x ks before after s c hx hks hcut hbefore h =>
      obtain ⟨hasked, houtcome⟩ := plan_of_unites hx topology
      obtain ⟨hcutting, hcutting'⟩ := cutting_of_yields hks
      obtain ⟨g, hg⟩ := exists_groupLength hx
      rw [hg] at hcut hcutting hcutting'
      have hanswered : ∀ t ∈ before, ∃ host,
          locator topology x.partitionSet t.range.start = .ok host := by
        intro t ht
        obtain ⟨host, hhost⟩ := hbefore t ht
        exact ⟨host, (guarded_eq_ok_iff _ _ _).mpr hhost⟩
      have hfails : locator topology x.partitionSet s.range.start =
          .error (ascribe (.resolveHost x.partitionSet) c) := by
        rw [locator, h, guarded_error]
      obtain ⟨halign, halign'⟩ := align_of_failure hcut hanswered hfails
      rw [hasked, houtcome, hcutting, hcutting', halign, halign']
      exact ⟨rfl, rfl⟩

theorem plan_of_planned {asks : List Action} {outcome : Except Failure (List Split)}
    (h : Planned q engine topology asks outcome) :
    asked (plan q engine topology) = asks ∧ (plan q engine topology).outcome = outcome := by
  cases h with
  | collaborator h hf =>
      rw [hf.eq]
      exact plan_of_culprit h
  | nothing h =>
      rw [plan_of_yields_nil h]
      exact ⟨rfl, rfl⟩
  | @mismatch first scan before after f h hbefore hf =>
      exact plan_of_mismatch h (List.cons_ne_nil _ _)
        ((ofScans?_cons_eq_error_iff first _ f).mpr ⟨before, scan, after, rfl, hbefore, hf⟩)
  | boundaries hx hks hd =>
      obtain ⟨hasked, houtcome⟩ := plan_of_unites hx topology
      obtain ⟨hcutting, hcutting'⟩ := cutting_of_yields hks
      rw [hasked, houtcome, hcutting, hcutting', align_of_faulty hd]
      exact ⟨rfl, rfl⟩
  | @splits x ks splits hx hks h =>
      obtain ⟨hasked, houtcome⟩ := plan_of_unites hx topology
      obtain ⟨hcutting, hcutting'⟩ := cutting_of_yields hks
      obtain ⟨g, hg⟩ := exists_groupLength hx
      rw [hg] at h hcutting hcutting'
      have hlocator : ∀ k host, topology.host x.partitionSet k = .ok host →
          locator topology x.partitionSet k = .ok host :=
        fun k host hhost => (guarded_eq_ok_iff _ _ _).mpr hhost
      obtain ⟨halign, halign'⟩ := align_of_success h hlocator
      rw [hasked, houtcome, hcutting, hcutting', halign, halign']
      exact ⟨rfl, rfl⟩

theorem exists_planned_of_unites {x : Extent} (hx : Unites q engine x) :
    ∃ asks outcome, Planned q engine topology asks outcome := by
  rcases yields_or_failsWith (topology.boundaries x.partitionSet) with ⟨ks, hks⟩ | ⟨c, hc⟩
  · obtain ⟨g, hg⟩ := exists_groupLength hx
    rcases align_cases x ks g (topology.host x.partitionSet) with
      ⟨d, hd⟩ | ⟨before, s, after, c, hcut, hbefore, hc⟩ | ⟨splits, hsplits⟩
    · exact ⟨_, _, .boundaries hx hks hd⟩
    · rw [← hg] at hcut
      exact ⟨_, _, .collaborator (.lookup hx hks hcut hbefore hc) (ascribed_ascribe _ _)⟩
    · rw [← hg] at hsplits
      exact ⟨_, _, .splits hx hks hsplits⟩
  · exact ⟨_, _, .collaborator (.listing hx hc) (ascribed_ascribe _ _)⟩

theorem exists_planned (q : Query) (engine : Engine) (topology : Topology) :
    ∃ asks outcome, Planned q engine topology asks outcome := by
  rcases yields_or_failsWith (engine.scans q) with ⟨scans, hscans⟩ | ⟨c, hc⟩
  · cases scans with
    | nil => exact ⟨_, _, .nothing hscans⟩
    | cons first rest =>
        cases hx : Extent.ofScans? (first :: rest) with
        | ok x => exact exists_planned_of_unites ⟨_, hscans, hx⟩
        | error f =>
            obtain ⟨before, scan, after, rfl, hbefore, hf⟩ :=
              (ofScans?_cons_eq_error_iff first rest f).mp hx
            exact ⟨_, _, .mismatch hscans hbefore hf⟩
  · exact ⟨_, _, .collaborator (.prepare hc) (ascribed_ascribe _ _)⟩

theorem family_of_disagrees {first scan : Scan} {f : Failure} (h : Disagrees first scan f) :
    f.family? = some .planning ∧ f.cause? = none := by
  cases h with
  | partitionSet _ => exact ⟨rfl, rfl⟩
  | groupLength _ _ => exact ⟨rfl, rfl⟩

theorem culprit_or_family_of_planned {asks : List Action} {f : Failure}
    (h : Planned q engine topology asks (.error f)) :
    (∃ task c, Culprit q engine topology task c asks ∧ Ascribed task c f) ∨
      f.family? = some .planning ∧ f.cause? = none := by
  cases h with
  | collaborator h hf => exact .inl ⟨_, _, h, hf⟩
  | mismatch _ _ hf => exact .inr (family_of_disagrees hf)
  | boundaries _ _ _ => exact .inr ⟨rfl, rfl⟩

theorem planned_plan (q : Query) (engine : Engine) (topology : Topology) :
    Planned q engine topology (asked (plan q engine topology))
      (plan q engine topology).outcome := by
  obtain ⟨asks, outcome, h⟩ := exists_planned q engine topology
  obtain ⟨rfl, rfl⟩ := plan_of_planned h
  exact h

/-- A plan asks and ends as told. A failure of it is of one of the library's families,
and without a cause unless a collaborator failed. -/
theorem planned_iff (q : Query) (engine : Engine) (topology : Topology) :
    (∀ asks outcome, Planned q engine topology asks outcome ↔
        asked (plan q engine topology) = asks ∧
          (plan q engine topology).outcome = outcome) ∧
      ∀ f, (plan q engine topology).outcome = .error f →
        f.family?.isSome = true ∧
          ((∃ task c asks, Culprit q engine topology task c asks) ∨ f.cause? = none) := by
  refine ⟨fun asks outcome => ⟨plan_of_planned, ?_⟩, ?_⟩
  · rintro ⟨rfl, rfl⟩
    exact planned_plan q engine topology
  · intro f hf
    have hplanned := planned_plan q engine topology
    rw [hf] at hplanned
    rcases culprit_or_family_of_planned hplanned with ⟨task, c, hc, hasc⟩ | ⟨hfamily, hcause⟩
    · exact ⟨hasc.isSome_family, .inl ⟨task, c, _, hc⟩⟩
    · exact ⟨by rw [hfamily]; rfl, .inr hcause⟩

def slowTopology : Topology where
  boundaries _ := .ok ([[], [0x02, 0x90], [0x03, 0x10], [0x03, 0x90]].map .ok)
  host _ k := if k = [0x03, 0x00] then .error (.foreign .timeout "late") else .ok none

theorem planned_slow_lookup :
    asked (plan ⟨"q", .empty⟩ (fixedEngine twoScans) slowTopology) =
        [.prepare ⟨"q", .empty⟩, .listBoundaries "p", .resolveHost "p" [0x00, 0x40],
          .resolveHost "p" [0x03, 0x00]] ∧
      (plan ⟨"q", .empty⟩ (fixedEngine twoScans) slowTopology).outcome =
        .error (.wrapped (.resolveHost "p") (.foreign .timeout "late")) := by
  have hcut : (Extent.align ⟨⟨[0x00, 0x40], some [0x04]⟩, 1, "p"⟩
      [[], [0x02, 0x90], [0x03, 0x10], [0x03, 0x90]] 1 none).outcome =
        .ok ([⟨none, some "p", ⟨[0x00, 0x40], some [0x03, 0x00]⟩⟩] ++
          ⟨none, some "p", ⟨[0x03, 0x00], some [0x04]⟩⟩ :: []) := rfl
  have hculprit : Culprit ⟨"q", .empty⟩ (fixedEngine twoScans) slowTopology (.resolveHost "p")
      (.foreign .timeout "late") _ :=
    .lookup (x := ⟨⟨[0x00, 0x40], some [0x04]⟩, 1, "p"⟩) ⟨twoScans, rfl, by decide⟩ rfl hcut
      (fun t ht => ⟨none, by rw [List.mem_singleton.mp ht]; rfl⟩) rfl
  exact ((planned_iff _ _ _).1 _ _).mp (.collaborator hculprit (.foreign rfl))

theorem isPlanning_iff_of_ascribed {task : Task} {c f : Failure} (h : Ascribed task c f) :
    f.isPlanning = true ↔ c.family? = none ∨ c.isPlanning = true := by
  cases h with
  | own hfamily =>
      refine ⟨.inr, ?_⟩
      rintro (hnone | hplanning)
      · rw [hnone] at hfamily
        contradiction
      · exact hplanning
  | foreign hnone => exact iff_of_true rfl (.inl hnone)

/-- A failure of a plan is a planning failure unless it comes from a collaborator that
fails in another of the library's families. -/
theorem isPlanning_iff_of_plan {f : Failure} (h : (plan q engine topology).outcome = .error f) :
    (f.isPlanning = true ↔ ∀ task c asks, Culprit q engine topology task c asks →
        c.family? = none ∨ c.isPlanning = true) ∧
      ∀ task c asks, Culprit q engine topology task c asks → Ascribed task c f := by
  have hall : ∀ task c asks, Culprit q engine topology task c asks → Ascribed task c f := by
    intro task c asks hc
    obtain rfl := Except.error.inj (h.symm.trans (plan_of_culprit hc).2)
    exact ascribed_ascribe task c
  refine ⟨⟨?_, ?_⟩, hall⟩
  · intro hf task c asks hc
    exact (isPlanning_iff_of_ascribed (hall task c asks hc)).mp hf
  · intro hplanning
    have hplanned := planned_plan q engine topology
    rw [h] at hplanned
    rcases culprit_or_family_of_planned hplanned with ⟨task, c, hc, hf⟩ | ⟨hfamily, -⟩
    · exact (isPlanning_iff_of_ascribed hf).mpr (hplanning task c _ hc)
    · rw [Failure.isPlanning, hfamily]
      rfl

end Classification

def lossyEngine : Engine where
  scans _ := .ok [.ok ⟨[0x02], [0x04], 1, "p", by decide⟩,
    .error (.foreign .execution "worker lost")]

theorem isPlanning_iff_lost_worker :
    (plan ⟨"q", .empty⟩ lossyEngine (fixedTopology [[]])).outcome =
        .error (.foreign .execution "worker lost") ∧
      ¬ (∀ task c asks, Culprit ⟨"q", .empty⟩ lossyEngine (fixedTopology [[]]) task c asks →
        c.family? = none ∨ c.isPlanning = true) := by
  have hplan : (plan ⟨"q", .empty⟩ lossyEngine (fixedTopology [[]])).outcome =
      .error (.foreign .execution "worker lost") := rfl
  refine ⟨hplan, ?_⟩
  rw [← (isPlanning_iff_of_plan hplan).1]
  decide

theorem not_forall_isPlanning :
    ¬ ∀ (q : Query) (engine : Engine) (topology : Topology) (f : Failure),
      (plan q engine topology).outcome = .error f → f.isPlanning = true := by
  intro h
  have hplanning : (Failure.foreign .execution "worker lost").isPlanning = true :=
    h ⟨"q", .empty⟩ lossyEngine (fixedTopology [[]]) _ rfl
  exact absurd hplanning (by decide)

end ScanPlan.Proofs.PlanFailures
