import ScanPlan.Proofs.PlanCoverage

namespace ScanPlan.Proofs.PlanStages

open ScanPlan.Alignment ScanPlan.Planning
open ScanPlan.Proofs.AlignedSplits
open ScanPlan.Proofs.ScanExtent
open ScanPlan.Proofs.SplitCuts

section Asked

variable {α β : Type}

/-- The requests of a run to collaborators, in order. Reports are left out. -/
def asked (r : Run α) : List Action :=
  r.actions.filter fun a => a.event?.isNone

theorem asked_pure (a : α) : asked (pure a : Run α) = [] :=
  rfl

theorem asked_bind_of_ok {r : Run α} {a : α} (h : r.outcome = .ok a) (f : α → Run β) :
    asked (r >>= f) = asked r ++ asked (f a) := by
  rw [Run.bind_of_ok h, asked, List.filter_append]
  rfl

theorem asked_bind_of_error {r : Run α} {e : Failure} (h : r.outcome = .error e)
    (f : α → Run β) : asked (r >>= f) = asked r := by
  rw [Run.bind_of_error h]
  rfl

theorem reporting (r : Run α) (e : α → Event) :
    asked (r >>= fun a => .report (e a) >>= fun _ => pure a) = asked r ∧
      (r >>= fun a => .report (e a) >>= fun _ => pure a).outcome = r.outcome := by
  cases h : r.outcome with
  | error f =>
      rw [asked_bind_of_error h, Run.bind_of_error h]
      exact ⟨rfl, rfl⟩
  | ok a =>
      rw [asked_bind_of_ok h, Run.bind_of_ok h]
      exact ⟨List.append_nil _, rfl⟩

end Asked

section Feeds

variable {α : Type}

def Yields (feed : Feed α) (as : List α) : Prop :=
  feed = .ok (as.map .ok)

/-- A feed fails at once, or at an item after others that it yields. -/
def FailsWith (feed : Feed α) (f : Failure) : Prop :=
  feed = .error f ∨
    ∃ (as : List α) (rest : List (Except Failure α)),
      feed = .ok (as.map .ok ++ .error f :: rest)

theorem mapM_cons_ok (a : α) (items : List (Except Failure α)) :
    ((Except.ok a :: items).mapM id : Except Failure (List α)) =
      (items.mapM id).map (a :: ·) := by
  rw [List.mapM_cons]
  cases (items.mapM id : Except Failure (List α)) with
  | error f => rfl
  | ok as => rfl

theorem mapM_cons_error (f : Failure) (items : List (Except Failure α)) :
    ((Except.error f :: items).mapM id : Except Failure (List α)) = .error f := by
  rw [List.mapM_cons]
  rfl

theorem all_ok_or_error (items : List (Except Failure α)) :
    (∃ as : List α, items = as.map .ok) ∨
      ∃ (as : List α) (f : Failure) (rest : List (Except Failure α)),
        items = as.map .ok ++ .error f :: rest := by
  induction items with
  | nil => exact .inl ⟨[], rfl⟩
  | cons item items ih =>
      cases item with
      | error f => exact .inr ⟨[], f, items, rfl⟩
      | ok a =>
          rcases ih with ⟨as, rfl⟩ | ⟨as, f, rest, rfl⟩
          · exact .inl ⟨a :: as, rfl⟩
          · exact .inr ⟨a :: as, f, rest, rfl⟩

theorem yields_or_failsWith (feed : Feed α) :
    (∃ as, Yields feed as) ∨ ∃ f, FailsWith feed f := by
  cases feed with
  | error f => exact .inr ⟨f, .inl rfl⟩
  | ok items =>
      rcases all_ok_or_error items with ⟨as, rfl⟩ | ⟨as, f, rest, rfl⟩
      · exact .inl ⟨as, rfl⟩
      · exact .inr ⟨f, .inr ⟨as, rest, rfl⟩⟩

theorem read_of_yields {feed : Feed α} {as : List α} (h : Yields feed as) :
    feed.read = .ok as := by
  rw [h]
  exact PlanCoverage.read_ok_map_ok as

theorem read_of_failsWith {feed : Feed α} {f : Failure} (h : FailsWith feed f) :
    feed.read = .error f := by
  rcases h with rfl | ⟨as, rest, rfl⟩
  · rfl
  · simp only [Feed.read, Except.bind]
    induction as with
    | nil => exact mapM_cons_error f rest
    | cons a as ih =>
        rw [List.map_cons, List.cons_append, mapM_cons_ok, ih]
        rfl

end Feeds

/-- What becomes of a collaborator's failure: one of the library's families stays as it
is, and any other is wrapped together with the task. -/
inductive Ascribed (task : Task) (cause : Failure) : Failure → Prop where
  | own (h : cause.family?.isSome = true) : Ascribed task cause cause
  | foreign (h : cause.family? = none) : Ascribed task cause (.wrapped task cause)

theorem ascribed_ascribe (task : Task) (cause : Failure) :
    Ascribed task cause (ascribe task cause) := by
  unfold ascribe
  split
  · rename_i h
    exact .own h
  · rename_i h
    exact .foreign (Option.not_isSome_iff_eq_none.mp h)

theorem Ascribed.eq {task : Task} {cause f : Failure} (h : Ascribed task cause f) :
    f = ascribe task cause := by
  unfold ascribe
  cases h with
  | own hfamily => rw [if_pos hfamily]
  | foreign hfamily => rw [hfamily]; rfl

theorem Ascribed.isSome_family {task : Task} {cause f : Failure} (h : Ascribed task cause f) :
    f.family?.isSome = true := by
  cases h with
  | own hfamily => exact hfamily
  | foreign _ => rfl

theorem guarded_error (task : Task) {α : Type} (f : Failure) :
    guarded task (.error f : Except Failure α) = .error (ascribe task f) :=
  rfl

theorem guarded_ok (task : Task) {α : Type} (a : α) :
    guarded task (.ok a : Except Failure α) = .ok a :=
  rfl

def Agrees (first scan : Scan) : Prop :=
  scan.partitionSet = first.partitionSet ∧ scan.groupLength = first.groupLength

/-- Why a scan cannot be planned together with the first one. -/
inductive Disagrees (first scan : Scan) : Failure → Prop where
  | partitionSet (h : scan.partitionSet ≠ first.partitionSet) :
      Disagrees first scan (.partitionSetsDiffer first.partitionSet scan.partitionSet)
  | groupLength (hset : scan.partitionSet = first.partitionSet)
      (h : scan.groupLength ≠ first.groupLength) :
      Disagrees first scan (.groupLengthsDiffer first.groupLength scan.groupLength)

theorem disagreement?_eq_some_iff (first scan : Scan) (f : Failure) :
    Extent.disagreement? first scan = some f ↔ Disagrees first scan f := by
  unfold Extent.disagreement?
  constructor
  · intro h
    split at h
    · rename_i hset
      cases h
      exact .partitionSet hset
    · rename_i hset
      split at h
      · rename_i hlength
        cases h
        exact .groupLength (Decidable.not_not.mp hset) hlength
      · contradiction
  · intro h
    cases h with
    | partitionSet hset => rw [if_pos hset]
    | groupLength hset hlength => rw [if_neg (not_not_intro hset), if_pos hlength]

theorem ofScans?_cons_eq_error_iff (s : Scan) (rest : List Scan) (f : Failure) :
    Extent.ofScans? (s :: rest) = .error f ↔
      ∃ before t after, rest = before ++ t :: after ∧ (∀ u ∈ before, Agrees s u) ∧
        Disagrees s t f := by
  have hfirst : rest.findSome? (Extent.disagreement? s) = some f ↔
      ∃ before t after, rest = before ++ t :: after ∧ (∀ u ∈ before, Agrees s u) ∧
        Disagrees s t f := by
    simp only [List.findSome?_eq_some_iff, disagreement?_eq_some_iff,
      disagreement?_eq_none_iff, Agrees, and_comm]
  rw [← hfirst]
  simp only [Extent.ofScans?]
  split
  · rename_i g hg
    rw [hg]
    simp
  · rename_i hnone
    rw [hnone]
    simp

/-- Boundaries cut no table when there are none, or when one does not lie after the one
before it. The first such is told by its position. -/
inductive Faulty : List Key → Partitioning.Defect → Prop where
  | noPartitions : Faulty [] .noPartitions
  | notAscending {before : List Key} {k l : Key} {after : List Key}
      (hasc : (before ++ [k]).IsChain (· < ·)) (h : l ≤ k) :
      Faulty (before ++ k :: l :: after) (.notAscendingAt (before.length + 1))

theorem isChain_cons_snoc_iff {previous m k : Key} {ks before rest : List Key}
    (h : m :: ks = before ++ k :: rest) :
    (previous :: before ++ [k]).IsChain (· < ·) ↔
      previous < m ∧ (before ++ [k]).IsChain (· < ·) := by
  have hhead : (before ++ [k]).head? = some m := by
    cases before with
    | nil =>
        cases h
        rfl
    | cons a before =>
        cases h
        rfl
  rw [List.cons_append, List.isChain_cons, hhead]
  simp

theorem descentFrom_eq_some_iff {i j : Nat} {previous : Key} {ks : List Key} :
    Partitioning.descentFrom i previous ks = some j ↔
      ∃ before k l after, previous :: ks = before ++ k :: l :: after ∧
        (before ++ [k]).IsChain (· < ·) ∧ l ≤ k ∧ i + before.length = j := by
  induction ks generalizing i previous with
  | nil => simp [Partitioning.descentFrom, List.cons_eq_append_iff]
  | cons m ks ih =>
      rw [Partitioning.descentFrom]
      constructor
      · intro h
        split at h
        · rename_i hm
          cases h
          exact ⟨[], previous, m, ks, rfl, .singleton _, hm, rfl⟩
        · rename_i hm
          obtain ⟨before, k, l, after, heq, hasc, hl, hj⟩ := ih.mp h
          refine ⟨previous :: before, k, l, after, by rw [heq]; rfl, ?_, hl, ?_⟩
          · exact (isChain_cons_snoc_iff heq).mpr ⟨List.not_le.mp hm, hasc⟩
          · rw [List.length_cons, ← hj]
            omega
      · rintro ⟨before, k, l, after, heq, hasc, hl, hj⟩
        cases before with
        | nil =>
            cases heq
            rw [if_pos hl]
            exact congrArg some hj
        | cons a before =>
            obtain ⟨rfl, hrest⟩ := List.cons_eq_cons.mp heq
            obtain ⟨hm, hasc⟩ := (isChain_cons_snoc_iff hrest).mp hasc
            rw [if_neg (List.not_le.mpr hm)]
            refine ih.mpr ⟨before, k, l, after, hrest, hasc, hl, ?_⟩
            rw [← hj, List.length_cons]
            omega

theorem faulty_iff_of_ne_nil {first : Key} {rest : List Key} {d : Partitioning.Defect} :
    Faulty (first :: rest) d ↔
      ∃ i, Partitioning.descentFrom 1 first rest = some i ∧ d = .notAscendingAt i := by
  constructor
  · generalize hks : first :: rest = ks
    intro h
    cases h with
    | noPartitions => contradiction
    | notAscending hasc hl =>
        refine ⟨_, descentFrom_eq_some_iff.mpr ⟨_, _, _, _, hks, hasc, hl, rfl⟩, ?_⟩
        rw [Nat.add_comm]
  · rintro ⟨i, hi, rfl⟩
    obtain ⟨before, k, l, after, heq, hasc, hl, rfl⟩ := descentFrom_eq_some_iff.mp hi
    rw [heq, Nat.add_comm]
    exact .notAscending hasc hl

theorem ofList?_eq_error_iff (ks : List Key) (d : Partitioning.Defect) :
    Partitioning.ofList? ks = .error d ↔ Faulty ks d := by
  cases ks with
  | nil =>
      constructor
      · intro h
        cases h
        exact .noPartitions
      · generalize hks : ([] : List Key) = ks
        intro h
        cases h with
        | noPartitions => rfl
        | notAscending _ _ => simp at hks
  | cons first rest =>
      rw [faulty_iff_of_ne_nil]
      simp only [Partitioning.ofList?]
      split
      · rename_i i hi
        rw [hi]
        simp [eq_comm]
      · rename_i hnone
        simp [hnone]

def lookup (p : String) (s : Split) : Action :=
  .resolveHost p s.range.start

def bare (p : String) (steps : List Step) : List Split :=
  (ranges steps).map fun r => ⟨none, some p, r⟩

theorem map_lookup_bare (p : String) (steps : List Step) :
    (bare p steps).map (lookup p) = (ranges steps).map fun r => .resolveHost p r.start := by
  rw [bare, List.map_map]
  rfl

theorem outcome_assign_none (p : String) (steps : List Step) :
    (assign p none steps).outcome = .ok (bare p steps) := by
  induction steps with
  | nil => rfl
  | cons step rest ih =>
      cases step with
      | collapsed start b => exact Run.outcome_bind_eq_ok.mpr ⟨(), rfl, ih⟩
      | cut r =>
          exact Run.outcome_bind_eq_ok.mpr ⟨none, rfl, Run.outcome_bind_eq_ok.mpr
            ⟨bare p rest, ih, rfl⟩⟩

theorem assign_collapsed (p : String) (locate : Option Locate) (start b : Key)
    (rest : List Step) :
    asked (assign p locate (.collapsed start b :: rest)) = asked (assign p locate rest) ∧
      (assign p locate (.collapsed start b :: rest)).outcome =
        (assign p locate rest).outcome := by
  have hbind : assign p locate (.collapsed start b :: rest) =
      (Run.report (.collapsed start b) >>= fun _ => assign p locate rest) := rfl
  refine ⟨?_, ?_⟩
  · rw [hbind, asked_bind_of_ok (a := ()) rfl]
    rfl
  · rw [hbind, Run.bind_of_ok (a := ()) rfl]

theorem assign_cut_of_answer {f : Locate} {r : Interval} {host : Option String}
    (h : f r.start = .ok host) (p : String) (rest : List Step) :
    asked (assign p (some f) (.cut r :: rest)) =
        .resolveHost p r.start :: asked (assign p (some f) rest) ∧
      (assign p (some f) (.cut r :: rest)).outcome =
        (assign p (some f) rest).outcome.map (⟨host, some p, r⟩ :: ·) := by
  have hbind : assign p (some f) (.cut r :: rest) =
      (Run.ask (.resolveHost p r.start) (f r.start) >>= fun host =>
        assign p (some f) rest >>= fun others => pure (⟨host, some p, r⟩ :: others)) := rfl
  cases hrest : (assign p (some f) rest).outcome with
  | error e =>
      refine ⟨?_, ?_⟩
      · rw [hbind, asked_bind_of_ok (a := host) h, asked_bind_of_error hrest]
        rfl
      · rw [hbind, Run.bind_of_ok (a := host) h, Run.bind_of_error hrest]
        rfl
  | ok others =>
      refine ⟨?_, ?_⟩
      · rw [hbind, asked_bind_of_ok (a := host) h, asked_bind_of_ok hrest,
          asked_pure, List.append_nil]
        rfl
      · rw [hbind, Run.bind_of_ok (a := host) h, Run.bind_of_ok hrest]
        rfl

theorem assign_cut_of_failure {f : Locate} {r : Interval} {e : Failure}
    (h : f r.start = .error e) (p : String) (rest : List Step) :
    assign p (some f) (.cut r :: rest) = ⟨[.resolveHost p r.start], .error e⟩ :=
  Run.bind_of_error (r := .ask (.resolveHost p r.start) (f r.start)) h _

theorem assign_of_answered {p : String} {f : Locate} {steps : List Step}
    (h : ∀ s ∈ bare p steps, ∃ host, f s.range.start = .ok host) :
    asked (assign p (some f) steps) = (bare p steps).map (lookup p) ∧
      ∃ splits, (assign p (some f) steps).outcome = .ok splits := by
  induction steps with
  | nil => exact ⟨rfl, [], rfl⟩
  | cons step rest ih =>
      cases step with
      | collapsed start b =>
          obtain ⟨hasked, houtcome⟩ := assign_collapsed p (some f) start b rest
          rw [hasked, houtcome]
          exact ih h
      | cut r =>
          obtain ⟨⟨host, hhost⟩, hrest⟩ := List.forall_mem_cons.mp h
          obtain ⟨hasked, houtcome⟩ := assign_cut_of_answer hhost p rest
          obtain ⟨hih, splits, hsplits⟩ := ih hrest
          rw [hasked, houtcome, hih, hsplits]
          exact ⟨rfl, _, rfl⟩

theorem assign_of_failure {p : String} {f : Locate} {steps : List Step}
    {before after : List Split} {s : Split} {e : Failure}
    (hsteps : bare p steps = before ++ s :: after)
    (hbefore : ∀ t ∈ before, ∃ host, f t.range.start = .ok host)
    (h : f s.range.start = .error e) :
    asked (assign p (some f) steps) = (before ++ [s]).map (lookup p) ∧
      (assign p (some f) steps).outcome = .error e := by
  induction steps generalizing before with
  | nil => simp [bare, ranges] at hsteps
  | cons step rest ih =>
      cases step with
      | collapsed start b =>
          obtain ⟨hasked, houtcome⟩ := assign_collapsed p (some f) start b rest
          rw [hasked, houtcome]
          exact ih hsteps hbefore
      | cut r =>
          have hbare : bare p (.cut r :: rest) = ⟨none, some p, r⟩ :: bare p rest := rfl
          rw [hbare] at hsteps
          cases before with
          | nil =>
              obtain ⟨rfl, -⟩ := List.cons_eq_cons.mp hsteps
              rw [assign_cut_of_failure h]
              exact ⟨rfl, rfl⟩
          | cons t before =>
              obtain ⟨rfl, hrest⟩ := List.cons_eq_cons.mp hsteps
              obtain ⟨⟨host, hhost⟩, hbefore⟩ := List.forall_mem_cons.mp hbefore
              obtain ⟨hasked, houtcome⟩ := assign_cut_of_answer hhost p rest
              obtain ⟨hih, hih'⟩ := ih hrest hbefore
              rw [hasked, houtcome, hih, hih']
              exact ⟨rfl, rfl⟩

theorem all_ok_or_first_error {α β : Type} (f : α → Except Failure β) (as : List α) :
    (∀ a ∈ as, ∃ b, f a = .ok b) ∨
      ∃ before a after e, as = before ++ a :: after ∧ (∀ c ∈ before, ∃ b, f c = .ok b) ∧
        f a = .error e := by
  induction as with
  | nil => exact .inl (by simp)
  | cons a as ih =>
      cases ha : f a with
      | error e => exact .inr ⟨[], a, as, e, rfl, by simp, ha⟩
      | ok b =>
          rcases ih with hall | ⟨before, c, after, e, rfl, hbefore, hc⟩
          · exact .inl (List.forall_mem_cons.mpr ⟨⟨b, ha⟩, hall⟩)
          · exact .inr ⟨a :: before, c, after, e, rfl,
              List.forall_mem_cons.mpr ⟨⟨b, ha⟩, hbefore⟩, hc⟩

theorem answered_of_assign {p : String} {f : Locate} {steps : List Step}
    {splits : List Split} (h : (assign p (some f) steps).outcome = .ok splits) :
    ∀ s ∈ bare p steps, ∃ host, f s.range.start = .ok host := by
  rcases all_ok_or_first_error (fun s : Split => f s.range.start) (bare p steps) with
    hall | ⟨before, s, after, e, heq, hbefore, hs⟩
  · exact hall
  · rw [(assign_of_failure heq hbefore hs).2] at h
    contradiction

theorem outcome_assign_congr {p : String} {f f' : Locate} {steps : List Step}
    (h : ∀ s ∈ bare p steps, ∃ host, f s.range.start = .ok host ∧ f' s.range.start = .ok host) :
    (assign p (some f) steps).outcome = (assign p (some f') steps).outcome := by
  induction steps with
  | nil => rfl
  | cons step rest ih =>
      cases step with
      | collapsed start b =>
          rw [(assign_collapsed p (some f) start b rest).2,
            (assign_collapsed p (some f') start b rest).2]
          exact ih h
      | cut r =>
          obtain ⟨⟨host, hhost, hhost'⟩, hrest⟩ := List.forall_mem_cons.mp h
          rw [(assign_cut_of_answer hhost p rest).2, (assign_cut_of_answer hhost' p rest).2,
            ih hrest]

section Align

variable {x : Extent} {ks : List Key} {g : Nat}

theorem align_of_faulty {d : Partitioning.Defect} (h : Faulty ks d) (x : Extent) (g : Int)
    (locate : Option Locate) :
    x.align ks g locate = .fail (.badBoundaries x.partitionSet d) := by
  rw [Extent.align, (ofList?_eq_error_iff ks d).mpr h]

theorem asked_reportUncovered (x : Extent) (p : Partitioning) :
    asked (x.reportUncovered p) = [] := by
  unfold Extent.reportUncovered
  split
  · rfl
  · rfl

theorem align_of_partitioning {p : Partitioning} (h : Partitioning.ofList? ks = .ok p)
    (x : Extent) (g : Nat) (locate : Option Locate) :
    asked (x.align ks g locate) =
        asked (assign x.partitionSet locate (walk g x.range p.first p.rest)) ∧
      (x.align ks g locate).outcome =
        (assign x.partitionSet locate (walk g x.range p.first p.rest)).outcome := by
  have halign : x.align ks g locate = x.alignTo p g locate := by
    rw [Extent.align, h]
  have hbind : x.alignTo p g locate = (x.reportUncovered p >>= fun _ =>
      Run.ofExcept (steps? p g x.range) >>= fun steps =>
        assign x.partitionSet locate steps >>= fun splits =>
          Run.report (.aligned splits.length p.boundaries.length x) >>= fun _ =>
            pure splits) := rfl
  have hsteps : (Run.ofExcept (steps? p g x.range)).outcome =
      .ok (walk g x.range p.first p.rest) := outcome_steps? p g x.range
  rw [halign, hbind, asked_bind_of_ok (outcome_reportUncovered x p), asked_reportUncovered,
    Run.bind_of_ok (outcome_reportUncovered x p), asked_bind_of_ok hsteps,
    Run.bind_of_ok hsteps]
  exact reporting (assign x.partitionSet locate (walk g x.range p.first p.rest)) _

theorem exists_partitioning_of_align {locate : Option Locate} {splits : List Split}
    (h : (x.align ks g locate).outcome = .ok splits) :
    ∃ p, Partitioning.ofList? ks = .ok p ∧
      (assign x.partitionSet locate (walk g x.range p.first p.rest)).outcome = .ok splits := by
  cases hp : Partitioning.ofList? ks with
  | error d =>
      rw [Extent.align, hp] at h
      contradiction
  | ok p => exact ⟨p, rfl, (align_of_partitioning hp x g locate).2 ▸ h⟩

theorem align_of_success {f f' : Locate} {splits : List Split}
    (h : (x.align ks g (some f)).outcome = .ok splits)
    (hf : ∀ k host, f k = .ok host → f' k = .ok host) :
    asked (x.align ks g (some f')) = splits.map (lookup x.partitionSet) ∧
      (x.align ks g (some f')).outcome = .ok splits := by
  obtain ⟨p, hp, hassign⟩ := exists_partitioning_of_align h
  have hanswered := answered_of_assign hassign
  have hboth : ∀ s ∈ bare x.partitionSet (walk g x.range p.first p.rest), ∃ host,
      f' s.range.start = .ok host ∧ f s.range.start = .ok host := by
    intro s hs
    obtain ⟨host, hhost⟩ := hanswered s hs
    exact ⟨host, hf _ _ hhost, hhost⟩
  obtain ⟨hasked, houtcome⟩ := align_of_partitioning hp x g (some f')
  obtain ⟨hlookups, -⟩ := assign_of_answered fun s hs => (hboth s hs).imp fun _ => And.left
  refine ⟨?_, ?_⟩
  · rw [hasked, hlookups, map_lookup_bare, ← (splits_of_assign hassign).1, List.map_map]
    rfl
  · rw [houtcome, outcome_assign_congr hboth, hassign]

theorem align_of_failure {f : Locate} {before after : List Split} {s : Split} {e : Failure}
    (hcut : (x.align ks g none).outcome = .ok (before ++ s :: after))
    (hbefore : ∀ t ∈ before, ∃ host, f t.range.start = .ok host)
    (h : f s.range.start = .error e) :
    asked (x.align ks g (some f)) = (before ++ [s]).map (lookup x.partitionSet) ∧
      (x.align ks g (some f)).outcome = .error e := by
  obtain ⟨p, hp, hassign⟩ := exists_partitioning_of_align hcut
  rw [outcome_assign_none] at hassign
  obtain ⟨hasked, houtcome⟩ := align_of_partitioning hp x g (some f)
  rw [hasked, houtcome]
  exact assign_of_failure (Except.ok.inj hassign) hbefore h

theorem align_cases (x : Extent) (ks : List Key) (g : Nat) (f : Locate) :
    (∃ d, Faulty ks d) ∨
      (∃ before s after e, (x.align ks g none).outcome = .ok (before ++ s :: after) ∧
        (∀ t ∈ before, ∃ host, f t.range.start = .ok host) ∧ f s.range.start = .error e) ∨
      ∃ splits, (x.align ks g (some f)).outcome = .ok splits := by
  cases hp : Partitioning.ofList? ks with
  | error d => exact .inl ⟨d, (ofList?_eq_error_iff ks d).mp hp⟩
  | ok p =>
      rcases all_ok_or_first_error (fun s : Split => f s.range.start)
          (bare x.partitionSet (walk g x.range p.first p.rest)) with
        hall | ⟨before, s, after, e, heq, hbefore, hs⟩
      · obtain ⟨-, splits, hsplits⟩ := assign_of_answered hall
        exact .inr (.inr ⟨splits, (align_of_partitioning hp x g (some f)).2.trans hsplits⟩)
      · refine .inr (.inl ⟨before, s, after, e, ?_, hbefore, hs⟩)
        rw [(align_of_partitioning hp x g none).2, outcome_assign_none, heq]

end Align

end ScanPlan.Proofs.PlanStages
