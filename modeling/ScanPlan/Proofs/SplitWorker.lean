import ScanPlan.Proofs.SplitDelivery

namespace ScanPlan.Proofs.SplitWorker

open ScanPlan.Delivery
open ScanPlan.Proofs.SplitDelivery

variable {ρ : Type}

/-- Where the consumption of a split stands. -/
inductive Worker (ρ : Type) where
  | waiting
  | opening
  | reading (p : Passage ρ)
  | giving (p : Passage ρ) (r : ρ)
  | closing (p : Passage ρ)
  | ending (o : Outcome ρ)
  | done (o : Outcome ρ)

inductive Deed (ρ : Type) where
  | began
  | did (a : Action)
  | gave (r : ρ)
  deriving DecidableEq, Repr

namespace Deed

def action? : Deed ρ → Option Action
  | did a => some a
  | _ => none

def row? : Deed ρ → Option ρ
  | gave r => some r
  | _ => none

def isBegan : Deed ρ → Bool
  | began => true
  | _ => false

end Deed

namespace Worker

def isWaiting : Worker ρ → Bool
  | waiting => true
  | _ => false

def outcome? : Worker ρ → Option (Outcome ρ)
  | done o => some o
  | _ => none

def isRunning (worker : Worker ρ) : Bool :=
  !worker.isWaiting && worker.outcome?.isNone

section Next

variable (execute : Executor ρ) (take : Nat → ρ → Option Failure) (s : Split)

def fetched (p : Passage ρ) : Worker ρ :=
  match p.cursor.fetch with
  | (.error f, c) => .closing { p with failure? := some f, cursor := c }
  | (.ok none, c) => .closing { p with cursor := c }
  | (.ok (some r), c) => .giving { p with cursor := c } r

def given (p : Passage ρ) (r : ρ) : Worker ρ :=
  match take p.handled r with
  | none => .reading { p with handed := p.handed ++ [r], handled := p.handled + 1 }
  | some f => .closing { p with handed := p.handed ++ [r], failure? := some f }

def opened : Worker ρ :=
  match (Cursor.start execute s).outcome with
  | .error f => .ending (.unstarted s f)
  | .ok c => .reading (.ended none c)

/-- The next step of a worker: what it does, and where it leads. -/
def next : Worker ρ → Option (List (Deed ρ) × Worker ρ)
  | .waiting => some ([.began], .opening)
  | .opening => some ((Cursor.start execute s).actions.map .did, opened execute s)
  | .reading p => some ([], fetched p)
  | .giving p r => some ([.gave r], given take p r)
  | .closing p =>
      some ((p.finish.cursor.log.map .report).map .did, .ending (.ofPassage s p.finish))
  | .ending o => some (o.reportFailure.actions.map .did, .done o)
  | .done _ => none

/-- Steps of one worker in order, with all that they do. -/
inductive Path : Worker ρ → List (Deed ρ) → Worker ρ → Prop where
  | here (worker : Worker ρ) : Path worker [] worker
  | step {worker worker' worker'' : Worker ρ} {deeds rest : List (Deed ρ)}
      (h : next execute take s worker = some (deeds, worker'))
      (hrest : Path worker' rest worker'') : Path worker (deeds ++ rest) worker''

end Next

section Path

variable {execute : Executor ρ} {take : Nat → ρ → Option Failure} {s : Split}
  {worker worker' worker'' : Worker ρ} {deeds rest : List (Deed ρ)}

theorem Path.trans (h : Path execute take s worker deeds worker')
    (h' : Path execute take s worker' rest worker'') :
    Path execute take s worker (deeds ++ rest) worker'' := by
  induction h with
  | here _ => exact h'
  | step hnext _ ih =>
      rw [List.append_assoc]
      exact .step hnext (ih h')

theorem Path.one (h : next execute take s worker = some (deeds, worker')) :
    Path execute take s worker deeds worker' := by
  rw [← List.append_nil deeds]
  exact .step h (.here worker')

theorem Path.unique (h : Path execute take s worker deeds worker')
    (h' : Path execute take s worker rest worker'')
    (hend : next execute take s worker' = none) (hend' : next execute take s worker'' = none) :
    deeds = rest ∧ worker' = worker'' := by
  induction h generalizing rest with
  | here _ =>
      cases h' with
      | here _ => exact ⟨rfl, rfl⟩
      | step hnext _ =>
          rw [hend] at hnext
          contradiction
  | step hnext _ ih =>
      cases h' with
      | here _ =>
          rw [hend'] at hnext
          contradiction
      | step hnext' hrest' =>
          rw [hnext] at hnext'
          cases hnext'
          obtain ⟨rfl, hlast⟩ := ih hrest' hend
          exact ⟨rfl, hlast⟩

theorem reaction_cases (take : Nat → ρ → Option Failure) (seen : Nat) (r : ρ) :
    (reaction take seen r = .proceed ∧ take seen r = none) ∨
      ∃ f, reaction take seen r = .fails f ∧ take seen r = some f := by
  cases h : take seen r with
  | none => exact .inl ⟨by simp only [reaction, h], rfl⟩
  | some f => exact .inr ⟨f, by simp only [reaction, h], rfl⟩

theorem reaction_ne {take : Nat → ρ → Option Failure} {seen : Nat} {r : ρ} :
    reaction take seen r ≠ .leave ∧ reaction take seen r ≠ .close := by
  rcases reaction_cases take seen r with ⟨h, -⟩ | ⟨f, h, -⟩
  · rw [h]
    exact ⟨nofun, nofun⟩
  · rw [h]
    exact ⟨nofun, nofun⟩

theorem path_fetch_row {handed : List ρ} {seen : Nat} {c c' : Cursor ρ} {r : ρ}
    (h : c.fetch = (.ok (some r), c')) :
    Path execute take s (.reading ⟨handed, seen, none, c⟩) []
      (.giving ⟨handed, seen, none, c'⟩ r) := by
  apply Path.one
  simp only [next, fetched, h]

theorem path_give_fails {handed : List ρ} {seen : Nat} {c : Cursor ρ} {r : ρ} {f : Failure}
    (h : reaction take seen r = .fails f) :
    Path execute take s (.giving ⟨handed, seen, none, c⟩ r) [.gave r]
      (.closing ⟨handed ++ [r], seen, some f, c⟩) := by
  apply Path.one
  rcases reaction_cases take seen r with ⟨hr, -⟩ | ⟨f', hr, htake⟩
  · rw [hr] at h
    contradiction
  · rw [hr] at h
    cases h
    simp only [next, given, htake]

theorem path_give_proceeds {handed : List ρ} {seen : Nat} {c : Cursor ρ} {r : ρ}
    (h : reaction take seen r = .proceed) :
    Path execute take s (.giving ⟨handed, seen, none, c⟩ r) [.gave r]
      (.reading ⟨handed ++ [r], seen + 1, none, c⟩) := by
  apply Path.one
  rcases reaction_cases take seen r with ⟨-, htake⟩ | ⟨f, hr, -⟩
  · simp only [next, given, htake]
  · rw [hr] at h
    contradiction

/-- A passage after others of the same cursor, which handled some rows before it. -/
def continued (handed : List ρ) (seen : Nat) (p : Passage ρ) : Passage ρ :=
  { p with handed := handed ++ p.handed, handled := seen + p.handled }

theorem continued_after (handed : List ρ) (seen : Nat) (p : Passage ρ) (r : ρ) :
    continued handed seen (p.after r) = continued (handed ++ [r]) (seen + 1) p := by
  simp only [continued, Passage.after, List.append_assoc, List.singleton_append,
    Nat.add_assoc, Nat.add_comm 1]

theorem continued_nil (p : Passage ρ) : continued [] 0 p = p := by
  simp only [continued, List.nil_append, Nat.zero_add]

theorem path_reading (handed : List ρ) (seen : Nat) (c : Cursor ρ) :
    Path execute take s (.reading ⟨handed, seen, none, c⟩)
      ((c.each (reaction take) seen).handed.map .gave)
      (.closing (continued handed seen (c.each (reaction take) seen))) := by
  -- The rows before a fetch are part of the state, so they vary along the passage.
  fun_induction Cursor.each (reaction take) seen c generalizing handed with
  | case1 seen c f c' hfetch =>
      apply Path.one
      simp [next, fetched, hfetch, continued, Passage.ended]
  | case2 seen c c' hfetch =>
      apply Path.one
      simp [next, fetched, hfetch, continued, Passage.ended]
  | case3 seen c r c' hfetch _ f hfails =>
      exact (path_fetch_row hfetch).trans (path_give_fails hfails)
  | case4 seen c r c' _ _ hleave => exact absurd hleave reaction_ne.1
  | case5 seen c r c' _ _ hclose => exact absurd hclose reaction_ne.2
  | case6 seen c r c' _ _ hclose => exact absurd hclose reaction_ne.2
  | case7 seen c r c' hfetch _ hproceeds ih =>
      rw [continued_after]
      exact (path_fetch_row hfetch).trans ((path_give_proceeds hproceeds).trans
        (ih (handed ++ [r])))

def rowsOf (deeds : List (Deed ρ)) : List ρ :=
  deeds.filterMap Deed.row?

def actionsOf (deeds : List (Deed ρ)) : List Action :=
  deeds.filterMap Deed.action?

def begunOf (deeds : List (Deed ρ)) : Nat :=
  deeds.countP Deed.isBegan

@[simp] theorem rowsOf_append (ds es : List (Deed ρ)) :
    rowsOf (ds ++ es) = rowsOf ds ++ rowsOf es :=
  List.filterMap_append

@[simp] theorem actionsOf_append (ds es : List (Deed ρ)) :
    actionsOf (ds ++ es) = actionsOf ds ++ actionsOf es :=
  List.filterMap_append

@[simp] theorem begunOf_append (ds es : List (Deed ρ)) :
    begunOf (ds ++ es) = begunOf ds + begunOf es :=
  List.countP_append

@[simp] theorem of_began (ds : List (Deed ρ)) : rowsOf (.began :: ds) = rowsOf ds ∧
    actionsOf (.began :: ds) = actionsOf ds ∧ begunOf (.began :: ds) = begunOf ds + 1 :=
  ⟨rfl, rfl, List.countP_cons_of_pos rfl⟩

@[simp] theorem of_did (as : List Action) : rowsOf (as.map (Deed.did (ρ := ρ))) = [] ∧
    actionsOf (as.map (Deed.did (ρ := ρ))) = as ∧ begunOf (as.map (Deed.did (ρ := ρ))) = 0 := by
  induction as with
  | nil => exact ⟨rfl, rfl, rfl⟩
  | cons a as ih => exact ⟨ih.1, congrArg (a :: ·) ih.2.1, ih.2.2⟩

@[simp] theorem of_gave (rs : List ρ) : rowsOf (rs.map Deed.gave) = rs ∧
    actionsOf (rs.map Deed.gave) = [] ∧ begunOf (rs.map Deed.gave) = 0 := by
  induction rs with
  | nil => exact ⟨rfl, rfl, rfl⟩
  | cons r rs ih => exact ⟨congrArg (r :: ·) ih.1, ih.2.1, ih.2.2⟩

theorem actions_forM_report (events : List Event) :
    (events.forM Run.report).actions = events.map .report := by
  induction events with
  | nil => rfl
  | cons e events ih =>
      have hcons : (e :: events).forM Run.report =
          (Run.report e >>= fun _ => events.forM Run.report) := rfl
      rw [hcons, Run.bind_of_ok (a := ()) rfl, ih]
      rfl

def settle (o : Outcome ρ) : Run (Outcome ρ) := do
  o.reportFailure
  pure o

theorem actions_settle (o : Outcome ρ) : (settle o).actions = o.reportFailure.actions := by
  rw [settle, Run.bind_of_ok (outcome_reportFailure o)]
  exact List.append_nil _

theorem actions_consume_of_start {c : Cursor ρ} (h : (Cursor.start execute s).outcome = .ok c) :
    (consume execute take s).actions = (Cursor.start execute s).actions ++
      ((drain take c).cursor.log.map .report ++
        (Outcome.ofPassage s (drain take c)).reportFailure.actions) := by
  have hattempt : (Cursor.start execute s).attempt.outcome = .ok (.ok c) := by
    rw [Run.outcome_attempt, h]
  have hbind : (consume execute take s).actions = (Cursor.start execute s).attempt.actions ++
      ((drain take c).cursor.log.forM Run.report >>= fun _ =>
        settle (.ofPassage s (drain take c))).actions :=
    congrArg Run.actions (Run.bind_of_ok hattempt _)
  rw [hbind, Run.bind_of_ok (outcome_forM_report _), actions_forM_report, actions_settle]
  rfl

theorem actions_consume_of_error {f : Failure}
    (h : (Cursor.start execute s).outcome = .error f) :
    (consume execute take s).actions = (Cursor.start execute s).actions ++
      (Outcome.unstarted (ρ := ρ) s f).reportFailure.actions := by
  have hattempt : (Cursor.start execute s).attempt.outcome = .ok (.error f) := by
    rw [Run.outcome_attempt, h]
  have hbind : (consume execute take s).actions = (Cursor.start execute s).attempt.actions ++
      (settle (.unstarted s f)).actions := congrArg Run.actions (Run.bind_of_ok hattempt _)
  rw [hbind, actions_settle]
  rfl

/-- What a split does and comes to when it is consumed on its own. -/
structure Alone (execute : Executor ρ) (take : Nat → ρ → Option Failure) (s : Split)
    (deeds : List (Deed ρ)) (o : Outcome ρ) : Prop where
  outcome_eq : (consume execute take s).outcome = .ok o
  rows_eq : rowsOf deeds = o.handed
  actions_eq : actionsOf deeds = (consume execute take s).actions
  begun_eq : begunOf deeds = 1

theorem handed_finish (p : Passage ρ) : p.finish.handed = p.handed := by
  unfold Passage.finish
  split
  · rfl
  · rfl

/-- A worker that steps to the end has consumed its split. -/
theorem exists_path_done (execute : Executor ρ) (take : Nat → ρ → Option Failure) (s : Split) :
    ∃ deeds o, Path execute take s .waiting deeds (.done o) ∧ Alone execute take s deeds o := by
  cases hstart : (Cursor.start execute s).outcome with
  | error f =>
      have hopening : next execute take s .opening =
          some ((Cursor.start execute s).actions.map .did, .ending (.unstarted s f)) := by
        simp only [next, opened, hstart]
      refine ⟨_, _, (Path.one rfl).trans ((Path.one hopening).trans (.one rfl)), ?_⟩
      refine ⟨outcome_consume_of_error hstart, ?_, ?_, ?_⟩
      · simp [Outcome.unstarted]
      · simp [actions_consume_of_error hstart]
      · simp
  | ok c =>
      have hopening : next execute take s .opening =
          some ((Cursor.start execute s).actions.map .did, .reading (.ended none c)) := by
        simp only [next, opened, hstart]
      have hreading : Path execute take s (.reading (.ended none c))
          ((c.each (reaction take) 0).handed.map .gave) (.closing (c.each (reaction take) 0)) := by
        have hpath : Path execute take s _ _ _ := path_reading [] 0 c
        rwa [continued_nil] at hpath
      refine ⟨_, _, (Path.one rfl).trans ((Path.one hopening).trans (hreading.trans
        ((Path.one rfl).trans (.one rfl)))), ?_⟩
      refine ⟨outcome_consume_of_start hstart, ?_, ?_, ?_⟩
      · simp [-List.map_map, Outcome.ofPassage, handed_finish]
      · simp [-List.map_map, actions_consume_of_start hstart, drain]
      · simp [-List.map_map]

/-- At most how many steps a worker has left. A row takes two, and rows come from what
its cursor has pending. -/
def left (execute : Executor ρ) (s : Split) : Worker ρ → Nat
  | .waiting => leftOpened + 2
  | .opening => leftOpened + 1
  | .reading p => 2 * p.cursor.supply.pending.length + 3
  | .giving p _ => 2 * p.cursor.supply.pending.length + 4
  | .closing _ => 2
  | .ending _ => 1
  | .done _ => 0
where
  leftOpened : Nat :=
    match (Cursor.start execute s).outcome with
    | .error _ => 1
    | .ok c => 2 * c.supply.pending.length + 3

theorem left_fetched (p : Passage ρ) :
    left execute s (fetched p) < left execute s (.reading p) := by
  unfold fetched
  split
  · simp only [left]
    omega
  · simp only [left]
    omega
  · rename_i r c hfetch
    have hlength : c.supply.pending.length < p.cursor.supply.pending.length := by
      have hshorter := Cursor.length_fetch p.cursor r (by rw [hfetch])
      simpa [hfetch] using hshorter
    simp only [left]
    omega

theorem left_given (p : Passage ρ) (r : ρ) :
    left execute s (given take p r) < left execute s (.giving p r) := by
  unfold given
  split
  · simp only [left]
    omega
  · simp only [left]
    omega

theorem left_opened : left execute s (opened execute s) = left.leftOpened execute s := by
  unfold opened left.leftOpened
  split
  · rfl
  · rfl

theorem left_next (h : next execute take s worker = some (deeds, worker')) :
    left execute s worker' < left execute s worker := by
  cases worker with
  | waiting =>
      cases h
      exact Nat.lt_succ_self _
  | opening =>
      cases h
      rw [left_opened]
      exact Nat.lt_succ_self _
  | reading p =>
      cases h
      exact left_fetched p
  | giving p r =>
      cases h
      exact left_given p r
  | closing p =>
      cases h
      exact Nat.lt_succ_self _
  | ending o =>
      cases h
      exact Nat.lt_succ_self _
  | done o => contradiction

theorem exists_next (h : worker.outcome? = none) :
    ∃ deeds worker', next execute take s worker = some (deeds, worker') := by
  cases worker with
  | done o => contradiction
  | _ => exact ⟨_, _, rfl⟩

end Path

end Worker

end ScanPlan.Proofs.SplitWorker
