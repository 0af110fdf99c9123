import ScanPlan.Event
import ScanPlan.Query

namespace ScanPlan

inductive Action where
  | report (event : Event)
  | prepare (query : Query)
  | listBoundaries (partitionSet : String)
  | resolveHost (partitionSet : String) (key : Key)
  | execute (range : Interval) (partitionSet : String)
  deriving DecidableEq, Repr

def Action.event? : Action → Option Event
  | report e => some e
  | _ => none

/-- The actions of a computation and its outcome. -/
structure Run (α : Type) where
  actions : List Action
  outcome : Except Failure α

namespace Run

variable {α β : Type}

def pure (a : α) : Run α :=
  ⟨[], .ok a⟩

def bind (r : Run α) (f : α → Run β) : Run β :=
  match r.outcome with
  | .error e => ⟨r.actions, .error e⟩
  | .ok a =>
      let next := f a
      ⟨r.actions ++ next.actions, next.outcome⟩

instance : Monad Run where
  pure := pure
  bind := bind

theorem bind_def (r : Run α) (f : α → Run β) : r >>= f = bind r f :=
  rfl

instance : LawfulMonad Run := LawfulMonad.mk' Run
  (by
    intro α r
    obtain ⟨actions, outcome⟩ := r
    cases outcome <;> simp [Functor.map, bind, pure])
  (by
    intro α β a f
    simp [Bind.bind, Pure.pure, bind, pure])
  (by
    intro α β γ r f g
    obtain ⟨actions, outcome⟩ := r
    cases outcome with
    | error e => rfl
    | ok a =>
        simp only [Bind.bind, bind]
        cases (f a).outcome <;> simp)

def ofExcept (outcome : Except Failure α) : Run α :=
  ⟨[], outcome⟩

def fail (f : Failure) : Run α :=
  ⟨[], .error f⟩

def ask (a : Action) (answer : Except Failure α) : Run α :=
  ⟨[a], answer⟩

def perform (a : Action) : Run Unit :=
  ⟨[a], .ok ()⟩

def report (e : Event) : Run Unit :=
  perform (.report e)

/-- A run that hands on how another ended, and so does not fail. -/
def attempt (r : Run α) : Run (Except Failure α) :=
  ⟨r.actions, .ok r.outcome⟩

def events (r : Run α) : List Event :=
  r.actions.filterMap Action.event?

@[simp] theorem actions_pure (a : α) : (Pure.pure a : Run α).actions = [] :=
  rfl

@[simp] theorem outcome_pure (a : α) : (Pure.pure a : Run α).outcome = .ok a :=
  rfl

@[simp] theorem outcome_ofExcept (outcome : Except Failure α) :
    (ofExcept outcome).outcome = outcome :=
  rfl

@[simp] theorem outcome_fail (f : Failure) : (fail f : Run α).outcome = .error f :=
  rfl

@[simp] theorem outcome_ask (a : Action) (answer : Except Failure α) :
    (ask a answer).outcome = answer :=
  rfl

@[simp] theorem outcome_perform (a : Action) : (perform a).outcome = .ok () :=
  rfl

@[simp] theorem outcome_report (e : Event) : (report e).outcome = .ok () :=
  rfl

@[simp] theorem outcome_attempt (r : Run α) : r.attempt.outcome = .ok r.outcome :=
  rfl

theorem outcome_bind_eq_ok {r : Run α} {f : α → Run β} {b : β} :
    (r >>= f).outcome = .ok b ↔ ∃ a, r.outcome = .ok a ∧ (f a).outcome = .ok b := by
  obtain ⟨actions, outcome⟩ := r
  cases outcome with
  | error e => simp [bind_def, bind]
  | ok a => simp [bind_def, bind]

theorem bind_of_error {r : Run α} {e : Failure} (h : r.outcome = .error e) (f : α → Run β) :
    r >>= f = ⟨r.actions, .error e⟩ := by
  simp [bind_def, bind, h]

theorem bind_of_ok {r : Run α} {a : α} (h : r.outcome = .ok a) (f : α → Run β) :
    r >>= f = ⟨r.actions ++ (f a).actions, (f a).outcome⟩ := by
  simp [bind_def, bind, h]

theorem mem_actions_bind {r : Run α} {f : α → Run β} {a : Action}
    (h : a ∈ (r >>= f).actions) :
    a ∈ r.actions ∨ ∃ v, r.outcome = .ok v ∧ a ∈ (f v).actions := by
  cases hr : r.outcome with
  | error e =>
      rw [bind_of_error hr] at h
      exact .inl h
  | ok v =>
      rw [bind_of_ok hr] at h
      exact (List.mem_append.mp h).imp_right fun h => ⟨v, rfl, h⟩

end Run

end ScanPlan
