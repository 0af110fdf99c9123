import ScanPlan.Proofs.CursorHistory
import ScanPlan.Proofs.SplitDelivery

namespace ScanPlan.Proofs.ResourceRelease

open ScanPlan.Delivery
open ScanPlan.Proofs.CursorHistory
open ScanPlan.Proofs.SplitDelivery

variable {ρ : Type}

def closable (source : Source ρ) : List Handle :=
  [.iterator, .result].filter fun h => source.closing h ≠ .unsupported

theorem count_closable (source : Source ρ) (h : Handle) :
    (closable source).count h = if source.closing h ≠ .unsupported then 1 else 0 := by
  by_cases hclosing : source.closing h = .unsupported
  · rw [if_neg (not_not_intro hclosing), List.count_eq_zero]
    intro hmem
    have hmem' := (List.mem_filter.mp hmem).2
    exact of_decide_eq_true hmem' hclosing
  · rw [if_pos hclosing, closable, List.count_filter (by simpa using hclosing)]
    cases h with
    | iterator => rfl
    | result => rfl

theorem source_request (s : Supply ρ) : s.request.2.source = s.source := by
  unfold Supply.request
  split
  · rfl
  · rfl

theorem closes_request (s : Supply ρ) : s.request.2.usage.closes = s.usage.closes := by
  unfold Supply.request
  split
  · rfl
  · simp only [Supply.record]
    split
    · rfl
    · rfl

theorem source_close (s : Supply ρ) (h : Handle) : (s.close h).2.source = s.source := by
  unfold Supply.close
  split
  · rfl
  · rfl
  · rfl

theorem closes_close (s : Supply ρ) (h : Handle) :
    (s.close h).2.usage.closes =
      s.usage.closes ++ [h].filter fun h => s.source.closing h ≠ .unsupported := by
  unfold Supply.close
  split
  · rename_i hclosing
    simp [hclosing]
  · rename_i hclosing
    simp [hclosing]
  · rename_i hclosing
    simp [hclosing]

/-- A cursor over a source of which nothing is closed before the cursor is, and then each
part that can be. -/
structure Accounts (source : Source ρ) (c : Cursor ρ) : Prop where
  source_eq : c.supply.source = source
  closes_eq : c.supply.usage.closes = if c.closed then closable source else []

theorem Accounts.fetch {source : Source ρ} {c : Cursor ρ} (h : Accounts source c) :
    Accounts source c.fetch.2 := by
  unfold Cursor.fetch
  split
  · exact h
  · have hsource : c.supply.request.2.source = source :=
      (source_request c.supply).trans h.source_eq
    have hcloses : c.supply.request.2.usage.closes = if c.closed then closable source else [] :=
      (closes_request c.supply).trans h.closes_eq
    rcases hrequest : c.supply.request with ⟨_ | _ | _, s⟩
    all_goals
      rw [hrequest] at hsource hcloses
      exact ⟨hsource, hcloses⟩

theorem Accounts.close {source : Source ρ} {c : Cursor ρ} (h : Accounts source c) :
    Accounts source c.close.2 ∧ c.close.2.closed = true := by
  unfold Cursor.close
  split
  · rename_i hclosed
    exact ⟨h, hclosed⟩
  · rename_i hopen
    have hcloses : c.supply.usage.closes = [] := by
      rw [h.closes_eq, if_neg hopen]
    have hsource := source_close c.supply .iterator
    have hfirst := closes_close c.supply .iterator
    rcases hiterator : c.supply.close .iterator with ⟨first, s⟩
    rw [hiterator] at hsource hfirst
    have hsource' := source_close s .result
    have hsecond := closes_close s .result
    rcases hresult : s.close .result with ⟨second, s'⟩
    rw [hresult] at hsource' hsecond
    simp only [hresult]
    have hall : s'.usage.closes = closable source := by
      rw [hsecond, hfirst, hcloses, hsource, h.source_eq, List.nil_append, ← List.filter_append]
      rfl
    have haccounts : ∀ log, Accounts source
        { c with closed := true, current? := none, supply := s', log := log } := by
      intro log
      exact ⟨hsource'.trans (hsource.trans h.source_eq), hall⟩
    cases second with
    | error f => exact ⟨haccounts _, rfl⟩
    | ok _ =>
        cases first with
        | error f => exact ⟨haccounts _, rfl⟩
        | ok _ => exact ⟨haccounts _, rfl⟩

theorem Accounts.of_leads {source : Source ρ} {c c' : Cursor ρ} {moves : List (Move ρ)}
    (h : Leads c moves c') (hc : Accounts source c) : Accounts source c' :=
  h.keeps (fun _ => Accounts.fetch) (fun _ hc => hc.close.1) hc

theorem accounts_ofSource (s : Split) (source : Source ρ) :
    Accounts source (.ofSource s source) :=
  ⟨rfl, rfl⟩

theorem closes_finish_each (handler : Handler ρ) (seen : Nat) (s : Split) (source : Source ρ) :
    (Cursor.each handler seen (.ofSource s source)).finish.cursor.supply.usage.closes =
      closable source := by
  have hleads := leads_each handler seen (.ofSource s source)
  obtain ⟨haccounts, hclosed⟩ := (Accounts.of_leads hleads (accounts_ofSource s source)).close
  rw [cursor_finish, haccounts.closes_eq, hclosed]
  rfl

/-- A split that has a source closes each part of it once that can be closed, provided that
its iterator can be made. Otherwise it closes nothing. -/
theorem closes_of_consume {execute : Executor ρ} {s : Split} {p : String} {source : Source ρ}
    (hset : s.partitionSet = some p) (hp : p ≠ "")
    (hexecute : (execute s.range p).outcome = .ok source) (take : Nat → ρ → Option Failure) :
    ∃ o, (consume execute take s).outcome = .ok o ∧
      ∀ h, o.usage.closes.count h =
        if source.startFailure? = none ∧ source.closing h ≠ .unsupported then 1 else 0 := by
  have hstart := outcome_start_eq hset hp hexecute
  cases hstarts : source.startFailure? with
  | none =>
      rw [hstarts] at hstart
      refine ⟨_, outcome_consume_of_start hstart, ?_⟩
      intro h
      have hcloses := closes_finish_each (reaction take) 0 s source
      simp only [Outcome.ofPassage, drain, hcloses, count_closable, true_and]
  | some f =>
      rw [hstarts] at hstart
      refine ⟨_, outcome_consume_of_error hstart, ?_⟩
      intro h
      rw [if_neg (fun hboth => Option.some_ne_none f hboth.1)]
      rfl

def wholeSplit : Split :=
  ⟨none, some "p", ⟨[], none⟩⟩

def failingToClose : Executor Nat :=
  fun _ _ => pure (.resultSet [.row 1, .row 2] none (.fails (.foreign .system "iterator"))
    (.fails (.foreign .system "result")))

def refusingSecond (seen _ : Nat) : Option Failure :=
  if seen = 1 then some (.foreign .value "row") else none

theorem closes_after_three_failures :
    ∃ o, (consume failingToClose refusingSecond wholeSplit).outcome = .ok o ∧
      o.usage.closes.count .iterator = 1 ∧ o.usage.closes.count .result = 1 := by
  have hset : wholeSplit.partitionSet = some "p" := rfl
  have hexecute : (failingToClose wholeSplit.range "p").outcome = .ok _ := rfl
  obtain ⟨o, ho, hcount⟩ := closes_of_consume hset (by decide) hexecute refusingSecond
  refine ⟨o, ho, ?_, ?_⟩
  · rw [hcount, if_pos (by decide)]
  · rw [hcount, if_pos (by decide)]

def failingToStart : Executor Nat :=
  fun _ _ => pure (.resultSet [.row 1] (some (.foreign .system "offline")) .unsupported
    .succeeds)

/-- Whether a part of a source is there. The iterator of a result set has to be made, and
every other part is what the executor answered. -/
def isObtained : Source ρ → Handle → Bool
  | .resultSet _ starts _ _, .iterator => starts.isNone
  | _, _ => true

/-- Not everything that is there is closed: a result set whose iterator cannot be made
stays open. -/
theorem not_forall_obtained_closed :
    ¬ ∀ (execute : Executor Nat) (take : Nat → Nat → Option Failure) (s : Split) (p : String)
      (source : Source Nat) (o : Outcome Nat), s.partitionSet = some p → p ≠ "" →
        (execute s.range p).outcome = .ok source → (consume execute take s).outcome = .ok o →
          ∀ h, isObtained source h = true → source.closing h ≠ .unsupported →
            o.usage.closes.count h = 1 := by
  intro hall
  have hone := hall failingToStart (fun _ _ => none) wholeSplit "p" _ _ rfl (by decide) rfl rfl
    .result rfl (by decide)
  exact absurd hone (by decide)

end ScanPlan.Proofs.ResourceRelease
