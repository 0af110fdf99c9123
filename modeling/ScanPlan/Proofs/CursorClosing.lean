import ScanPlan.Proofs.RowsRead

namespace ScanPlan.Proofs.CursorClosing

open ScanPlan.Cursor
open ScanPlan.Proofs.CursorHistory
open ScanPlan.Proofs.ResourceRelease
open ScanPlan.Proofs.RowsRead

variable {ρ : Type}

def failureOf? : Closing → Option Failure
  | .fails f => some f
  | .unsupported | .succeeds => none

/-- Why the parts of a source cannot be closed. The failure of the result counts before that
of the iterator. -/
def closingFailure? (source : Source ρ) : Option Failure :=
  failureOf? (source.closing .result) <|> failureOf? (source.closing .iterator)

def failWith? : Option Failure → Except Failure Unit
  | some f => .error f
  | none => .ok ()

theorem close_supply_fst (s : Supply ρ) (h : Handle) :
    (s.close h).1 = failWith? (failureOf? (s.source.closing h)) := by
  unfold Supply.close
  split
  all_goals
    rename_i hclosing
    rw [hclosing]
    rfl

theorem close_of_closed {c : Cursor ρ} (h : c.closed = true) : c.close = (.ok (), c) :=
  if_pos h

theorem close_fst_of_open {c : Cursor ρ} (h : ¬ c.closed = true) :
    c.close.1 = failWith? (closingFailure? c.supply.source) := by
  have hfirst := close_supply_fst c.supply .iterator
  have hsource := source_close c.supply .iterator
  rcases hiterator : c.supply.close .iterator with ⟨first, s⟩
  rw [hiterator] at hfirst hsource
  have hsecond := close_supply_fst s .result
  rw [hsource] at hsecond
  rcases hresult : s.close .result with ⟨second, s'⟩
  rw [hresult] at hsecond
  rw [Cursor.close, if_neg h, hiterator]
  simp only [hresult]
  subst hfirst hsecond
  unfold closingFailure?
  cases failureOf? (c.supply.source.closing .result) with
  | some f => rfl
  | none =>
      cases failureOf? (c.supply.source.closing .iterator) with
      | some f => rfl
      | none => rfl

def closes : Call → Bool
  | .close | .within _ _ => true
  | .advance | .current | .take _ => false

theorem closed_not_mem_eachMoves {handler : Handler ρ} (h : ∀ seen r, handler seen r ≠ .close)
    (seen : Nat) (c : Cursor ρ) : .closed ∉ eachMoves handler seen c := by
  fun_induction eachMoves handler seen c with
  | case1 seen c ih =>
      rw [← eachMoves, eachMoves_eq]
      apply List.not_mem_cons_of_ne_of_not_mem (fetched_fetch c).ne_closed.symm
      rcases hfetch : c.fetch.1 with _ | _ | r
      · exact List.not_mem_nil
      · exact List.not_mem_nil
      · simp only
        cases hr : handler seen r with
        | proceed => exact ih r hfetch
        | close => exact absurd hr (h seen r)
        | leave => exact List.not_mem_nil
        | fails f => exact List.not_mem_nil

theorem closed_not_mem_takeMoves (limit : Option Nat) (c : Cursor ρ) :
    .closed ∉ takeMoves limit c := by
  unfold takeMoves
  split
  · exact List.not_mem_nil
  · exact closed_not_mem_eachMoves (fun seen r => (leaveAt_ne limit seen r).1) 0 c

theorem closed_mem_callMoves_iff (c : Cursor ρ) (call : Call) :
    .closed ∈ callMoves c call ↔ closes call = true := by
  cases call with
  | advance => simpa [callMoves, closes] using (fetched_fetch c).ne_closed.symm
  | current => simp [callMoves, closes]
  | close => simp [callMoves, closes]
  | take limit => simpa [callMoves, closes] using closed_not_mem_takeMoves limit c
  | within limit raised => simp [callMoves, closes]

theorem closed_mem_history_iff (c : Cursor ρ) (calls : List Call) :
    .closed ∈ history c calls ↔ calls.any closes = true := by
  induction calls generalizing c with
  | nil => simp [history]
  | cons call calls ih =>
      rw [history, List.mem_append, closed_mem_callMoves_iff, ih, List.any_cons,
        Bool.or_eq_true]

/-- What has been closed after some calls, and what closing comes to then. -/
structure ClosedOnce (source : Source ρ) (c : Cursor ρ) (calls : List Call) : Prop where
  closed_iff : (c.after calls).closed = true ↔ calls.any closes = true
  closes_before : calls.any closes = false → (c.after calls).supply.usage.closes = []
  closes_after : calls.any closes = true →
    (c.after calls).supply.usage.closes = closable source
  count_after : calls.any closes = true → ∀ h, (c.after calls).supply.usage.closes.count h =
    if source.closing h ≠ .unsupported then 1 else 0
  first_close : calls.any closes = false →
    (c.after calls).close.1 = failWith? (closingFailure? source) ∧
      (c.after calls).close.2.closed = true
  close_again : calls.any closes = true →
    (c.after calls).close = (.ok (), c.after calls)

theorem closedOnce_ofSource (s : Split) (source : Source ρ) (calls : List Call) :
    ClosedOnce source (.ofSource s source) calls := by
  have hleads := leads_after (.ofSource s source) calls
  obtain ⟨htally, -⟩ := tally_of_leads hleads
  have haccounts := Accounts.of_leads hleads (accounts_ofSource s source)
  have hclosed := htally.closed_iff.trans (closed_mem_history_iff _ calls)
  have hopen : calls.any closes = false →
      ¬ (Cursor.after (.ofSource s source) calls).closed = true := by
    intro hnone
    rw [hclosed, hnone]
    exact Bool.false_ne_true
  have hafter : calls.any closes = true →
      (Cursor.after (.ofSource s source) calls).supply.usage.closes = closable source := by
    intro hany
    rw [haccounts.closes_eq, if_pos (hclosed.mpr hany)]
  constructor
  case closed_iff => exact hclosed
  case closes_before =>
      intro hnone
      rw [haccounts.closes_eq, if_neg (hopen hnone)]
  case closes_after => exact hafter
  case count_after =>
      intro hany h
      rw [hafter hany, count_closable]
  case first_close =>
      intro hnone
      refine ⟨?_, closed_close _⟩
      rw [close_fst_of_open (hopen hnone), haccounts.source_eq]
  case close_again => exact fun hany => close_of_closed (hclosed.mpr hany)

/-- After any calls on a cursor that was started, each part of its source has been closed
once if one of them closes the cursor, and not at all otherwise. -/
theorem closedOnce_of_start {execute : Executor ρ} {s : Split} {c : Cursor ρ}
    (hstart : (Cursor.start execute s).outcome = .ok c) :
    ∃ p source, s.partitionSet = some p ∧ (execute s.range p).outcome = .ok source ∧
      ∀ calls, ClosedOnce source c calls := by
  obtain ⟨p, source, hset, -, hexecute, -, rfl⟩ := eq_ofSource_of_start hstart
  exact ⟨p, source, hset, hexecute, closedOnce_ofSource s source⟩

theorem closedOnce_both_fail :
    ∃ c, (Cursor.start failingToClose wholeSplit).outcome = .ok c ∧
      (c.after [.advance]).supply.usage.closes = [] ∧
      (c.after [.advance]).close.1 = .error (.foreign .system "result") ∧
      (c.after [.advance, .close]).supply.usage.closes = [.iterator, .result] ∧
        (c.after [.advance, .close]).close = (.ok (), c.after [.advance, .close]) := by
  have hstart : (Cursor.start failingToClose wholeSplit).outcome = .ok _ := rfl
  obtain ⟨p, source, hset, hexecute, hall⟩ := closedOnce_of_start hstart
  cases hset
  cases hexecute
  refine ⟨_, hstart, ?_, ?_, ?_, ?_⟩
  · exact (hall [.advance]).closes_before rfl
  · exact ((hall [.advance]).first_close rfl).1
  · exact (hall [.advance, .close]).closes_after rfl
  · exact (hall [.advance, .close]).close_again rfl

end ScanPlan.Proofs.CursorClosing
