import Mathlib.Data.List.Induction
import ScanPlan.Proofs.CursorHistory

namespace ScanPlan.Proofs.CurrentRow

open ScanPlan.Cursor
open ScanPlan.Proofs.CursorHistory

variable {ρ : Type}

def rowAfter : Option ρ → Move ρ → Option ρ
  | _, .reached r => some r
  | row, .failed _ => row
  | _, .ended => none
  | _, .closed => none

/-- Once its rows have ended or it is closed, a cursor has no current row. -/
def Vacated (c : Cursor ρ) : Prop :=
  (c.closed || c.exhausted) = true → c.current? = none

theorem vacated_fetch {c : Cursor ρ} (h : Vacated c) : Vacated c.fetch.2 := by
  unfold Cursor.fetch
  split
  · exact h
  · rename_i hopen
    rcases c.supply.request with ⟨_ | _ | _, s⟩
    · exact fun hdone => absurd hdone hopen
    · exact fun hdone => absurd hdone hopen
    · exact fun _ => rfl

theorem vacated_close {c : Cursor ρ} (h : Vacated c) : Vacated c.close.2 := by
  unfold Cursor.close
  split
  · exact h
  · simp only
    split
    all_goals exact fun _ => rfl

theorem current?_fetch {c : Cursor ρ} (h : Vacated c) :
    c.fetch.2.current? = rowAfter c.current? (.ofFetch c.fetch.1) := by
  unfold Cursor.fetch
  split
  · rename_i hdone
    exact h hdone
  · rcases c.supply.request with ⟨_ | _ | _, s⟩
    · rfl
    · rfl
    · rfl

theorem current?_close {c : Cursor ρ} (h : Vacated c) : c.close.2.current? = none := by
  unfold Cursor.close
  split
  · rename_i hclosed
    exact h (by rw [hclosed, Bool.true_or])
  · simp only
    split
    all_goals rfl

theorem current?_of_leads {c c' : Cursor ρ} {moves : List (Move ρ)} (h : Leads c moves c')
    (hc : Vacated c) : c'.current? = moves.foldl rowAfter c.current? := by
  induction h with
  | here _ => rfl
  | fetch _ ih =>
      rw [ih (vacated_fetch hc), current?_fetch hc]
      rfl
  | close _ ih =>
      rw [ih (vacated_close hc), current?_close hc]
      rfl

def lastUnfailed (moves : List (Move ρ)) : Option (Move ρ) :=
  moves.reverse.find? fun m => !m.isFailed

theorem lastUnfailed_append_singleton (moves : List (Move ρ)) (m : Move ρ) :
    lastUnfailed (moves ++ [m]) = if m.isFailed then lastUnfailed moves else some m := by
  unfold lastUnfailed
  rw [List.reverse_append, List.reverse_singleton, List.singleton_append, List.find?_cons]
  cases m.isFailed with
  | false => rfl
  | true => rfl

theorem foldl_rowAfter_eq_some_iff (moves : List (Move ρ)) (r : ρ) :
    moves.foldl rowAfter none = some r ↔ lastUnfailed moves = some (.reached r) := by
  induction moves using List.reverseRecOn with
  | nil => simp [lastUnfailed]
  | append_singleton moves m ih =>
      rw [List.foldl_append, lastUnfailed_append_singleton]
      cases m with
      | reached r' => simp [rowAfter, Move.isFailed]
      | ended => simp [rowAfter, Move.isFailed]
      | failed f => exact ih
      | closed => simp [rowAfter, Move.isFailed]

theorem current_eq_ok_iff (c : Cursor ρ) (r : ρ) : c.current = .ok r ↔ c.current? = some r := by
  unfold Cursor.current
  cases c.current? with
  | none => simp
  | some r' => simp

/-- After any calls on a cursor that was started, the current row is the one that was
reached by the last move that did not fail. When that is no reached row there is none. -/
theorem current_after_iff {execute : Executor ρ} {s : Split} {c : Cursor ρ}
    (hstart : (Cursor.start execute s).outcome = .ok c) (calls : List Call) :
    (∀ r, (c.after calls).current = .ok r ↔
        lastUnfailed (history c calls) = some (.reached r)) ∧
      ((∀ r, lastUnfailed (history c calls) ≠ some (.reached r)) →
        (c.after calls).current = .error .noCurrentRow) := by
  obtain ⟨_, source, -, -, -, -, rfl⟩ := eq_ofSource_of_start hstart
  have hrow := current?_of_leads (leads_after (.ofSource s source) calls) fun _ => rfl
  have hiff : ∀ r, (Cursor.after (.ofSource s source) calls).current = .ok r ↔
      lastUnfailed (history (.ofSource s source) calls) = some (.reached r) := by
    intro r
    rw [current_eq_ok_iff, hrow]
    exact foldl_rowAfter_eq_some_iff _ r
  refine ⟨hiff, ?_⟩
  intro hnone
  cases hcurrent : (Cursor.after (.ofSource s source) calls).current with
  | ok r => exact absurd ((hiff r).mp hcurrent) (hnone r)
  | error f =>
      unfold Cursor.current at hcurrent
      split at hcurrent
      · contradiction
      · exact hcurrent.symm

def rowThenFailure : Executor Nat :=
  fun _ _ => pure (.iterator [.row 7, .fails (.foreign .system "offline")] none .succeeds)

theorem current_after_failed_request :
    ∃ c, (Cursor.start rowThenFailure ⟨none, some "p", ⟨[], none⟩⟩).outcome = .ok c ∧
      (c.after [.advance, .advance]).current = .ok 7 ∧
        (c.after [.advance, .advance, .close]).current = .error .noCurrentRow := by
  have hstart : (Cursor.start rowThenFailure ⟨none, some "p", ⟨[], none⟩⟩).outcome = .ok _ := rfl
  refine ⟨_, hstart, ?_, ?_⟩
  · exact ((current_after_iff hstart [.advance, .advance]).1 7).mpr rfl
  · apply (current_after_iff hstart [.advance, .advance, .close]).2
    intro r hr
    cases hr

/-- It does not hold that a cursor has a current row exactly when its last move reached
one: a row stays current after a request that fails. -/
theorem not_forall_current_iff_last_reached :
    ¬ ∀ (execute : Executor Nat) (s : Split) (c : Cursor Nat),
      (Cursor.start execute s).outcome = .ok c → ∀ calls r,
        ((c.after calls).current = .ok r ↔
          (history c calls).getLast? = some (.reached r)) := by
  intro hall
  have hlast := (hall rowThenFailure ⟨none, some "p", ⟨[], none⟩⟩ _ rfl [.advance, .advance]
    7).mp rfl
  cases hlast

end ScanPlan.Proofs.CurrentRow
