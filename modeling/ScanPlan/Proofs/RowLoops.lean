import ScanPlan.Proofs.CurrentRow
import ScanPlan.Proofs.RowsRead

/-!
# Two loops over the rows of a split

The rows of a split can be handled in a loop of calls, which advances a cursor and asks it for
its current row, or in a loop over an iteration, which stands still at each row until it is
resumed. Main statement: whatever the handler does, the two loops do the same and come to the
same end, which is that of a passage.
-/

namespace ScanPlan.Proofs.RowLoops

open ScanPlan.Cursor
open ScanPlan.Proofs.CurrentRow
open ScanPlan.Proofs.RowsRead

variable {ρ : Type}

/-- What a handler does about a row. It reacts at once, or it closes the cursor and then reacts
in view of the failure to close it, if there was one. -/
inductive Handling where
  | reacts (reaction : Reaction)
  | closesFirst (reaction : Option Failure → Reaction)

inductive Turn where
  | again
  | leave
  | fails (f : Failure)

def failureToClose? (c : Cursor ρ) : Option Failure :=
  match c.close.1 with
  | .ok _ => none
  | .error f => some f

def afterReaction (c : Cursor ρ) : Reaction → Turn × Cursor ρ
  | .proceed => (.again, c)
  | .leave => (.leave, c)
  | .fails f => (.fails f, c)
  | .close =>
      match failureToClose? c with
      | none => (.again, c.close.2)
      | some f => (.fails f, c.close.2)

/-- What a handler comes to, and the cursor that it leaves. -/
def afterHandling (c : Cursor ρ) : Handling → Turn × Cursor ρ
  | .reacts reaction => afterReaction c reaction
  | .closesFirst reaction => afterReaction c.close.2 (reaction (failureToClose? c))

theorem pending_afterReaction (c : Cursor ρ) (reaction : Reaction) :
    (afterReaction c reaction).2.supply.pending = c.supply.pending := by
  cases reaction with
  | proceed => rfl
  | leave => rfl
  | fails f => rfl
  | close =>
      rw [afterReaction]
      split
      · exact (readAlike_close c).pending
      · exact (readAlike_close c).pending

theorem pending_afterHandling (c : Cursor ρ) (handling : Handling) :
    (afterHandling c handling).2.supply.pending = c.supply.pending := by
  cases handling with
  | reacts reaction => exact pending_afterReaction c reaction
  | closesFirst reaction =>
      exact (pending_afterReaction _ _).trans (readAlike_close c).pending

/-- The passage from a row on that was handled. What comes next is part of it when the loop
goes on. -/
def onward (r : ρ) (handled : Turn × Cursor ρ) (next : Passage ρ) : Passage ρ :=
  match handled.1 with
  | .again => next.after r
  | .leave => (Passage.ended none handled.2).after r
  | .fails f => .refused r f handled.2

theorem advance_of_fetch {c c' : Cursor ρ} {row : Except Failure (Option ρ)}
    (h : c.fetch = (row, c')) : c.advance = (row.map Option.isSome, c') := by
  rw [Cursor.advance, h]

theorem fetch_of_advance {c c' : Cursor ρ} (h : c.advance = (.ok true, c')) :
    ∃ r, c.fetch = (.ok (some r), c') := by
  rcases hfetch : c.fetch with ⟨_ | _ | r, c''⟩
  all_goals
    rw [advance_of_fetch hfetch] at h
    cases h
  exact ⟨r, rfl⟩

theorem length_advance {c c' : Cursor ρ} (h : c.advance = (.ok true, c')) :
    c'.supply.pending.length < c.supply.pending.length := by
  obtain ⟨r, hfetch⟩ := fetch_of_advance h
  have hlength := length_fetch c r (congrArg Prod.fst hfetch)
  rw [hfetch] at hlength
  exact hlength

def callLoop (handle : Nat → ρ → Handling) (seen : Nat) (c : Cursor ρ) : Passage ρ :=
  match h : c.advance with
  | (.error f, c') => .ended (some f) c'
  | (.ok false, c') => .ended none c'
  | (.ok true, c') =>
      match c'.current with
      | .error f => .ended (some f) c'
      | .ok r =>
          have : (afterHandling c' (handle seen r)).2.supply.pending.length <
              c.supply.pending.length := by
            rw [pending_afterHandling]
            exact length_advance h
          onward r (afterHandling c' (handle seen r))
            (callLoop handle (seen + 1) (afterHandling c' (handle seen r)).2)
termination_by c.supply.pending.length

theorem callLoop_eq (handle : Nat → ρ → Handling) (seen : Nat) (c : Cursor ρ) :
    callLoop handle seen c =
      match c.advance with
      | (.error f, c') => .ended (some f) c'
      | (.ok false, c') => .ended none c'
      | (.ok true, c') =>
          match c'.current with
          | .error f => .ended (some f) c'
          | .ok r => onward r (afterHandling c' (handle seen r))
              (callLoop handle (seen + 1) (afterHandling c' (handle seen r)).2) := by
  conv => lhs; rw [callLoop]
  split
  · rename_i h
    rw [h]
  · rename_i h
    rw [h]
  · rename_i h
    simp only [h]

/-- Whether an iteration stands still, before its first row or at the row that it gave last, or
is finished. -/
inductive Iteration where
  | standing
  | finished

/-- Resumes an iteration. It advances the cursor and gives the current row, and it is finished
when there is none or the cursor fails. -/
def resume (c : Cursor ρ) : Iteration → Except Failure (Option ρ) × Iteration × Cursor ρ
  | .finished => (.ok none, .finished, c)
  | .standing =>
      match c.advance with
      | (.error f, c') => (.error f, .finished, c')
      | (.ok false, c') => (.ok none, .finished, c')
      | (.ok true, c') => (.ok c'.current?, .standing, c')

theorem advance_of_resume {c c' : Cursor ρ} {i i' : Iteration} {r : ρ}
    (h : resume c i = (.ok (some r), i', c')) : c.advance = (.ok true, c') := by
  cases i with
  | finished => cases h
  | standing =>
      rcases hadvance : c.advance with ⟨f | _ | _, c''⟩
      all_goals
        rw [resume, hadvance, Prod.mk.injEq, Prod.mk.injEq] at h
        obtain ⟨hrow, -, rfl⟩ := h
      · cases hrow
      · cases hrow
      · rfl

def iterationLoop (handle : Nat → ρ → Handling) (seen : Nat) (i : Iteration) (c : Cursor ρ) :
    Passage ρ :=
  match h : resume c i with
  | (.error f, _, c') => .ended (some f) c'
  | (.ok none, _, c') => .ended none c'
  | (.ok (some r), i', c') =>
      have : (afterHandling c' (handle seen r)).2.supply.pending.length <
          c.supply.pending.length := by
        rw [pending_afterHandling]
        exact length_advance (advance_of_resume h)
      onward r (afterHandling c' (handle seen r))
        (iterationLoop handle (seen + 1) i' (afterHandling c' (handle seen r)).2)
termination_by c.supply.pending.length

theorem iterationLoop_eq (handle : Nat → ρ → Handling) (seen : Nat) (i : Iteration)
    (c : Cursor ρ) :
    iterationLoop handle seen i c =
      match resume c i with
      | (.error f, _, c') => .ended (some f) c'
      | (.ok none, _, c') => .ended none c'
      | (.ok (some r), i', c') => onward r (afterHandling c' (handle seen r))
          (iterationLoop handle (seen + 1) i' (afterHandling c' (handle seen r)).2) := by
  conv => lhs; rw [iterationLoop]
  split
  · rename_i h
    rw [h]
  · rename_i h
    rw [h]
  · rename_i h
    simp only [h]

theorem iterationLoop_eq_callLoop (handle : Nat → ρ → Handling) (seen : Nat) (c : Cursor ρ) :
    iterationLoop handle seen .standing c = callLoop handle seen c := by
  fun_induction callLoop handle seen c with
  | case1 seen c f c' h => rw [iterationLoop_eq, resume, h]
  | case2 seen c c' h => rw [iterationLoop_eq, resume, h]
  | case3 seen c c' h f hcurrent =>
      obtain ⟨r, hfetch⟩ := fetch_of_advance h
      rw [current_of_fetch hfetch] at hcurrent
      contradiction
  | case4 seen c c' h r hcurrent _ ih =>
      have hrow : c'.current? = some r := (current_eq_ok_iff c' r).mp hcurrent
      rw [iterationLoop_eq, resume, h]
      simp only [hrow, ih]

theorem callLoop_of_over {c : Cursor ρ} (h : Over c) (handle : Nat → ρ → Handling) (seen : Nat) :
    callLoop handle seen c = .ended none c := by
  rw [callLoop_eq, advance_of_over h]

theorem callLoop_of_row {c c' : Cursor ρ} {r : ρ} (h : c.fetch = (.ok (some r), c'))
    (handle : Nat → ρ → Handling) (seen : Nat) :
    callLoop handle seen c = onward r (afterHandling c' (handle seen r))
      (callLoop handle (seen + 1) (afterHandling c' (handle seen r)).2) := by
  have hadvance : c.advance = (.ok true, c') := advance_of_fetch h
  rw [callLoop_eq, hadvance]
  simp only [current_of_fetch h]

theorem callLoop_eq_each (handler : Handler ρ) (seen : Nat) (c : Cursor ρ) :
    callLoop (fun n r => .reacts (handler n r)) seen c = c.each handler seen := by
  fun_induction Cursor.each handler seen c with
  | case1 seen c f c' h => rw [callLoop_eq, advance_of_fetch h]; rfl
  | case2 seen c c' h => rw [callLoop_eq, advance_of_fetch h]; rfl
  | case3 seen c r c' h _ f hfails =>
      rw [callLoop_of_row h, hfails]
      rfl
  | case4 seen c r c' h _ hleave =>
      rw [callLoop_of_row h, hleave]
      rfl
  | case5 seen c r c' h _ hclose f c'' hfails =>
      rw [callLoop_of_row h, hclose]
      simp only [afterHandling, afterReaction, failureToClose?, hfails]
      rfl
  | case6 seen c r c' h _ hclose _ c'' hcloses =>
      rw [callLoop_of_row h, hclose]
      have hover : Over c'' := by
        have hclosed := over_close c'
        rw [hcloses] at hclosed
        exact hclosed
      simp only [afterHandling, afterReaction, failureToClose?, hcloses, callLoop_of_over hover]
      rfl
  | case7 seen c r c' h _ hproceeds ih =>
      rw [callLoop_of_row h, hproceeds]
      exact congrArg (Passage.after · r) ih

/-- Opens a split, handles its rows in a loop of calls and closes it in any case. -/
def readByCalls (execute : Executor ρ) (handle : Nat → ρ → Handling) (s : Split) :
    Run (Passage ρ) := do
  let c ← Cursor.start execute s
  pure (callLoop handle 0 c).finish

/-- Opens a split, handles its rows in a loop over an iteration and closes it in any case. -/
def readByIteration (execute : Executor ρ) (handle : Nat → ρ → Handling) (s : Split) :
    Run (Passage ρ) := do
  let c ← Cursor.start execute s
  pure (iterationLoop handle 0 .standing c).finish

/-- Both loops hand the same rows to a handler, come to the same end and leave the cursor and
its source the same. For a handler that reacts at once they are a passage. -/
theorem readByCalls_eq_readByIteration (execute : Executor ρ) (s : Split) :
    (∀ handle, readByCalls execute handle s = readByIteration execute handle s) ∧
      ∀ handler : Handler ρ, readByIteration execute (fun n r => .reacts (handler n r)) s = (do
        let c ← Cursor.start execute s
        pure (c.each handler 0).finish) := by
  constructor
  · intro handle
    simp only [readByCalls, readByIteration, iterationLoop_eq_callLoop]
  · intro handler
    simp only [readByIteration, iterationLoop_eq_callLoop, callLoop_eq_each]

example : (readByCalls
      (fun _ _ => pure (.resultSet [.row 1, .row 2] none (.fails (.foreign .system "busy"))
        .succeeds))
      (fun _ (_ : Nat) => .closesFirst fun _ => .proceed)
      ⟨none, some "p", ⟨[], none⟩⟩).outcome.map (fun p => (p.handed, p.failure?)) =
    .ok ([1], none) := by
  decide +kernel

end ScanPlan.Proofs.RowLoops
