import ScanPlan.Rows.Call

/-!
# Histories of cursors

Whatever is called on a cursor comes down to requests for a row and closings. The history
of calls lists them in order, with what each request met, and it leads from the cursor
before the calls to the one after them. So what one request and one closing keep, any
calls keep.
-/

namespace ScanPlan.Proofs.CursorHistory

open ScanPlan.Cursor

variable {ρ : Type}

/-- A request for a row, by what it met, or a closing. -/
inductive Move (ρ : Type) where
  | reached (r : ρ)
  | ended
  | failed (f : Failure)
  | closed
  deriving DecidableEq, Repr

namespace Move

def ofFetch : Except Failure (Option ρ) → Move ρ
  | .ok (some r) => .reached r
  | .ok none => .ended
  | .error f => .failed f

def isFailed : Move ρ → Bool
  | failed _ => true
  | _ => false

end Move

def eachMoves (handler : Handler ρ) (seen : Nat) (c : Cursor ρ) : List (Move ρ) :=
  .ofFetch c.fetch.1 ::
    match h : c.fetch.1 with
    | .ok (some r) =>
        have := length_fetch c r h
        match handler seen r with
        | .proceed => eachMoves handler (seen + 1) c.fetch.2
        | .close => [.closed]
        | .leave | .fails _ => []
    | _ => []
termination_by c.supply.pending.length

theorem eachMoves_eq (handler : Handler ρ) (seen : Nat) (c : Cursor ρ) :
    eachMoves handler seen c =
      .ofFetch c.fetch.1 ::
        match c.fetch.1 with
        | .ok (some r) =>
            match handler seen r with
            | .proceed => eachMoves handler (seen + 1) c.fetch.2
            | .close => [.closed]
            | .leave | .fails _ => []
        | _ => [] := by
  rw [eachMoves]
  congr 1
  split
  · rename_i h
    simp only [h]
  · rename_i h
    split
    · rename_i r hr
      exact absurd hr (h r)
    · rfl

def takeMoves (limit : Option Nat) (c : Cursor ρ) : List (Move ρ) :=
  if limit = some 0 then [] else eachMoves (leaveAt limit) 0 c

def callMoves (c : Cursor ρ) : Call → List (Move ρ)
  | .advance => [.ofFetch c.fetch.1]
  | .current => []
  | .close => [.closed]
  | .take limit => takeMoves limit c
  | .within limit _ => takeMoves limit c ++ [.closed]

/-- The moves of calls that are answered one after the other. -/
def history (c : Cursor ρ) : List Call → List (Move ρ)
  | [] => []
  | call :: calls => callMoves c call ++ history (c.answer call).2 calls

inductive Leads : Cursor ρ → List (Move ρ) → Cursor ρ → Prop where
  | here (c : Cursor ρ) : Leads c [] c
  | fetch {c c' : Cursor ρ} {moves : List (Move ρ)} :
      Leads c.fetch.2 moves c' → Leads c (.ofFetch c.fetch.1 :: moves) c'
  | close {c c' : Cursor ρ} {moves : List (Move ρ)} :
      Leads c.close.2 moves c' → Leads c (.closed :: moves) c'

theorem Leads.trans {c c' c'' : Cursor ρ} {moves moves' : List (Move ρ)}
    (h : Leads c moves c') (h' : Leads c' moves' c'') : Leads c (moves ++ moves') c'' := by
  induction h with
  | here _ => exact h'
  | fetch _ ih => exact .fetch (ih h')
  | close _ ih => exact .close (ih h')

theorem Leads.keeps {P : Cursor ρ → Prop} (hfetch : ∀ c, P c → P c.fetch.2)
    (hclose : ∀ c, P c → P c.close.2) {c c' : Cursor ρ} {moves : List (Move ρ)}
    (h : Leads c moves c') (hc : P c) : P c' := by
  induction h with
  | here _ => exact hc
  | fetch _ ih => exact ih (hfetch _ hc)
  | close _ ih => exact ih (hclose _ hc)

/-- What one request and one closing keep, given the moves so far, all moves keep. -/
theorem Leads.tracks {P : List (Move ρ) → Cursor ρ → Prop}
    (hfetch : ∀ past c, P past c → P (past ++ [.ofFetch c.fetch.1]) c.fetch.2)
    (hclose : ∀ past c, P past c → P (past ++ [.closed]) c.close.2) {c c' : Cursor ρ}
    {moves past : List (Move ρ)} (h : Leads c moves c') (hc : P past c) :
    P (past ++ moves) c' := by
  induction h generalizing past with
  | here _ =>
      rw [List.append_nil]
      exact hc
  | fetch _ ih =>
      rw [List.append_cons]
      exact ih (hfetch _ _ hc)
  | close _ ih =>
      rw [List.append_cons]
      exact ih (hclose _ _ hc)

theorem leads_each (handler : Handler ρ) (seen : Nat) (c : Cursor ρ) :
    Leads c (eachMoves handler seen c) (c.each handler seen).cursor := by
  fun_induction eachMoves handler seen c with
  | case1 seen c ih =>
      rw [← eachMoves, eachMoves_eq, Cursor.each_eq]
      apply Leads.fetch
      rcases hfetch : c.fetch with ⟨answer, c'⟩
      simp only [hfetch] at ih
      cases answer with
      | error f => exact .here c'
      | ok row? =>
          cases row? with
          | none => exact .here c'
          | some r =>
              simp only
              cases hr : handler seen r with
              | proceed => exact ih r rfl
              | leave => exact .here c'
              | fails f => exact .here c'
              | close =>
                  apply Leads.close
                  rcases c'.close with ⟨_ | _, c''⟩
                  · exact .here c''
                  · exact .here c''

theorem leads_take (limit : Option Nat) (c : Cursor ρ) :
    Leads c (takeMoves limit c) (c.take limit).cursor := by
  unfold takeMoves Cursor.take
  split
  · exact .here c
  · exact leads_each (leaveAt limit) 0 c

theorem cursor_finish (p : Passage ρ) : p.finish.cursor = p.cursor.close.2 := by
  unfold Passage.finish
  split
  · rename_i h
    rw [h]
  · rename_i h
    rw [h]

theorem leads_finish {c : Cursor ρ} {moves : List (Move ρ)} {p : Passage ρ}
    (h : Leads c moves p.cursor) : Leads c (moves ++ [.closed]) p.finish.cursor := by
  rw [cursor_finish]
  exact h.trans (.close (.here _))

theorem answer_advance (c : Cursor ρ) : (c.answer .advance).2 = c.fetch.2 := by
  rcases hfetch : c.fetch with ⟨_ | _, c'⟩
  · simp only [answer, advance, hfetch, Except.map]
  · simp only [answer, advance, hfetch, Except.map]

theorem answer_current (c : Cursor ρ) : (c.answer .current).2 = c := by
  simp only [answer]
  split
  · rfl
  · rfl

theorem answer_close (c : Cursor ρ) : (c.answer .close).2 = c.close.2 := by
  rcases hclose : c.close with ⟨_ | _, c'⟩
  · simp only [answer, hclose]
  · simp only [answer, hclose]

theorem leads_answer (c : Cursor ρ) (call : Call) :
    Leads c (callMoves c call) (c.answer call).2 := by
  cases call with
  | advance =>
      rw [answer_advance]
      exact .fetch (.here _)
  | current =>
      rw [answer_current]
      exact .here c
  | close =>
      rw [answer_close]
      exact .close (.here _)
  | take limit => exact leads_take limit c
  | within limit raised =>
      exact leads_finish (p := (c.take limit).raise raised) (leads_take limit c)

/-- The history of calls leads to the cursor after them. -/
theorem leads_after (c : Cursor ρ) (calls : List Call) :
    Leads c (history c calls) (c.after calls) := by
  induction calls generalizing c with
  | nil => exact .here c
  | cons call calls ih => exact (leads_answer c call).trans (ih (c.answer call).2)

theorem eq_ofSource_of_start {execute : Executor ρ} {s : Split} {c : Cursor ρ}
    (h : (Cursor.start execute s).outcome = .ok c) :
    ∃ p source, s.partitionSet = some p ∧ p ≠ "" ∧
      (execute s.range p).outcome = .ok source ∧ source.startFailure? = none ∧
        c = .ofSource s source := by
  unfold Cursor.start at h
  split at h
  · contradiction
  · contradiction
  · rename_i p hne hset
    obtain ⟨_, -, h⟩ := Run.outcome_bind_eq_ok.mp h
    obtain ⟨source, hexecute, h⟩ := Run.outcome_bind_eq_ok.mp h
    split at h
    · contradiction
    · rename_i hstarts
      obtain ⟨_, -, h⟩ := Run.outcome_bind_eq_ok.mp h
      cases h
      exact ⟨p, source, hset, hne, hexecute, hstarts, rfl⟩

end ScanPlan.Proofs.CursorHistory
