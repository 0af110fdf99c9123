import ScanPlan.Rows.Passage

/-!
# Delivery

Splits share nothing, so each is read on its own and hands its rows to a callback.
Whatever fails on the way is put down in the outcome of that split, and the other
splits go on. Outcomes come in the order of the splits.
-/

namespace ScanPlan

/-- Takes a row of the split at a position, given how many rows of that split it
took before. It takes the row or fails. -/
abbrev Callback (ρ : Type) := Nat → Nat → ρ → Option Failure

/-- What became of a split: the rows that the callback was given, how many of them
it took, and what failed. -/
structure Outcome (ρ : Type) where
  split : Split
  handed : List ρ
  rows : Nat
  failure? : Option Failure
  usage : Usage
  deriving DecidableEq, Repr

namespace Outcome

variable {ρ : Type}

def isOk (o : Outcome ρ) : Bool :=
  o.failure?.isNone

def delivered (o : Outcome ρ) : List ρ :=
  o.handed.take o.rows

def unstarted (s : Split) (f : Failure) : Outcome ρ :=
  ⟨s, [], 0, some f, .none⟩

def ofPassage (s : Split) (p : Passage ρ) : Outcome ρ :=
  ⟨s, p.handed, p.handled, p.failure?, p.cursor.supply.usage⟩

def reportFailure (o : Outcome ρ) : Run Unit :=
  match o.failure? with
  | none => pure ()
  | some f => .report (.broken o.split o.rows f)

end Outcome

namespace Delivery

variable {ρ : Type}

def reaction (take : Nat → ρ → Option Failure) : Handler ρ :=
  fun seen r =>
    match take seen r with
    | none => .proceed
    | some f => .fails f

def drain (take : Nat → ρ → Option Failure) (c : Cursor ρ) : Passage ρ :=
  (c.each (reaction take) 0).finish

def consume (execute : Executor ρ) (take : Nat → ρ → Option Failure) (s : Split) :
    Run (Outcome ρ) := do
  let outcome ← match ← (Cursor.start execute s).attempt with
    | .error f => pure (.unstarted s f)
    | .ok c => do
        let p := drain take c
        p.cursor.log.forM .report
        pure (.ofPassage s p)
  outcome.reportFailure
  pure outcome

def consumeFrom (execute : Executor ρ) (callback : Callback ρ) (i : Nat) :
    List Split → Run (List (Outcome ρ))
  | [] => pure []
  | s :: rest => do
      let outcome ← consume execute (callback i) s
      let others ← consumeFrom execute callback (i + 1) rest
      pure (outcome :: others)

def summary (outcomes : List (Outcome ρ)) : Event :=
  .delivered (outcomes.foldr (fun o n => o.rows + n) 0) outcomes.length
    (outcomes.countP fun o => !o.isOk)

end Delivery

open Delivery in
/-- Delivers the rows of splits to a callback with a number of workers, of which
there has to be one at least. -/
def deliver {ρ : Type} (execute : Executor ρ) (callback : Callback ρ) (workers : Int)
    (splits : List Split) : Run (List (Outcome ρ)) :=
  if workers < 1 then .fail (.tooFewWorkers workers)
  else if splits = [] then pure []
  else do
    let outcomes ← consumeFrom execute callback 0 splits
    .report (summary outcomes)
    pure outcomes

end ScanPlan
