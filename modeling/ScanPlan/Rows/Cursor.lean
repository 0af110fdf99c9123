import ScanPlan.Rows.Source

/-!
# Cursors

A cursor hands out the rows of one split, one at a time and forward only. It asks
the executor once, when it is started, and fetches nothing ahead. It ends at the
first end of the rows, and when it is closed; closing it closes what the executor
opened, the iterator before the result around it.
-/

namespace ScanPlan

/-- The rows of one split, as far as they have been read. -/
structure Cursor (ρ : Type) where
  split : Split
  supply : Supply ρ
  current? : Option ρ
  rowsRead : Nat
  exhausted : Bool
  closed : Bool
  log : List Event
  deriving DecidableEq, Repr

namespace Cursor

variable {ρ : Type}

def ofSource (s : Split) (source : Source ρ) : Cursor ρ where
  split := s
  supply := .ofSource source
  current? := none
  rowsRead := 0
  exhausted := false
  closed := false
  log := []

/-- Starts a cursor on a split. A split without a partition set is refused before
the executor is asked. -/
def start (execute : Executor ρ) (s : Split) : Run (Cursor ρ) :=
  match s.partitionSet with
  | none | some "" => .fail (.unassignedSplit s)
  | some p => do
      .perform (.execute s.range p)
      let source ← execute s.range p
      match source.startFailure? with
      | some f => .fail f
      | none => do
          .report (.opened s)
          pure (ofSource s source)

/-- Fetches the next row, if there is one. A request that fails leaves the row that
was reached before in its place. -/
def fetch (c : Cursor ρ) : Except Failure (Option ρ) × Cursor ρ :=
  if c.closed || c.exhausted then (.ok none, c) else
  match c.supply.request with
  | (.row r, s) =>
      (.ok (some r), { c with supply := s, current? := some r, rowsRead := c.rowsRead + 1 })
  | (.fails f, s) => (.error f, { c with supply := s })
  | (.stop, s) => (.ok none, { c with supply := s, current? := none, exhausted := true })

def advance (c : Cursor ρ) : Except Failure Bool × Cursor ρ :=
  let (row, c) := c.fetch
  (row.map Option.isSome, c)

def current (c : Cursor ρ) : Except Failure ρ :=
  match c.current? with
  | some r => .ok r
  | none => .error .noCurrentRow

def progress (c : Cursor ρ) : Nat :=
  if c.exhausted then 1 else 0

/-- Closes a cursor. Of two failures that of the result counts. Closing again does
nothing. -/
def close (c : Cursor ρ) : Except Failure Unit × Cursor ρ :=
  if c.closed then (.ok (), c) else
  let (first, s) := c.supply.close .iterator
  let (second, s) := s.close .result
  let closed := { c with closed := true, current? := none, supply := s }
  match second, first with
  | .error f, _ => (.error f, closed)
  | .ok _, .error f => (.error f, closed)
  | .ok _, .ok _ => (.ok (), { closed with log := c.log ++ [.closed c.split c.rowsRead] })

theorem length_fetch (c : Cursor ρ) (r : ρ) (h : c.fetch.1 = .ok (some r)) :
    c.fetch.2.supply.pending.length < c.supply.pending.length := by
  unfold fetch at h ⊢
  split
  · simp_all
  · rename_i hopen
    simp only [hopen] at h
    rcases hreq : c.supply.request with ⟨item, s⟩
    simp only [hreq] at h ⊢
    cases item with
    | row x =>
        have hlen := Supply.length_request c.supply (.row x) (by rw [hreq]) rfl
        simpa [hreq] using hlen
    | fails f => simp at h
    | stop => simp at h

end Cursor

end ScanPlan
