import ScanPlan.Rows.Cursor

namespace ScanPlan

inductive Reaction where
  | proceed
  | leave
  | close
  | fails (f : Failure)
  deriving DecidableEq, Repr

/-- Handles a row, given how many rows were handled before. -/
abbrev Handler (ρ : Type) := Nat → ρ → Reaction

/-- The rows that a handler was given, how many of them it handled, and what is
left. -/
structure Passage (ρ : Type) where
  handed : List ρ
  handled : Nat
  failure? : Option Failure
  cursor : Cursor ρ
  deriving DecidableEq, Repr

namespace Passage

variable {ρ : Type}

def ended (failure? : Option Failure) (c : Cursor ρ) : Passage ρ :=
  ⟨[], 0, failure?, c⟩

def after (p : Passage ρ) (r : ρ) : Passage ρ :=
  { p with handed := r :: p.handed, handled := p.handled + 1 }

def refused (r : ρ) (f : Failure) (c : Cursor ρ) : Passage ρ :=
  ⟨[r], 0, some f, c⟩

def rows (p : Passage ρ) : List ρ :=
  p.handed.take p.handled

def finish (p : Passage ρ) : Passage ρ :=
  match p.cursor.close with
  | (.ok _, c) => { p with cursor := c }
  | (.error f, c) => { p with cursor := c, failure? := some f }

def raise (p : Passage ρ) (f : Option Failure) : Passage ρ :=
  { p with failure? := p.failure? <|> f }

end Passage

namespace Cursor

variable {ρ : Type}

/-- Hands the rows of a cursor to a handler. A handler that closes the cursor gets
no more rows. -/
def each (handler : Handler ρ) (seen : Nat) (c : Cursor ρ) : Passage ρ :=
  match h : c.fetch with
  | (.error f, c') => .ended (some f) c'
  | (.ok none, c') => .ended none c'
  | (.ok (some r), c') =>
      have : c'.supply.pending.length < c.supply.pending.length := by
        have hlen := length_fetch c r (by rw [h])
        simpa [h] using hlen
      match handler seen r with
      | .fails f => .refused r f c'
      | .leave => (Passage.ended none c').after r
      | .close =>
          match c'.close with
          | (.error f, c'') => .refused r f c''
          | (.ok _, c'') => (Passage.ended none c'').after r
      | .proceed => (each handler (seen + 1) c').after r
termination_by c.supply.pending.length

theorem each_eq (handler : Handler ρ) (seen : Nat) (c : Cursor ρ) :
    c.each handler seen =
      match c.fetch with
      | (.error f, c') => .ended (some f) c'
      | (.ok none, c') => .ended none c'
      | (.ok (some r), c') =>
          match handler seen r with
          | .fails f => .refused r f c'
          | .leave => (Passage.ended none c').after r
          | .close =>
              match c'.close with
              | (.error f, c'') => .refused r f c''
              | (.ok _, c'') => (Passage.ended none c'').after r
          | .proceed => (c'.each handler (seen + 1)).after r := by
  conv => lhs; rw [Cursor.each]
  split
  · rename_i h
    rw [h]
  · rename_i h
    rw [h]
  · rename_i h
    simp only [h]

def leaveAt (limit : Option Nat) : Handler ρ :=
  fun seen _ => if limit = some (seen + 1) then .leave else .proceed

/-- Reads at most as many rows as the limit allows, without asking for a row after
the last one. -/
def take (limit : Option Nat) (c : Cursor ρ) : Passage ρ :=
  if limit = some 0 then .ended none c else c.each (leaveAt limit) 0

end Cursor

end ScanPlan
