import ScanPlan.Run

namespace ScanPlan

inductive Item (ρ : Type) where
  | row (r : ρ)
  | fails (f : Failure)
  | stop
  deriving DecidableEq, Repr

def Item.isRow {ρ : Type} : Item ρ → Bool
  | .row _ => true
  | _ => false

def Item.collect {ρ : Type} : Option Nat → List (Item ρ) → List ρ × Option Failure
  | some 0, _ => ([], none)
  | _, [] => ([], none)
  | _, .stop :: _ => ([], none)
  | _, .fails f :: _ => ([], some f)
  | limit, .row r :: rest =>
      let (rows, failure) := collect (limit.map (· - 1)) rest
      (r :: rows, failure)

inductive Closing where
  | unsupported
  | succeeds
  | fails (f : Failure)
  deriving DecidableEq, Repr

/-- What an executor answers: rows at hand, of which nothing is recorded and nothing can be
closed, something that hands out its own rows, or something around an iterator of its own. -/
inductive Source (ρ : Type) where
  | list (rows : List ρ)
  | iterator (items : List (Item ρ)) (starts : Option Failure) (closing : Closing)
  | resultSet (items : List (Item ρ)) (starts : Option Failure)
      (iteratorClosing resultClosing : Closing)
  deriving DecidableEq, Repr

inductive Handle where
  | iterator
  | result
  deriving DecidableEq, Repr

namespace Source

variable {ρ : Type}

def items : Source ρ → List (Item ρ)
  | list rows => rows.map .row
  | iterator items _ _ => items
  | resultSet items _ _ _ => items

def startFailure? : Source ρ → Option Failure
  | list _ => none
  | iterator _ starts _ => starts
  | resultSet _ starts _ _ => starts

def closing : Source ρ → Handle → Closing
  | list _, _ => .unsupported
  | iterator _ _ c, .iterator => c
  | iterator _ _ _, .result => .unsupported
  | resultSet _ _ c _, .iterator => c
  | resultSet _ _ _ c, .result => c

def readAll (s : Source ρ) : Except Failure (List ρ) :=
  match s.startFailure?, Item.collect none s.items with
  | some f, _ => .error f
  | none, (_, some f) => .error f
  | none, (rows, none) => .ok rows

def isRecorded : Source ρ → Bool
  | list _ => false
  | _ => true

end Source

structure Usage where
  produced : Nat
  closes : List Handle
  deriving DecidableEq, Repr

def Usage.none : Usage :=
  ⟨0, []⟩

/-- A source in use. -/
structure Supply (ρ : Type) where
  source : Source ρ
  pending : List (Item ρ)
  usage : Usage
  deriving DecidableEq, Repr

namespace Supply

variable {ρ : Type}

def ofSource (s : Source ρ) : Supply ρ :=
  ⟨s, s.items, .none⟩

def record (s : Supply ρ) (item : Item ρ) : Usage :=
  if item.isRow && s.source.isRecorded then
    { s.usage with produced := s.usage.produced + 1 }
  else s.usage

/-- Asks for a row. After the last item there is always the end. -/
def request (s : Supply ρ) : Item ρ × Supply ρ :=
  match s.pending with
  | [] => (.stop, s)
  | item :: rest => (item, { s with pending := rest, usage := s.record item })

def close (s : Supply ρ) (h : Handle) : Except Failure Unit × Supply ρ :=
  let closed := { s with usage := { s.usage with closes := s.usage.closes ++ [h] } }
  match s.source.closing h with
  | .unsupported => (.ok (), s)
  | .succeeds => (.ok (), closed)
  | .fails f => (.error f, closed)

theorem length_request (s : Supply ρ) (item : Item ρ) (h : s.request.1 = item)
    (hr : item.isRow = true) : s.request.2.pending.length < s.pending.length := by
  unfold request at h ⊢
  split
  · rename_i hp
    simp only [hp] at h
    subst h
    contradiction
  · rename_i hp
    simp [hp]

end Supply

abbrev Executor (ρ : Type) := Interval → String → Run (Source ρ)

end ScanPlan
