import ScanPlan.Key

namespace ScanPlan

/-- The keys from `start` up to `stop`, which is left out. Without a stop they run to the end of
the key space. -/
structure Interval where
  start : Key
  stop : Option Key
  deriving DecidableEq, Repr

namespace Interval

def Before (k : Key) : Option Key → Prop
  | none => True
  | some e => k < e

instance (k : Key) : (e : Option Key) → Decidable (Before k e)
  | none => inferInstanceAs (Decidable True)
  | some e => inferInstanceAs (Decidable (k < e))

instance : Membership Key Interval where
  mem r k := r.start ≤ k ∧ Before k r.stop

theorem mem_iff {r : Interval} {k : Key} :
    k ∈ r ↔ r.start ≤ k ∧ Before k r.stop :=
  Iff.rfl

def contains (r : Interval) (k : Key) : Bool :=
  if k < r.start then false else
  match r.stop with
  | none => true
  | some e => decide (k < e)

theorem contains_iff {r : Interval} {k : Key} : r.contains k = true ↔ k ∈ r := by
  obtain ⟨start, stop⟩ := r
  cases stop <;>
    simp [contains, mem_iff, Before, List.not_lt]

instance (r : Interval) (k : Key) : Decidable (k ∈ r) :=
  decidable_of_iff _ contains_iff

def isUnbounded (r : Interval) : Bool :=
  r.stop.isNone

def endsBy (k : Key) : Option Key → Bool
  | none => false
  | some e => decide (e ≤ k)

def earlierEnd : Option Key → Option Key → Option Key
  | none, f => f
  | e, none => e
  | some e, some f => if f < e then some f else some e

/-- The part of an interval inside a frame. There is none when the interval ends
by the start of the frame or starts at or after its end. -/
def clip (r frame : Interval) : Option Interval :=
  if endsBy frame.start r.stop || endsBy r.start frame.stop then none
  else some {
    start := if r.start < frame.start then frame.start else r.start
    stop := earlierEnd r.stop frame.stop }

end Interval

end ScanPlan
