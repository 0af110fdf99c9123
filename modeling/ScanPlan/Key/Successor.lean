import ScanPlan.Key

namespace ScanPlan.Key

/-- The key increased by one, and whether the carry left its first byte. In that
case the key has wrapped round to zeros. -/
def next : Key → Key × Bool
  | [] => ([], true)
  | b :: k =>
      match next k with
      | (tail, false) => (b :: tail, false)
      | (tail, true) => if b = 0xFF then (0 :: tail, true) else ((b + 1) :: tail, false)

/-- The next key of the same length, if there is one. -/
def successor? (k : Key) : Option Key :=
  match next k with
  | (k', false) => some k'
  | (_, true) => none

@[simp] theorem next_length (k : Key) : (next k).1.length = k.length := by
  induction k with
  | nil => rfl
  | cons b k ih =>
      simp only [next]
      split
      · rename_i h
        simp_all
      · rename_i h
        split <;> simp_all

theorem next_carry_iff (k : Key) : (next k).2 = true ↔ ∀ b ∈ k, b = 0xFF := by
  induction k with
  | nil => simp [next]
  | cons b k ih =>
      simp only [next, List.forall_mem_cons, ← ih]
      split
      · rename_i h
        simp [h]
      · rename_i h
        split <;> simp [*]

theorem successor?_eq_none_iff (k : Key) : successor? k = none ↔ ∀ b ∈ k, b = 0xFF := by
  rw [← next_carry_iff]
  unfold successor?
  split <;> simp_all

end ScanPlan.Key
