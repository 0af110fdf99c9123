namespace ScanPlan.Precision

def significant : Nat := 53

def unit (n : Nat) : Nat :=
  Nat.pow 2 (n.log2 + 1 - significant)

def unitsOf (n u : Nat) : Nat :=
  let q := n / u
  let r := n % u
  if u < 2 * r ∨ (2 * r = u ∧ q % 2 = 1) then q + 1 else q

/-- The nearest natural number that the significant bits can write, and the one with an even last
bit when two are as near. -/
def nearestNat (n : Nat) : Nat :=
  unitsOf n (unit n) * unit n

def nearest (n : Int) : Int :=
  n.sign * nearestNat n.natAbs

theorem nearestNat_of_lt {n : Nat} (h : n < Nat.pow 2 significant) : nearestNat n = n := by
  have hu : unit n = 1 := by
    by_cases hn : n = 0
    · subst hn
      rfl
    · have hl : n.log2 < significant := (Nat.log2_lt hn).mpr h
      have he : n.log2 + 1 - significant = 0 := by omega
      rw [unit, he, Nat.pow_eq, Nat.pow_zero]
  simp [nearestNat, hu, unitsOf, Nat.mod_one]

theorem nearest_of_natAbs_lt {n : Int} (h : n.natAbs < Nat.pow 2 significant) : nearest n = n := by
  rw [nearest, nearestNat_of_lt h, Int.sign_mul_natAbs]

end ScanPlan.Precision
