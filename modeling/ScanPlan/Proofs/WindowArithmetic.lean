import ScanPlan.Key.Window
import ScanPlan.Proofs.KeyOrder
import ScanPlan.Proofs.KeyValue

namespace ScanPlan.Proofs.WindowArithmetic

open ScanPlan.Key
open ScanPlan.Proofs.KeyOrder
open ScanPlan.Proofs.KeyValue

def window (k : Key) (offset length : Int) : Key :=
  (k.drop offset.toNat).take length.toNat

/-- No window of a key has this offset and this length. -/
def Misplaced (k : Key) (offset length : Int) : Prop :=
  offset < 0 ∨ length < 0 ∨ (k.length : Int) < offset + length

instance (k : Key) (offset length : Int) : Decidable (Misplaced k offset length) :=
  inferInstanceAs (Decidable (_ ∨ _ ∨ _))

/-- What a key becomes when the bytes of a window are increased by one, where the carry tells
whether it left the window. -/
structure Increases (k : Key) (offset length : Int) (k' : Key) (carry : Bool) : Prop where
  length_eq : k'.length = k.length
  outside : ∀ i : Nat, (i : Int) < offset ∨ offset + length ≤ i → k'[i]? = k[i]?
  value_eq : value (window k' offset length) =
    (value (window k offset length) + 1) % 256 ^ length.toNat
  carry_iff : carry = true ↔ ∀ b ∈ window k offset length, b = 0xFF
  lt : carry = false → k < k'
  le : carry = true → k' ≤ k

section Around

variable {before w w' after : Key}

theorem take_drop_append (before w after : Key) :
    ((before ++ w ++ after).drop before.length).take w.length = w := by
  rw [List.append_assoc, List.drop_left, List.take_left]

theorem window_append (before w after : Key) :
    window (before ++ w ++ after) before.length w.length = w :=
  take_drop_append before w after

theorem increment_append (before w after : Key) :
    increment (before ++ w ++ after) before.length w.length =
      .ok (before ++ (next w).1 ++ after, (next w).2) := by
  have hinside : ¬ ((before.length : Int) < 0 ∨ (w.length : Int) < 0 ∨
      ((before ++ w ++ after).length : Int) < before.length + w.length) := by
    simp only [List.length_append]
    omega
  have hbefore : (before ++ w ++ after).take before.length = before := by
    rw [List.append_assoc, List.take_left]
  have hafter : (before ++ w ++ after).drop (before.length + w.length) = after := by
    rw [← List.length_append, List.drop_left]
  rw [increment, if_neg hinside]
  simp only [Int.toNat_natCast, take_drop_append, hbefore, hafter]

theorem getElem?_of_outside (hlength : w'.length = w.length) {i : Nat}
    (h : i < before.length ∨ before.length + w.length ≤ i) :
    (before ++ w' ++ after)[i]? = (before ++ w ++ after)[i]? := by
  rcases h with hi | hi
  · rw [List.append_assoc, List.append_assoc, List.getElem?_append_left hi,
      List.getElem?_append_left hi]
  · rw [← List.length_append] at hi
    have hlength' : (before ++ w').length = (before ++ w).length := by
      rw [List.length_append, hlength, List.length_append]
    rw [List.getElem?_append_right hi, List.getElem?_append_right (hlength' ▸ hi), hlength']

theorem lt_iff_value_window_lt (hlength : w.length = w'.length) :
    before ++ w ++ after < before ++ w' ++ after ↔ value w < value w' := by
  rw [List.append_assoc, List.append_assoc, append_lt_append_left_iff,
    append_lt_append_right_iff hlength, lt_iff_value_lt hlength]

theorem increases_next (before w after : Key) :
    Increases (before ++ w ++ after) before.length w.length
      (before ++ (next w).1 ++ after) (next w).2 := by
  have hlength := next_length w
  have hwindow : window (before ++ (next w).1 ++ after) before.length w.length = (next w).1 := by
    rw [← hlength]
    exact window_append _ _ _
  have hvalue := value_next w
  constructor
  case length_eq => simp only [List.length_append, hlength]
  case outside => exact fun i h => getElem?_of_outside hlength (by omega)
  case value_eq => rw [hwindow, window_append, Int.toNat_natCast, value_next_eq_mod]
  case carry_iff => rw [window_append, next_carry_iff]
  case lt =>
      intro hcarry
      rw [hcarry, if_neg Bool.false_ne_true] at hvalue
      rw [lt_iff_value_window_lt hlength.symm, hvalue]
      exact Nat.lt_succ_self _
  case le =>
      intro hcarry
      rw [if_pos hcarry] at hvalue
      rw [← List.not_lt, lt_iff_value_window_lt hlength.symm, hvalue.1]
      exact Nat.not_lt_zero _

end Around

variable {k : Key} {offset length : Int}

theorem increment_of_misplaced (h : Misplaced k offset length) :
    increment k offset length = .error (.windowOutside offset length k.length) :=
  if_pos h

theorem exists_append_of_not_misplaced (h : ¬ Misplaced k offset length) :
    ∃ before w after : Key, k = before ++ w ++ after ∧ offset = before.length ∧
      length = w.length := by
  simp only [Misplaced, not_or, Int.not_lt] at h
  obtain ⟨hoffset, hlength, hend⟩ := h
  refine ⟨k.take offset.toNat, window k offset length,
    k.drop (offset.toNat + length.toNat), ?_, ?_, ?_⟩
  · rw [window, List.append_assoc, ← List.drop_drop, List.take_append_drop,
      List.take_append_drop]
  · rw [List.length_take]
    omega
  · rw [window, List.length_take, List.length_drop]
    omega

theorem exists_increases (h : ¬ Misplaced k offset length) :
    ∃ k' carry, increment k offset length = .ok (k', carry) ∧
      Increases k offset length k' carry := by
  obtain ⟨before, w, after, rfl, rfl, rfl⟩ := exists_append_of_not_misplaced h
  exact ⟨_, _, increment_append before w after, increases_next before w after⟩

/-- A window of a key cannot be increased exactly when it does not lie in the key. When it does,
its bytes are increased as a number of their length, and nothing else changes. -/
theorem increment_adds_one (k : Key) (offset length : Int) :
    ((∃ f, increment k offset length = .error f) ↔ Misplaced k offset length) ∧
      (∀ f, increment k offset length = .error f → f.kind = .value) ∧
      (¬ Misplaced k offset length → ∃ k' carry, increment k offset length = .ok (k', carry) ∧
        Increases k offset length k' carry) := by
  by_cases h : Misplaced k offset length
  · rw [increment_of_misplaced h]
    refine ⟨iff_of_true ⟨_, rfl⟩ h, ?_, absurd h⟩
    rintro _ ⟨⟩
    rfl
  · obtain ⟨k', carry, hok, hincreases⟩ := exists_increases h
    rw [hok]
    exact ⟨iff_of_false nofun h, nofun, fun _ => ⟨k', carry, rfl, hincreases⟩⟩

theorem increment_adds_one_with_carry :
    (∃ k', increment [0x05, 0x12, 0xFF, 0xFF, 0x07] 1 3 = .ok (k', false) ∧
      value (window k' 1 3) = 0x130000 ∧ k'[4]? = some 0x07 ∧
        ([0x05, 0x12, 0xFF, 0xFF, 0x07] : Key) < k') ∧
      ∃ k', increment [0x05, 0xFF, 0xFF] 1 2 = .ok (k', true) ∧ value (window k' 1 2) = 0 ∧
        k' ≤ ([0x05, 0xFF, 0xFF] : Key) := by
  obtain ⟨-, -, hinner⟩ := increment_adds_one [0x05, 0x12, 0xFF, 0xFF, 0x07] 1 3
  obtain ⟨-, -, hlast⟩ := increment_adds_one [0x05, 0xFF, 0xFF] 1 2
  obtain ⟨k', carry, hok, h⟩ := hinner (by decide)
  obtain ⟨l', carry', hok', h'⟩ := hlast (by decide)
  have hstays : carry = false := by
    rw [Bool.eq_false_iff, Ne, h.carry_iff]
    simp [window]
  have hleaves : carry' = true := h'.carry_iff.mpr (by simp [window])
  refine ⟨⟨k', hstays ▸ hok, ?_, ?_, h.lt hstays⟩, l', hleaves ▸ hok', ?_, h'.le hleaves⟩
  · rw [h.value_eq]
    decide
  · rw [h.outside 4 (by decide)]
    rfl
  · rw [h'.value_eq]
    decide

end ScanPlan.Proofs.WindowArithmetic
