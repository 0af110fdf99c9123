import Mathlib.Data.Nat.Bitwise
import Mathlib.Data.Nat.Dist
import ScanPlan.Proofs.GroupBoundaries

namespace ScanPlan.Proofs.GroupRounding

open ScanPlan.Key
open ScanPlan.Proofs.GroupBoundaries
open ScanPlan.Proofs.KeyValue

/-- How many keys of the length of `k` have one group. -/
def groupSize (g : Nat) (k : Key) : Nat :=
  256 ^ (k.length - g)

theorem groupSize_congr {k l : Key} (h : k.length = l.length) (g : Nat) :
    groupSize g k = groupSize g l := by
  rw [groupSize, h, groupSize]

theorem value_eq_group_add_rest (g : Nat) (k : Key) :
    value k = value (k.take g) * groupSize g k + value (k.drop g) := by
  have h := value_append (k.take g) (k.drop g)
  rwa [List.take_append_drop, List.length_drop] at h

theorem value_rest_lt (g : Nat) (k : Key) : value (k.drop g) < groupSize g k := by
  have h := value_lt_pow (k.drop g)
  rwa [List.length_drop] at h

theorem half_le_value_iff (b : UInt8) (rest : Key) :
    256 ^ (rest.length + 1) ≤ 2 * value (b :: rest) ↔ 0x80 ≤ b := by
  have hrest := value_lt_pow rest
  have hbyte : 0x80 ≤ b ↔ 128 ≤ b.toNat := UInt8.le_iff_toNat_le
  rw [hbyte, value, Nat.pow_succ]
  constructor
  · intro h
    apply Nat.le_of_not_lt
    intro hlow
    have hmul : (b.toNat + 1) * 256 ^ rest.length ≤ 128 * 256 ^ rest.length :=
      Nat.mul_le_mul_right _ hlow
    rw [Nat.add_mul] at hmul
    omega
  · intro h
    have hmul : 128 * 256 ^ rest.length ≤ b.toNat * 256 ^ rest.length :=
      Nat.mul_le_mul_right _ h
    omega

theorem half_le_rest_iff {g : Nat} {k : Key} (h : g < k.length) :
    groupSize g k ≤ 2 * value (k.drop g) ↔ 0x80 ≤ k[g] := by
  have hlength : k.length - g = (k.drop (g + 1)).length + 1 := by
    rw [List.length_drop]
    omega
  rw [groupSize, hlength, List.drop_eq_getElem_cons h]
  exact half_le_value_iff _ _

theorem high_bit_iff (b : UInt8) : b &&& 0x80 ≠ 0 ↔ 0x80 ≤ b := by
  have hlt := b.toNat_lt
  have hmask : (b &&& 0x80).toNat = b.toNat &&& 2 ^ 7 := UInt8.toNat_and b 0x80
  have hbit : b.toNat.testBit 7 = decide (128 ≤ b.toNat) := by
    rw [Nat.testBit_eq_decide_div_mod_eq]
    apply decide_eq_decide.mpr
    omega
  rw [Ne, ← UInt8.toNat_inj, hmask, Nat.and_two_pow, hbit, UInt8.le_iff_toNat_le]
  by_cases h : 128 ≤ b.toNat
  · simp [h]
  · simp [h]

/-- The multiple of a unit that is nearest to a number, the greater one of two that are as
near. -/
def roundHalfUp (unit v : Nat) : Nat :=
  (v + unit / 2) / unit * unit

theorem roundHalfUp_mono (unit : Nat) {v w : Nat} (h : v ≤ w) :
    roundHalfUp unit v ≤ roundHalfUp unit w :=
  Nat.mul_le_mul_right unit (Nat.div_le_div_right (Nat.add_le_add_right h _))

theorem roundHalfUp_eq {unit v q : Nat} (hlow : q * unit ≤ v + unit / 2)
    (hhigh : v + unit / 2 < (q + 1) * unit) : roundHalfUp unit v = q * unit := by
  rw [roundHalfUp, Nat.div_eq_of_lt_le hlow hhigh]

theorem roundHalfUp_of_lt_half {unit q r : Nat} (h : 2 * r < unit) :
    roundHalfUp unit (q * unit + r) = q * unit := by
  apply roundHalfUp_eq
  · omega
  · rw [Nat.add_mul]
    omega

theorem roundHalfUp_of_half_le {unit q r : Nat} (hr : r < unit) (h : unit ≤ 2 * r) :
    roundHalfUp unit (q * unit + r) = (q + 1) * unit := by
  apply roundHalfUp_eq
  · rw [Nat.add_mul]
    omega
  · rw [Nat.add_mul, Nat.add_mul]
    omega

theorem roundHalfUp_nearest {unit : Nat} (hunit : 0 < unit) (v q : Nat) :
    Nat.dist v (roundHalfUp unit v) ≤ Nat.dist v (q * unit) ∧
      (Nat.dist v (q * unit) = Nat.dist v (roundHalfUp unit v) →
        q * unit ≤ roundHalfUp unit v) := by
  have hlow : roundHalfUp unit v ≤ v + unit / 2 := Nat.div_mul_le_self _ _
  have hhigh : v + unit / 2 < roundHalfUp unit v + unit := by
    have h := Nat.lt_mul_of_div_lt (Nat.lt_succ_self ((v + unit / 2) / unit)) hunit
    rwa [Nat.succ_mul] at h
  have hstep : ∀ a b, a < b → a * unit + unit ≤ b * unit := by
    intro a b hab
    rw [← Nat.succ_mul]
    exact Nat.mul_le_mul_right unit hab
  rcases Nat.lt_trichotomy q ((v + unit / 2) / unit) with hlt | heq | hgt
  · have hbelow : q * unit + unit ≤ roundHalfUp unit v := hstep _ _ hlt
    unfold Nat.dist
    omega
  · rw [heq]
    exact ⟨Nat.le_refl _, fun _ => Nat.le_refl _⟩
  · have habove : roundHalfUp unit v + unit ≤ q * unit := hstep _ _ hgt
    unfold Nat.dist
    omega

section Moved

variable {g : Nat} {k e : Key}

theorem roundHalfUp_of_high (h : g < k.length) (hbyte : 0x80 ≤ k[g]) :
    roundHalfUp (groupSize g k) (value k) = (value (k.take g) + 1) * groupSize g k := by
  rw [value_eq_group_add_rest g k]
  exact roundHalfUp_of_half_le (value_rest_lt g k) ((half_le_rest_iff h).mpr hbyte)

theorem roundHalfUp_of_low (h : g < k.length) (hbyte : k[g] < 0x80) :
    roundHalfUp (groupSize g k) (value k) = value (k.take g) * groupSize g k := by
  rw [value_eq_group_add_rest g k]
  apply roundHalfUp_of_lt_half
  apply Nat.lt_of_not_le
  intro hhalf
  exact UInt8.not_lt.mpr ((half_le_rest_iff h).mp hhalf) hbyte

theorem value_nearestGroup (h : g < k.length) (he : nearestGroup g k = some e) :
    value e = roundHalfUp (groupSize g k) (value k) := by
  rw [nearestGroup_of_lt h] at he
  split at he
  · rename_i hbyte
    rw [← Option.some.inj he, value_append_zeros, roundHalfUp_of_low h hbyte]
    rfl
  · rename_i hbyte
    obtain ⟨p, hp, rfl⟩ := Option.map_eq_some_iff.mp he
    rw [value_append_zeros, roundHalfUp_of_high h (UInt8.not_lt.mp hbyte),
      ((successor?_eq_some_iff _ p).mp hp).2]
    rfl

theorem roundHalfUp_of_nearestGroup_eq_none (h : g < k.length)
    (hnone : nearestGroup g k = none) :
    roundHalfUp (groupSize g k) (value k) = 256 ^ k.length := by
  rw [nearestGroup_of_lt h] at hnone
  split at hnone
  · contradiction
  · rename_i hbyte
    have hfull := value_of_successor?_eq_none (Option.map_eq_none_iff.mp hnone)
    rw [roundHalfUp_of_high h (UInt8.not_lt.mp hbyte), hfull, groupSize, ← Nat.pow_add,
      List.length_take_of_le (Nat.le_of_lt h), Nat.add_sub_cancel' (Nat.le_of_lt h)]

theorem value_of_onBoundary (h : OnBoundary g e) :
    value e = value (e.take g) * groupSize g e := by
  have hvalue := congrArg value h
  rwa [value_append_zeros] at hvalue

end Moved

/-- What a key that is longer than its group is moved to, in numbers. -/
structure RoundsHalfUp (g : Nat) (k : Key) (h : g < k.length) : Prop where
  eq_some_iff : ∀ e, nearestGroup g k = some e ↔
    e.length = k.length ∧ value e = roundHalfUp (groupSize g k) (value k)
  eq_none_iff : nearestGroup g k = none ↔
    roundHalfUp (groupSize g k) (value k) = 256 ^ k.length
  bit_iff : k[g] &&& 0x80 ≠ 0 ↔ groupSize g k ≤ 2 * value (k.drop g)
  nearest : ∀ e l, nearestGroup g k = some e → OnBoundary g l → l.length = k.length →
    Nat.dist (value k) (value e) ≤ Nat.dist (value k) (value l) ∧
      (Nat.dist (value k) (value l) = Nat.dist (value k) (value e) → l ≤ e)

theorem roundsHalfUp {g : Nat} {k : Key} (h : g < k.length) : RoundsHalfUp g k h := by
  constructor
  case eq_some_iff =>
      intro e
      constructor
      · intro he
        exact ⟨length_nearestGroup he, value_nearestGroup h he⟩
      · rintro ⟨hlength, hvalue⟩
        cases hmoved : nearestGroup g k with
        | none =>
            have hlt := value_lt_pow e
            rw [hvalue, hlength, roundHalfUp_of_nearestGroup_eq_none h hmoved] at hlt
            exact absurd hlt (Nat.lt_irrefl _)
        | some e' =>
            have hlength' := length_nearestGroup hmoved
            have hvalue' := value_nearestGroup h hmoved
            rw [eq_of_value_eq (hlength'.trans hlength.symm) (hvalue'.trans hvalue.symm)]
  case eq_none_iff =>
      constructor
      · exact roundHalfUp_of_nearestGroup_eq_none h
      · intro hfull
        cases hmoved : nearestGroup g k with
        | none => rfl
        | some e =>
            have hlt := value_lt_pow e
            rw [value_nearestGroup h hmoved, hfull, length_nearestGroup hmoved] at hlt
            exact absurd hlt (Nat.lt_irrefl _)
  case bit_iff => rw [half_le_rest_iff h, high_bit_iff]
  case nearest =>
      intro e l he hl hlength
      have hle : l ≤ e ↔ value l ≤ value e :=
        le_iff_value_le (hlength.trans (length_nearestGroup he).symm)
      have hvalue : value l = value (l.take g) * groupSize g k := by
        rw [value_of_onBoundary hl, groupSize_congr hlength]
      rw [hle, hvalue, value_nearestGroup h he]
      exact roundHalfUp_nearest (Nat.pow_pos (by decide)) _ _

/-- A key that holds no more than its group stays as it is. The number of a longer key is
rounded half up to a multiple of the number of keys in a group, and there is no group boundary
to move to exactly when the keys of its length end before this multiple. A moved key stays. -/
theorem nearestGroup_rounds_half_up (g : Nat) (k : Key) :
    (k.length ≤ g → nearestGroup g k = some k) ∧
      (∀ h : g < k.length, RoundsHalfUp g k h) ∧
      ∀ e, nearestGroup g k = some e → nearestGroup g e = some e :=
  ⟨nearestGroup_of_length_le, roundsHalfUp,
    fun _ he => nearestGroup_of_onBoundary (onBoundary_nearestGroup he)⟩

theorem nearestGroup_rounds_half_up_at_00FF8000 :
    nearestGroup 2 [0x00, 0xFF, 0x80, 0x00] = some [0x01, 0x00, 0x00, 0x00] ∧
      nearestGroup 1 [0xFF, 0x80] = none ∧ nearestGroup 2 [0xFF, 0x80] = some [0xFF, 0x80] ∧
      nearestGroup 1 [0x05, 0x00] = some [0x05, 0x00] := by
  obtain ⟨-, hrounds, -⟩ := nearestGroup_rounds_half_up 2 [0x00, 0xFF, 0x80, 0x00]
  obtain ⟨-, hfull, -⟩ := nearestGroup_rounds_half_up 1 [0xFF, 0x80]
  obtain ⟨hshort, -⟩ := nearestGroup_rounds_half_up 2 [0xFF, 0x80]
  obtain ⟨-, -, hagain⟩ := nearestGroup_rounds_half_up 1 [0x04, 0x90]
  refine ⟨?_, ?_, hshort (by decide), hagain _ (by decide)⟩
  · exact ((hrounds (by decide)).eq_some_iff _).mpr (by decide)
  · exact (hfull (by decide)).eq_none_iff.mpr (by decide)

end ScanPlan.Proofs.GroupRounding
