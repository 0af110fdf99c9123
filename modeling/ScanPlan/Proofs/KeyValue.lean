import Mathlib.Algebra.Group.Nat.Defs
import ScanPlan.Interval
import ScanPlan.Key.Successor

namespace ScanPlan.Proofs.KeyValue

open ScanPlan.Key ScanPlan.Interval

/-- The number that a key writes, the first byte counting most. -/
def value : Key → Nat
  | [] => 0
  | b :: k => b.toNat * 256 ^ k.length + value k

theorem value_lt_pow (k : Key) : value k < 256 ^ k.length := by
  induction k with
  | nil => simp [value]
  | cons b k ih =>
      have hdigit : (b.toNat + 1) * 256 ^ k.length ≤ 256 * 256 ^ k.length :=
        Nat.mul_le_mul_right _ b.toNat_lt
      simp only [value, List.length_cons, Nat.add_mul] at hdigit ⊢
      omega

theorem value_append (k l : Key) : value (k ++ l) = value k * 256 ^ l.length + value l := by
  induction k with
  | nil => simp [value]
  | cons b k ih =>
      rw [List.cons_append, value, value, ih, List.length_append, Nat.pow_add, Nat.add_mul,
        Nat.mul_assoc, Nat.add_assoc]

theorem value_zeros (n : Nat) : value (List.replicate n 0) = 0 := by
  induction n with
  | zero => rfl
  | succ n ih =>
      rw [List.replicate_succ, value, ih]
      simp

theorem value_append_zeros (k : Key) (n : Nat) :
    value (k ++ List.replicate n 0) = value k * 256 ^ n := by
  rw [value_append, value_zeros, List.length_replicate, Nat.add_zero]

theorem value_cons_lt_of_lt {b c : UInt8} {k l : Key} (hbc : b < c)
    (hlen : k.length = l.length) : value (b :: k) < value (c :: l) := by
  have hk := value_lt_pow k
  have hdigit : (b.toNat + 1) * 256 ^ l.length ≤ c.toNat * 256 ^ l.length :=
    Nat.mul_le_mul_right _ (UInt8.lt_iff_toNat_lt.mp hbc)
  simp only [value, hlen, Nat.add_mul] at *
  omega

theorem lt_iff_value_lt {k l : Key} (hlen : k.length = l.length) :
    k < l ↔ value k < value l := by
  induction k generalizing l with
  | nil =>
      have hl : l = [] := List.eq_nil_of_length_eq_zero hlen.symm
      subst hl
      simp
  | cons b k ih =>
      cases l with
      | nil => simp at hlen
      | cons c l =>
          have htail : k.length = l.length := by simpa using hlen
          rw [List.cons_lt_cons_iff]
          constructor
          · rintro (hlt | ⟨rfl, hlt⟩)
            · exact value_cons_lt_of_lt hlt htail
            · have hval := (ih htail).mp hlt
              simp only [value, htail]
              omega
          · intro hval
            rcases Nat.lt_trichotomy b.toNat c.toNat with hlt | heq | hgt
            · exact .inl (UInt8.lt_iff_toNat_lt.mpr hlt)
            · obtain rfl := UInt8.toNat_inj.mp heq
              simp only [value, htail] at hval
              exact .inr ⟨rfl, (ih htail).mpr (by omega)⟩
            · have hrev := value_cons_lt_of_lt (UInt8.lt_iff_toNat_lt.mpr hgt) htail.symm
              omega

theorem le_iff_value_le {k l : Key} (hlen : k.length = l.length) :
    k ≤ l ↔ value k ≤ value l := by
  rw [← List.not_lt, lt_iff_value_lt hlen.symm, Nat.not_lt]

theorem eq_of_value_eq {k l : Key} (hlen : k.length = l.length)
    (hval : value k = value l) : k = l := by
  apply List.le_antisymm
  · exact List.not_lt.mp fun h => by
      have := (lt_iff_value_lt hlen.symm).mp h
      omega
  · exact List.not_lt.mp fun h => by
      have := (lt_iff_value_lt hlen).mp h
      omega

theorem append_lt_append_right_iff {k l : Key} (hlen : k.length = l.length) (m : Key) :
    k ++ m < l ++ m ↔ k < l := by
  have hlength : (k ++ m).length = (l ++ m).length := by
    rw [List.length_append, hlen, List.length_append]
  rw [lt_iff_value_lt hlength, lt_iff_value_lt hlen, value_append, value_append,
    Nat.add_lt_add_iff_right, Nat.mul_lt_mul_right (Nat.pow_pos (by decide))]

/-- Increasing a key adds one to its number, and wraps it round to zero when the carry
leaves it. -/
theorem value_next (k : Key) :
    if (next k).2 then value (next k).1 = 0 ∧ value k + 1 = 256 ^ k.length
    else value (next k).1 = value k + 1 := by
  induction k with
  | nil => simp [next, value]
  | cons b k ih =>
      have hlen := next_length k
      rw [next]
      rcases hnext : next k with ⟨tail, carry⟩
      rw [hnext] at ih hlen
      cases carry with
      | false =>
          simp only [Bool.false_eq_true, if_false] at ih ⊢
          simp only [value, hlen, ih]
          omega
      | true =>
          simp only [if_true] at ih
          obtain ⟨htail, hfull⟩ := ih
          by_cases hb : b = 0xFF
          · subst hb
            simp only [if_true, value, htail, List.length_cons]
            refine ⟨by simp, ?_⟩
            have hdigit : (0xFF : UInt8).toNat = 255 := rfl
            rw [hdigit]
            omega
          · have hb' : b.toNat ≠ 255 := fun h => hb (UInt8.toNat_inj.mp h)
            have hlt := b.toNat_lt
            have hsucc : (b + 1).toNat = b.toNat + 1 := by
              rw [UInt8.toNat_add]
              exact Nat.mod_eq_of_lt (by simp; omega)
            simp only [hb, if_false, Bool.false_eq_true, value, hsucc, hlen, htail, Nat.add_mul]
            omega

theorem value_next_eq_mod (k : Key) : value (next k).1 = (value k + 1) % 256 ^ k.length := by
  have hval := value_next k
  have hlt := value_lt_pow (next k).1
  split at hval
  · rw [hval.1, hval.2, Nat.mod_self]
  · rw [next_length, hval] at hlt
    rw [hval, Nat.mod_eq_of_lt hlt]

theorem successor?_eq_some_iff (k e : Key) :
    successor? k = some e ↔ e.length = k.length ∧ value e = value k + 1 := by
  have hval := value_next k
  have hlen := next_length k
  have hlt := value_lt_pow e
  unfold successor?
  rcases hnext : next k with ⟨e', carry⟩
  rw [hnext] at hval hlen
  cases carry with
  | false =>
      simp only [Bool.false_eq_true, if_false, Option.some.injEq] at hval hlen ⊢
      constructor
      · rintro rfl
        exact ⟨hlen, hval⟩
      · rintro ⟨hlen', hval'⟩
        exact eq_of_value_eq (hlen.trans hlen'.symm) (hval.trans hval'.symm)
  | true =>
      simp only [if_true, reduceCtorEq, false_iff] at hval ⊢
      rintro ⟨hlen', hval'⟩
      rw [hlen'] at hlt
      omega

theorem value_of_successor?_eq_none {k : Key} (h : successor? k = none) :
    value k + 1 = 256 ^ k.length := by
  have hval := value_next k
  unfold successor? at h
  rcases hnext : next k with ⟨k', carry⟩
  rw [hnext] at hval h
  cases carry with
  | false => contradiction
  | true => exact hval.2

theorem lt_of_successor? {k e : Key} (h : successor? k = some e) : k < e := by
  obtain ⟨hlen, hval⟩ := (successor?_eq_some_iff k e).mp h
  exact (lt_iff_value_lt hlen.symm).mpr (by omega)

/-- Whether `k` lies before the key of the length of `last` whose number is greater by
one. When no key has that number, every key lies before it. -/
def BeforeNext (last k : Key) : Prop :=
  ∀ e : Key, e.length = last.length → value e = value last + 1 → k < e

theorem before_successor?_iff (last k : Key) :
    Before k (successor? last) ↔ BeforeNext last k := by
  constructor
  · intro h e hlen hval
    rw [(successor?_eq_some_iff last e).mpr ⟨hlen, hval⟩] at h
    exact h
  · intro h
    cases hnext : successor? last with
    | none => trivial
    | some e =>
        obtain ⟨hlen, hval⟩ := (successor?_eq_some_iff last e).mp hnext
        exact h e hlen hval

instance (last k : Key) : Decidable (BeforeNext last k) :=
  decidable_of_iff _ (before_successor?_iff last k)

theorem beforeNext_all_iff (last : Key) :
    (∀ k, BeforeNext last k) ↔ ∀ b ∈ last, b = 0xFF := by
  rw [← successor?_eq_none_iff]
  constructor
  · intro h
    cases hnext : successor? last with
    | none => rfl
    | some e =>
        have hself : Before e (successor? last) := (before_successor?_iff last e).mpr (h e)
        rw [hnext] at hself
        exact absurd hself (List.lt_irrefl e)
  · intro hnext k
    rw [← before_successor?_iff, hnext]
    trivial

theorem beforeNext_of_le {last k : Key} (h : k ≤ last) : BeforeNext last k := by
  rw [← before_successor?_iff]
  cases hnext : successor? last with
  | none => trivial
  | some e => exact List.lt_of_le_of_lt h (lt_of_successor? hnext)

end ScanPlan.Proofs.KeyValue
