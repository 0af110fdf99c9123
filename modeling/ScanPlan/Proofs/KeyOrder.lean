import ScanPlan.Key

namespace ScanPlan.Proofs.KeyOrder

theorem lt_or_le (k l : Key) : k < l ∨ l ≤ k :=
  (Decidable.em (k < l)).imp_right List.not_lt.mp

theorem lt_of_lt_of_le {k l m : Key} (hkl : k < l) (hlm : l ≤ m) : k < m := by
  apply List.not_le.mp
  intro hmk
  exact List.not_lt.mpr (List.le_trans hlm hmk) hkl

theorem append_lt_append_left_iff (p k k' : Key) : p ++ k < p ++ k' ↔ k < k' := by
  induction p with
  | nil => rfl
  | cons b p ih => simpa using ih

theorem take_le_take {k k' : Key} (g : Nat) (h : k ≤ k') : k.take g ≤ k'.take g := by
  induction g generalizing k k' with
  | zero => simp
  | succ g ih =>
      cases k with
      | nil => simp
      | cons b k =>
          cases k' with
          | nil => simp at h
          | cons b' k' =>
              simp only [List.take_succ_cons]
              rw [List.cons_le_cons_iff] at h ⊢
              rcases h with hlt | ⟨rfl, hle⟩
              · exact .inl hlt
              · exact .inr ⟨rfl, ih hle⟩

theorem lt_iff_take_lt {k e : Key} (h : e.length ≤ k.length) : k < e ↔ k.take e.length < e := by
  induction e generalizing k with
  | nil => simp
  | cons c e ih =>
      cases k with
      | nil => simp at h
      | cons b k =>
          rw [List.length_cons, List.take_succ_cons, List.cons_lt_cons_iff,
            List.cons_lt_cons_iff, ih (Nat.le_of_succ_le_succ h)]

theorem replicate_zero_le (e : Key) : List.replicate e.length 0 ≤ e := by
  induction e with
  | nil => exact List.le_refl []
  | cons c e ih =>
      rw [List.length_cons, List.replicate_succ, List.cons_le_cons_iff]
      rcases Nat.eq_zero_or_pos c.toNat with hzero | hpos
      · exact .inr ⟨(UInt8.toNat_inj.mp hzero).symm, ih⟩
      · exact .inl (UInt8.lt_iff_toNat_lt.mpr hpos)

theorem lt_iff_append_zeros_le {k e : Key} (h : k.length < e.length) :
    k < e ↔ k ++ List.replicate (e.length - k.length) 0 ≤ e := by
  induction k generalizing e with
  | nil =>
      cases e with
      | nil => contradiction
      | cons c e => exact iff_of_true (List.nil_lt_cons c e) (replicate_zero_le (c :: e))
  | cons b k ih =>
      cases e with
      | nil => contradiction
      | cons c e =>
          rw [List.length_cons, List.length_cons, Nat.add_sub_add_right, List.cons_append,
            List.cons_lt_cons_iff, List.cons_le_cons_iff, ih (Nat.lt_of_succ_lt_succ h)]

theorem lt_append_zero_iff (k e : Key) : k < e ++ [0] ↔ k ≤ e := by
  induction e generalizing k with
  | nil =>
      cases k with
      | nil => simp
      | cons b k => simp [List.cons_lt_cons_iff]
  | cons c e ih =>
      cases k with
      | nil => simp
      | cons b k =>
          rw [List.cons_append, List.cons_lt_cons_iff, List.cons_le_cons_iff, ih]

theorem lt_append_zero (e : Key) : e < e ++ [0] :=
  (lt_append_zero_iff e e).mpr (List.le_refl e)

theorem lt_replicate_zero_iff (k : Key) (m : Nat) :
    k < List.replicate m 0 ↔ ∃ n < m, k = List.replicate n 0 := by
  induction m with
  | zero => simp
  | succ m ih =>
      rw [List.replicate_succ', lt_append_zero_iff]
      constructor
      · intro hle
        rcases lt_or_le k (List.replicate m 0) with hlt | hge
        · obtain ⟨n, hn, rfl⟩ := ih.mp hlt
          exact ⟨n, by omega, rfl⟩
        · exact ⟨m, by omega, List.le_antisymm hle hge⟩
      · rintro ⟨n, hn, rfl⟩
        rcases Nat.lt_or_eq_of_le (Nat.le_of_lt_succ hn) with hlt | rfl
        · exact List.le_of_lt (ih.mpr ⟨n, hlt, rfl⟩)
        · exact List.le_refl _

end ScanPlan.Proofs.KeyOrder
