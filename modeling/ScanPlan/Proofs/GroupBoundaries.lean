import ScanPlan.Key.Group
import ScanPlan.Key.Window
import ScanPlan.Proofs.KeyOrder
import ScanPlan.Proofs.KeyValue

/-!
# Group boundaries and the keys of a group

Moving a key to a group boundary keeps its length. A group boundary lies between
two keys of one group only when it is the group itself followed by zero bytes and
the lower key is the group followed by fewer of them.
-/

namespace ScanPlan.Proofs.GroupBoundaries

open ScanPlan.Key
open ScanPlan.Proofs.KeyOrder
open ScanPlan.Proofs.KeyValue

/-- All bytes of a key after its group are zero. -/
def OnBoundary (g : Nat) (e : Key) : Prop :=
  e = e.take g ++ List.replicate (e.length - g) 0

theorem onBoundary_of_length_le {g : Nat} {e : Key} (h : e.length ≤ g) :
    OnBoundary g e := by
  simp [OnBoundary, List.take_of_length_le h, Nat.sub_eq_zero_of_le h]

theorem onBoundary_append_zeros (p : Key) (m : Nat) :
    OnBoundary p.length (p ++ List.replicate m 0) := by
  simp [OnBoundary]

theorem nearestGroup_of_lt {g : Nat} {k : Key} (h : g < k.length) :
    nearestGroup g k =
      if k[g] < 0x80 then some (k.take g ++ List.replicate (k.length - g) 0)
      else (successor? (k.take g)).map (· ++ List.replicate (k.length - g) 0) := by
  have hlength : (k.drop (g + 1)).length + 1 = k.length - g := by
    rw [List.length_drop]
    omega
  simp only [nearestGroup, List.drop_eq_getElem_cons h, hlength]

theorem nearestGroup_cases {g : Nat} {k e : Key} (h : nearestGroup g k = some e) :
    (k.length ≤ g ∧ e = k) ∨
      ∃ p : Key, p.length = g ∧ g < k.length ∧ e = p ++ List.replicate (k.length - g) 0 := by
  rcases Nat.lt_or_ge g k.length with hlong | hshort
  · have htake : (k.take g).length = g := List.length_take_of_le (Nat.le_of_lt hlong)
    right
    rw [nearestGroup_of_lt hlong] at h
    split at h
    · exact ⟨k.take g, htake, hlong, (Option.some.inj h).symm⟩
    · obtain ⟨p, hp, rfl⟩ := Option.map_eq_some_iff.mp h
      have hlen := ((successor?_eq_some_iff (k.take g) p).mp hp).1
      exact ⟨p, hlen.trans htake, hlong, rfl⟩
  · rw [nearestGroup_of_length_le hshort] at h
    exact .inl ⟨hshort, (Option.some.inj h).symm⟩

theorem length_nearestGroup {g : Nat} {k e : Key} (h : nearestGroup g k = some e) :
    e.length = k.length := by
  rcases nearestGroup_cases h with ⟨-, rfl⟩ | ⟨p, hp, hlt, rfl⟩
  · rfl
  · rw [List.length_append, List.length_replicate, hp]
    omega

theorem onBoundary_nearestGroup {g : Nat} {k e : Key} (h : nearestGroup g k = some e) :
    OnBoundary g e := by
  rcases nearestGroup_cases h with ⟨hle, rfl⟩ | ⟨p, rfl, -, rfl⟩
  · exact onBoundary_of_length_le hle
  · exact onBoundary_append_zeros p _

theorem nearestGroup_of_onBoundary {g : Nat} {e : Key} (h : OnBoundary g e) :
    nearestGroup g e = some e := by
  rcases Nat.lt_or_ge g e.length with hlong | hshort
  · have hrest : e.drop g = List.replicate (e.length - g) 0 := by
      have hparts := (List.take_append_drop g e).trans h
      exact List.append_cancel_left hparts
    have hbyte : e[g] = 0 := by
      have hmem : e[g] ∈ e.drop g := by
        rw [List.drop_eq_getElem_cons hlong]
        exact List.mem_cons_self
      rw [hrest] at hmem
      exact List.eq_of_mem_replicate hmem
    rw [nearestGroup_of_lt hlong, hbyte, if_pos (by decide)]
    exact congrArg some h.symm
  · exact nearestGroup_of_length_le hshort

/-- What stands between two keys of one group is the group with zero bytes after it, and
the lower key is the group with fewer of them. -/
theorem between_keys_of_group {g : Nat} {k k' e : Key} (hgroup : k.take g = k'.take g)
    (he : OnBoundary g e) (hlt : k < e) (hle : e ≤ k') :
    ∃ m n, n < m ∧ e = k.take g ++ List.replicate m 0 ∧
      k = k.take g ++ List.replicate n 0 := by
  have hlow : k.take g ≤ e.take g := take_le_take g (List.le_of_lt hlt)
  have hhigh : e.take g ≤ k.take g := by
    rw [hgroup]
    exact take_le_take g hle
  have htake : e.take g = k.take g := List.le_antisymm hhigh hlow
  have hzeros : e = k.take g ++ List.replicate (e.length - g) 0 := by
    rw [← htake]
    exact he
  have hdrop : k.drop g < List.replicate (e.length - g) 0 := by
    rw [← append_lt_append_left_iff (k.take g), List.take_append_drop, ← hzeros]
    exact hlt
  obtain ⟨n, hn, hk⟩ := (lt_replicate_zero_iff _ _).mp hdrop
  refine ⟨e.length - g, n, hn, hzeros, ?_⟩
  rw [← hk, List.take_append_drop]

theorem append_zeros_lt (p : Key) {n m : Nat} (h : n < m) :
    p ++ List.replicate n 0 < p ++ List.replicate m 0 := by
  rw [append_lt_append_left_iff, lt_replicate_zero_iff]
  exact ⟨n, h, rfl⟩

theorem exists_predecessor {g : Nat} {e : Key} (he : OnBoundary g e) (hlt : g < e.length) :
    ∃ k : Key, e = k ++ [0] ∧ g ≤ k.length ∧ k.take g = e.take g := by
  have htake : (e.take g).length = g := by
    rw [List.length_take]
    omega
  refine ⟨e.take g ++ List.replicate (e.length - g - 1) 0, ?_, ?_, ?_⟩
  · have hsucc : e.length - g = e.length - g - 1 + 1 := by omega
    rw [List.append_assoc, ← List.replicate_succ', ← hsucc]
    exact he
  · rw [List.length_append]
    omega
  · rw [List.take_left' htake]

theorem increment_of_le {g : Nat} {k : Key} (h : g ≤ k.length) :
    increment k 0 g = .ok ((next (k.take g)).1 ++ k.drop g, (next (k.take g)).2) := by
  have hinside : ¬ ((0 : Int) < 0 ∨ (g : Int) < 0 ∨ (k.length : Int) < 0 + g) := by omega
  rw [increment, if_neg hinside]
  simp

theorem successor?_eq_of_increment (k : Key) :
    ∃ moved carry, increment k 0 k.length = .ok (moved, carry) ∧
      successor? k = if carry then none else some moved := by
  refine ⟨(next k).1, (next k).2, ?_, ?_⟩
  · rw [increment_of_le (Nat.le_refl _), List.take_length, List.drop_length, List.append_nil]
  · unfold successor?
    split
    · rename_i h
      rw [h]
      rfl
    · rename_i h
      rw [h]
      rfl

theorem nearestGroup_eq_of_increment {g : Nat} {k rest : Key} {b : UInt8}
    (h : k.drop g = b :: rest) (hb : 0x80 ≤ b) :
    ∃ moved carry, increment k 0 g = .ok (moved, carry) ∧ nearestGroup g k =
      if carry then none else some (moved.take g ++ List.replicate (k.length - g) 0) := by
  have hrest : k.length - g = rest.length + 1 := by
    rw [← List.length_drop, h, List.length_cons]
  have hlength : (next (k.take g)).1.length = g := by
    rw [next_length, List.length_take]
    omega
  refine ⟨_, _, increment_of_le (by omega), ?_⟩
  rw [List.take_left' hlength, hrest]
  simp only [nearestGroup, h, if_neg (UInt8.not_lt.mpr hb), successor?]
  split
  · rename_i hnext
    rw [hnext]
    rfl
  · rename_i hnext
    rw [hnext]
    rfl

theorem nearestGroup_eq_none_iff {g : Nat} {k : Key} :
    nearestGroup g k = none ↔
      (∀ b ∈ k.take g, b = 0xFF) ∧ ∃ b rest, k.drop g = b :: rest ∧ 0x80 ≤ b := by
  unfold nearestGroup
  split
  · rename_i hdrop
    simp [hdrop]
  · rename_i b rest hdrop
    rw [← successor?_eq_none_iff]
    split
    · rename_i hb
      simp [hdrop, UInt8.not_le.mpr hb]
    · rename_i hb
      simp [hdrop, UInt8.not_lt.mp hb]

theorem eq_of_le_of_full {p q : Key} (hfull : ∀ b ∈ p, b = 0xFF) (hlen : q.length ≤ p.length)
    (hle : p ≤ q) : q = p := by
  induction p generalizing q with
  | nil => exact List.eq_nil_of_length_eq_zero (Nat.le_zero.mp hlen)
  | cons b p ih =>
      obtain ⟨rfl, hfull'⟩ := List.forall_mem_cons.mp hfull
      cases q with
      | nil => simp at hle
      | cons c q =>
          rcases List.cons_le_cons_iff.mp hle with hlt | ⟨rfl, hle'⟩
          · have hc := c.toNat_lt
            have hlt' : 0xFF < c.toNat := UInt8.lt_iff_toNat_lt.mp hlt
            omega
          · rw [ih hfull' (Nat.le_of_succ_le_succ hlen) hle']

theorem drop_le_drop {g : Nat} {k l : Key} (htake : l.take g = k.take g) (h : k ≤ l) :
    k.drop g ≤ l.drop g := by
  apply List.not_lt.mp
  intro hlt
  have hkey := (append_lt_append_left_iff (k.take g) _ _).mpr hlt
  rw [List.take_append_drop, ← htake, List.take_append_drop] at hkey
  exact List.not_lt.mpr h hkey

theorem nearestGroup_eq_none_of_le {g : Nat} {k l : Key} (hle : k ≤ l)
    (h : nearestGroup g k = none) : nearestGroup g l = none := by
  obtain ⟨hfull, b, rest, hdrop, hb⟩ := nearestGroup_eq_none_iff.mp h
  have hlong : g < k.length := by
    apply Nat.lt_of_not_le
    intro hshort
    rw [List.drop_eq_nil_of_le hshort] at hdrop
    contradiction
  have htake : l.take g = k.take g := by
    apply eq_of_le_of_full hfull _ (take_le_take g hle)
    rw [List.length_take, List.length_take]
    omega
  have hrest := drop_le_drop htake hle
  rw [hdrop] at hrest
  refine nearestGroup_eq_none_iff.mpr ⟨htake ▸ hfull, ?_⟩
  cases hl : l.drop g with
  | nil =>
      rw [hl] at hrest
      simp at hrest
  | cons c rest' =>
      refine ⟨c, rest', rfl, ?_⟩
      rw [hl] at hrest
      rcases List.cons_le_cons_iff.mp hrest with hlt | ⟨rfl, -⟩
      · exact UInt8.le_trans hb (UInt8.le_of_lt hlt)
      · exact hb

end ScanPlan.Proofs.GroupBoundaries
