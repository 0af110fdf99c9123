import ScanPlan.Proofs.KeyOrder
import ScanPlan.Proofs.ScanExtent

namespace ScanPlan.Proofs.ExtentKeys

open ScanPlan.Interval ScanPlan.Key
open ScanPlan.Proofs.KeyOrder
open ScanPlan.Proofs.KeyValue
open ScanPlan.Proofs.ScanExtent

def filled (n : Nat) (k : Key) : Key :=
  k ++ List.replicate (n - k.length) 0

theorem length_filled {n : Nat} {k : Key} (h : k.length ≤ n) : (filled n k).length = n := by
  rw [filled, List.length_append, List.length_replicate]
  omega

/-- Whether a key starts with bytes that do not lie after a last key, or is the start of
the key after it, from which only zero bytes are missing. -/
def Within (last k : Key) : Prop :=
  k.take last.length ≤ last ∨
    k.length < last.length ∧ value (filled last.length k) = value last + 1

instance (last k : Key) : Decidable (Within last k) :=
  inferInstanceAs (Decidable (_ ∨ _))

theorem lt_iff_value_filled_le {k e : Key} (h : k.length < e.length) :
    k < e ↔ value (filled e.length k) ≤ value e := by
  rw [lt_iff_append_zeros_le h]
  exact le_iff_value_le (length_filled (Nat.le_of_lt h))

theorem within_of_length_le {last k : Key} (h : last.length ≤ k.length) :
    Within last k ↔ value (k.take last.length) ≤ value last := by
  have hlength : (k.take last.length).length = last.length := List.length_take_of_le h
  rw [Within, ← le_iff_value_le hlength]
  exact or_iff_left fun hshort => Nat.not_lt.mpr h hshort.1

theorem within_of_length_lt {last k : Key} (h : k.length < last.length) :
    Within last k ↔ value (filled last.length k) ≤ value last + 1 := by
  have hle : k ≤ last ↔ value (filled last.length k) ≤ value last := by
    rw [← lt_iff_value_filled_le h]
    constructor
    · intro hle
      rcases List.le_iff_lt_or_eq.mp hle with hlt | rfl
      · exact hlt
      · exact absurd h (Nat.lt_irrefl _)
    · exact List.le_of_lt
  rw [Within, List.take_of_length_le (Nat.le_of_lt h), hle]
  omega

theorem before_successor?_iff_within (last k : Key) :
    Before k (successor? last) ↔ Within last k := by
  cases hnext : successor? last with
  | none =>
      refine iff_of_true trivial ?_
      have hfull := value_of_successor?_eq_none hnext
      rcases Nat.lt_or_ge k.length last.length with hshort | hlong
      · have hlt := value_lt_pow (filled last.length k)
        rw [length_filled (Nat.le_of_lt hshort)] at hlt
        rw [within_of_length_lt hshort]
        omega
      · have hlt := value_lt_pow (k.take last.length)
        rw [List.length_take_of_le hlong] at hlt
        rw [within_of_length_le hlong]
        omega
  | some e =>
      obtain ⟨hlength, hvalue⟩ := (successor?_eq_some_iff last e).mp hnext
      rcases Nat.lt_or_ge k.length last.length with hshort | hlong
      · rw [within_of_length_lt hshort, ← hlength, ← hvalue]
        exact lt_iff_value_filled_le (hlength ▸ hshort)
      · have htake : (k.take e.length).length = e.length :=
          List.length_take_of_le (hlength ▸ hlong)
        rw [within_of_length_le hlong, ← hlength, ← Nat.lt_succ_iff, Nat.succ_eq_add_one,
          ← hvalue, ← lt_iff_value_lt htake]
        exact lt_iff_take_lt (hlength ▸ hlong)

theorem within_append (last t : Key) : Within last (last ++ t) := by
  left
  rw [List.take_left]
  exact List.le_refl last

theorem within_of_le {last k : Key} (h : k ≤ last) : Within last k := by
  left
  have htake := take_le_take last.length h
  rwa [List.take_length] at htake

theorem within_iff_of_length_eq {last k : Key} (h : k.length = last.length) :
    Within last k ↔ k ≤ last := by
  rw [within_of_length_le (Nat.le_of_eq h.symm), ← h, List.take_length, le_iff_value_le h]

/-- The keys of a range from a least first key on, and its end after a greatest last key. -/
structure Spans (low high : Key) (range : Interval) : Prop where
  mem_iff : ∀ k, k ∈ range ↔ low ≤ k ∧ Within high k
  mem_append : ∀ t, low ≤ high ++ t → high ++ t ∈ range
  mem_iff_of_length_eq : ∀ k, k.length = high.length → (k ∈ range ↔ low ≤ k ∧ k ≤ high)
  stop_eq_none_iff : range.stop = none ↔ ∀ b ∈ high, b = 0xFF
  stop_eq_some : ∀ e, range.stop = some e → e.length = high.length ∧ range.start < e

theorem spans_successor? {low high : Key} (h : low ≤ high) :
    Spans low high ⟨low, successor? high⟩ := by
  have hmem : ∀ k, k ∈ Interval.mk low (successor? high) ↔ low ≤ k ∧ Within high k := by
    intro k
    rw [Interval.mem_iff, before_successor?_iff_within]
  constructor
  case mem_iff => exact hmem
  case mem_append => exact fun t hlow => (hmem _).mpr ⟨hlow, within_append high t⟩
  case mem_iff_of_length_eq =>
      intro k hk
      rw [hmem, within_iff_of_length_eq hk]
  case stop_eq_none_iff => exact successor?_eq_none_iff high
  case stop_eq_some =>
      rintro e he
      exact ⟨((successor?_eq_some_iff high e).mp he).1,
        List.lt_of_le_of_lt h (lt_of_successor? he)⟩

theorem exists_bounds {scans : List Scan} (hne : scans ≠ []) :
    ∃ low high, IsLeast {k : Key | k ∈ scans.map (·.first)} low ∧
      IsGreatest {k : Key | k ∈ scans.map (·.last)} high := by
  obtain ⟨s, rest, rfl⟩ := List.exists_cons_of_ne_nil hne
  exact ⟨_, _, isLeast_spread s.first s.last rest, isGreatest_spread s.first s.last rest⟩

/-- Scans of one partition set that agree on the length of groups have an extent. It spans
from the least of their first keys to the greatest of their last keys, and so it holds every
key of each of them. -/
theorem exists_spanning_extent {scans : List Scan} {p : String} {g : Nat} (hne : scans ≠ [])
    (hset : ∀ s ∈ scans, s.partitionSet = p) (hgroup : ∀ s ∈ scans, s.groupLength = g) :
    ∃ low high x, IsLeast {k : Key | k ∈ scans.map (·.first)} low ∧
      IsGreatest {k : Key | k ∈ scans.map (·.last)} high ∧
      Extent.ofScans? scans = .ok x ∧ x.partitionSet = p ∧ x.groupLength = g ∧
      Spans low high x.range ∧
      ∀ s ∈ scans, ∀ k, s.first ≤ k → k ≤ s.last → k ∈ x.range := by
  obtain ⟨low, high, hlow, hhigh⟩ := exists_bounds hne
  obtain ⟨x, hx⟩ := exists_ofScans? hne hset hgroup
  obtain ⟨g', hg', hagree⟩ := agree_of_ofScans? hx
  obtain ⟨s, hs⟩ := List.exists_mem_of_ne_nil scans hne
  have hlast : ∀ t ∈ scans, t.last ≤ high := fun t ht => hhigh.2 (List.mem_map_of_mem ht)
  have hfirst : ∀ t ∈ scans, low ≤ t.first := fun t ht => hlow.2 (List.mem_map_of_mem ht)
  have hbounds : low ≤ high :=
    List.le_trans (hfirst s hs) (List.le_trans s.ordered (hlast s hs))
  have hspans : Spans low high x.range := by
    rw [range_of_ofScans? hx hlow hhigh]
    exact spans_successor? hbounds
  refine ⟨low, high, x, hlow, hhigh, hx, ?_, ?_, hspans, ?_⟩
  · rw [← (hagree s hs).1, hset s hs]
  · rw [hg', ← (hagree s hs).2, hgroup s hs]
  · rintro t ht k hk hk'
    exact (hspans.mem_iff k).mpr ⟨List.le_trans (hfirst t ht) hk,
      within_of_le (List.le_trans hk' (hlast t ht))⟩

def carryingScans : List Scan :=
  [⟨[0x01], [0x01, 0xFE, 0xFF], 1, "p", by decide⟩,
    ⟨[0x00, 0x40], [0x01, 0xFF, 0xFF], 1, "p", by decide⟩]

theorem exists_spanning_extent_carrying :
    ∃ x, Extent.ofScans? carryingScans = .ok x ∧ [0x02] ∈ x.range ∧ [0x02, 0x00] ∈ x.range ∧
      [0x01, 0xFF, 0xFF, 0x07] ∈ x.range ∧ [0x02, 0x00, 0x00] ∉ x.range := by
  have hset : ∀ s ∈ carryingScans, s.partitionSet = "p" := by decide
  obtain ⟨low, high, x, hlow, hhigh, hx, -, -, hspans, -⟩ :=
    exists_spanning_extent (g := 1) (by decide) hset (by decide)
  have hlow' : low = [0x00, 0x40] :=
    List.le_antisymm (hlow.2 (show [0x00, 0x40] ∈ carryingScans.map (·.first) by decide))
      ((by decide : ∀ k ∈ carryingScans.map (·.first), [0x00, 0x40] ≤ k) low hlow.1)
  have hhigh' : high = [0x01, 0xFF, 0xFF] :=
    List.le_antisymm
      ((by decide : ∀ k ∈ carryingScans.map (·.last), k ≤ [0x01, 0xFF, 0xFF]) high hhigh.1)
      (hhigh.2 (show [0x01, 0xFF, 0xFF] ∈ carryingScans.map (·.last) by decide))
  subst hlow' hhigh'
  refine ⟨x, hx, ?_, ?_, ?_, ?_⟩
  · exact (hspans.mem_iff _).mpr (by decide)
  · exact (hspans.mem_iff _).mpr (by decide)
  · exact hspans.mem_append [0x07] (by decide)
  · exact fun hmem => absurd ((hspans.mem_iff _).mp hmem) (by decide)

end ScanPlan.Proofs.ExtentKeys
