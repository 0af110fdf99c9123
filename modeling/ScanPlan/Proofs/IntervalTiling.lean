import Mathlib.Data.List.Chain
import ScanPlan.Interval
import ScanPlan.Proofs.KeyOrder

/-!
# Tilings by intervals

A tiling goes from a start to a stop by intervals that are not empty, each starting
where the one before it stops. Main statement: each key from the start to the stop
lies in exactly one interval of a tiling, and any other key lies in none.
-/

namespace ScanPlan.Proofs.IntervalTiling

open ScanPlan.Interval
open ScanPlan.Proofs.KeyOrder

theorem before_of_le {k k' : Key} {stop : Option Key} (h : k ≤ k') (hb : Before k' stop) :
    Before k stop := by
  cases stop with
  | none => trivial
  | some e => exact List.lt_of_le_of_lt h hb

theorem before_of_lt {k e : Key} {stop : Option Key} (h : k < e) (hb : Before e stop) :
    Before k stop :=
  before_of_le (List.le_of_lt h) hb

/-- Intervals that follow each other from a start to a stop, where `Cut` holds for every
key at which one of them ends and the next one starts. -/
inductive Tiling (Cut : Key → Prop) (stop : Option Key) : Key → List Interval → Prop where
  | last {start : Key} : Before start stop → Tiling Cut stop start [⟨start, stop⟩]
  | cut {start e : Key} {rest : List Interval} :
      start < e → Cut e → Tiling Cut stop e rest →
        Tiling Cut stop start (⟨start, some e⟩ :: rest)

namespace Tiling

variable {Cut : Key → Prop} {stop : Option Key} {start : Key} {rs : List Interval}

theorem mono {Cut' : Key → Prop} (h : Tiling Cut stop start rs)
    (himp : ∀ e, Cut e → Cut' e) : Tiling Cut' stop start rs := by
  induction h with
  | last hb => exact .last hb
  | cut hlt hcut _ ih => exact .cut hlt (himp _ hcut) ih

theorem before (h : Tiling Cut stop start rs) : Before start stop := by
  induction h with
  | last hb => exact hb
  | cut hlt _ _ ih => exact before_of_lt hlt ih

theorem start_le (h : Tiling Cut stop start rs) : ∀ r ∈ rs, start ≤ r.start := by
  induction h with
  | last _ =>
      intro r hr
      rw [List.mem_singleton.mp hr]
      exact List.le_refl _
  | cut hlt _ _ ih =>
      intro r hr
      rcases List.mem_cons.mp hr with rfl | hr
      · exact List.le_refl _
      · exact List.le_trans (List.le_of_lt hlt) (ih r hr)

theorem bounds_of_mem (h : Tiling Cut stop start rs) {r : Interval} (hr : r ∈ rs) {k : Key}
    (hk : k ∈ r) : start ≤ k ∧ Before k stop := by
  refine ⟨List.le_trans (h.start_le r hr) hk.1, ?_⟩
  induction h with
  | last _ =>
      rw [List.mem_singleton.mp hr] at hk
      exact hk.2
  | cut _ _ htail ih =>
      rcases List.mem_cons.mp hr with rfl | hr
      · exact before_of_lt hk.2 htail.before
      · exact ih hr

theorem start_mem (h : Tiling Cut stop start rs) : ∀ r ∈ rs, r.start ∈ r := by
  induction h with
  | last hb =>
      intro r hr
      rw [List.mem_singleton.mp hr]
      exact ⟨List.le_refl _, hb⟩
  | cut hlt _ _ ih =>
      intro r hr
      rcases List.mem_cons.mp hr with rfl | hr
      · exact ⟨List.le_refl _, hlt⟩
      · exact ih r hr

theorem head?_start (h : Tiling Cut stop start rs) : rs.head?.map (·.start) = some start := by
  cases h with
  | last _ => rfl
  | cut _ _ _ => rfl

theorem getLast?_stop (h : Tiling Cut stop start rs) : rs.getLast?.map (·.stop) = some stop := by
  induction h with
  | last _ => rfl
  | cut _ _ htail ih =>
      cases htail with
      | last _ => exact ih
      | cut _ _ _ =>
          rw [List.getLast?_cons_cons]
          exact ih

theorem isChain (h : Tiling Cut stop start rs) :
    rs.IsChain fun r r' => r.stop = some r'.start := by
  induction h with
  | last _ => exact List.isChain_singleton _
  | cut _ _ htail ih =>
      cases htail with
      | last _ => exact List.isChain_cons_cons.mpr ⟨rfl, ih⟩
      | cut _ _ _ => exact List.isChain_cons_cons.mpr ⟨rfl, ih⟩

theorem map_stop (h : Tiling Cut stop start rs) :
    rs.map (·.stop) = rs.tail.map (fun r => some r.start) ++ [stop] := by
  induction h with
  | last _ => rfl
  | cut _ _ htail ih =>
      rw [List.map_cons, ih, List.tail_cons]
      cases htail with
      | last _ => rfl
      | cut _ _ _ => rfl

theorem cut_of_mem_tail (h : Tiling Cut stop start rs) :
    ∀ r ∈ rs.tail, Cut r.start ∧ start < r.start := by
  induction h with
  | last _ => simp
  | @cut start e rest hlt hcut htail ih =>
      intro r hr
      cases htail with
      | last _ =>
          rw [List.tail_cons, List.mem_singleton] at hr
          subst hr
          exact ⟨hcut, hlt⟩
      | cut _ _ _ =>
          rcases List.mem_cons.mp hr with rfl | hr
          · exact ⟨hcut, hlt⟩
          · obtain ⟨hcut', hlt'⟩ := ih r hr
            exact ⟨hcut', List.lt_trans hlt hlt'⟩

theorem pairwise (h : Tiling Cut stop start rs) :
    rs.Pairwise fun r r' => ∀ k ∈ r, k < r'.start := by
  induction h with
  | last _ => exact List.pairwise_singleton _ _
  | cut _ _ htail ih =>
      refine List.pairwise_cons.mpr ⟨?_, ih⟩
      intro r hr k hk
      have hke : k < _ := hk.2
      exact lt_of_lt_of_le hke (htail.start_le r hr)

theorem countP_contains (h : Tiling Cut stop start rs) {k : Key} (hk : start ≤ k)
    (hb : Before k stop) : rs.countP (·.contains k) = 1 := by
  induction h with
  | last _ =>
      have hmem : (Interval.mk _ stop).contains k = true := contains_iff.mpr ⟨hk, hb⟩
      rw [List.countP_singleton, if_pos hmem]
  | @cut start e rest _ _ htail ih =>
      rcases lt_or_le k e with hke | hek
      · have hhead : (Interval.mk start (some e)).contains k = true :=
          contains_iff.mpr ⟨hk, hke⟩
        have hrest : rest.countP (·.contains k) = 0 := by
          rw [List.countP_eq_zero]
          intro r hr hc
          have hle := (htail.bounds_of_mem hr (contains_iff.mp hc)).1
          exact absurd hke (List.not_lt.mpr hle)
        simp only [List.countP_cons, hhead, hrest, if_true]
      · have hhead : ¬ (Interval.mk start (some e)).contains k = true := by
          rw [contains_iff]
          exact fun hmem => List.not_lt.mpr hek hmem.2
        simp only [List.countP_cons, hhead]
        exact ih hek

theorem exists_mem (h : Tiling Cut stop start rs) {k : Key} (hk : start ≤ k)
    (hb : Before k stop) : ∃ r ∈ rs, k ∈ r := by
  have hpos : 0 < rs.countP (·.contains k) := by
    rw [h.countP_contains hk hb]
    exact Nat.one_pos
  obtain ⟨r, hr, hc⟩ := List.countP_pos_iff.mp hpos
  exact ⟨r, hr, contains_iff.mp hc⟩

variable {i j : Nat} {r r' : Interval} {k k' : Key}

theorem lt_start_of_lt (h : Tiling Cut stop start rs) (hi : rs[i]? = some r)
    (hj : rs[j]? = some r') (hij : i < j) (hk : k ∈ r) : k < r'.start := by
  obtain ⟨hi', rfl⟩ := List.getElem?_eq_some_iff.mp hi
  obtain ⟨hj', rfl⟩ := List.getElem?_eq_some_iff.mp hj
  exact List.pairwise_iff_getElem.mp h.pairwise i j hi' hj' hij k hk

theorem index_eq (h : Tiling Cut stop start rs) (hi : rs[i]? = some r) (hj : rs[j]? = some r')
    (hk : k ∈ r) (hk' : k ∈ r') : i = j := by
  rcases Nat.lt_trichotomy i j with hij | hij | hji
  · exact absurd (h.lt_start_of_lt hi hj hij hk) (List.not_lt.mpr hk'.1)
  · exact hij
  · exact absurd (h.lt_start_of_lt hj hi hji hk') (List.not_lt.mpr hk.1)

theorem existsUnique_index (h : Tiling Cut stop start rs) (hk : start ≤ k)
    (hb : Before k stop) : ∃! i : Nat, ∃ r, rs[i]? = some r ∧ k ∈ r := by
  obtain ⟨r, hr, hkr⟩ := h.exists_mem hk hb
  obtain ⟨i, hi⟩ := List.mem_iff_getElem?.mp hr
  refine ⟨i, ⟨r, hi, hkr⟩, ?_⟩
  rintro j ⟨r', hj, hkr'⟩
  exact h.index_eq hj hi hkr' hkr

theorem index_ne_iff (h : Tiling Cut stop start rs) (hi : rs[i]? = some r)
    (hj : rs[j]? = some r') (hk : k ∈ r) (hk' : k' ∈ r') (hlt : k < k') :
    i ≠ j ↔ ∃ u ∈ rs.tail, k < u.start ∧ u.start ≤ k' := by
  constructor
  · intro hne
    rcases Nat.lt_or_gt_of_ne hne with hij | hji
    · refine ⟨r', ?_, h.lt_start_of_lt hi hj hij hk, hk'.1⟩
      rw [List.mem_iff_getElem?]
      refine ⟨j - 1, ?_⟩
      rw [List.getElem?_tail, Nat.sub_add_cancel (by omega)]
      exact hj
    · have hrev := h.lt_start_of_lt hj hi hji hk'
      exact absurd (List.lt_trans hlt hrev) (List.not_lt.mpr hk.1)
  · rintro ⟨u, hu, hku, huk⟩ rfl
    obtain ⟨n, hn⟩ := List.mem_iff_getElem?.mp hu
    rw [List.getElem?_tail] at hn
    have hself := h.start_mem u (List.mem_of_mem_tail hu)
    rcases Nat.lt_trichotomy (n + 1) i with hni | hni | hni
    · have hur := h.lt_start_of_lt hn hi hni hself
      exact absurd (List.lt_trans hku hur) (List.not_lt.mpr hk.1)
    · subst hni
      rw [hn] at hi
      cases hi
      exact absurd hku (List.not_lt.mpr hk.1)
    · have := h.lt_start_of_lt hj hn hni hk'
      exact absurd this (List.not_lt.mpr huk)

end Tiling

end ScanPlan.Proofs.IntervalTiling
