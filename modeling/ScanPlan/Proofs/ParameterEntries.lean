import Mathlib.Data.List.Sort
import Mathlib.Order.Bounds.Defs
import ScanPlan.Query.Parameters

namespace ScanPlan.Proofs.ParameterEntries

open ScanPlan.Parameters

section Lookup

variable {κ α : Type} [DecidableEq κ]

theorem lookup_cons_eq_ite (k k' : κ) (a : α) (es : List (κ × α)) :
    ((k', a) :: es).lookup k = if k = k' then some a else es.lookup k := by
  by_cases hk : k = k'
  · rw [if_pos hk, List.lookup_cons, beq_iff_eq.mpr hk]
  · rw [if_neg hk, List.lookup_cons, beq_eq_false_iff_ne.mpr hk]

theorem lookup_eq_some_iff_mem {es : List (κ × α)} (h : (es.map (·.1)).Nodup) (k : κ) (a : α) :
    es.lookup k = some a ↔ (k, a) ∈ es := by
  induction es with
  | nil => simp
  | cons e es ih =>
      obtain ⟨k', a'⟩ := e
      obtain ⟨hfresh, hnodup⟩ := List.nodup_cons.mp h
      rw [lookup_cons_eq_ite, List.mem_cons, Prod.mk.injEq]
      by_cases hk : k = k'
      · subst hk
        have hmem : (k, a) ∉ es := fun hmem => hfresh (List.mem_map.mpr ⟨_, hmem, rfl⟩)
        rw [if_pos rfl, Option.some.injEq, eq_comm]
        simp only [hmem, true_and, or_false]
      · rw [if_neg hk, ih hnodup]
        simp only [hk, false_and, false_or]

end Lookup

theorem nodup_indexes (ps : Parameters) : (ps.entries.map (·.1)).Nodup := by
  apply List.pairwise_map.mpr
  exact ps.ascending.imp Int.ne_of_lt

theorem get?_eq_some_iff (ps : Parameters) (i : Int) (s : String) :
    ps.get? i = some s ↔ (i, s) ∈ ps.entries :=
  lookup_eq_some_iff_mem (nodup_indexes ps) i s

theorem eq_of_get?_eq {ps ps' : Parameters} (h : ∀ i, ps.get? i = ps'.get? i) : ps = ps' := by
  have hentries : ps.entries = ps'.entries := by
    have : Std.Antisymm fun e e' : Int × String => e.1 < e'.1 :=
      ⟨fun _ _ hlt hgt => absurd hlt (Int.lt_asymm hgt)⟩
    have : Std.Irrefl fun e e' : Int × String => e.1 < e'.1 := ⟨fun _ => Int.lt_irrefl _⟩
    apply ps.ascending.eq_of_mem_iff ps'.ascending
    rintro ⟨i, s⟩
    rw [← get?_eq_some_iff, ← get?_eq_some_iff, h]
  cases ps
  cases ps'
  cases hentries
  rfl

theorem lookup_insertEntry (i j : Int) (s : String) (es : List (Int × String)) :
    (insertEntry i s es).lookup j = if j = i then some s else es.lookup j := by
  fun_induction insertEntry i s es with
  | case1 => exact lookup_cons_eq_ite j i s []
  | case2 => exact lookup_cons_eq_ite j i s _
  | case3 t rest _ =>
      simp only [lookup_cons_eq_ite]
      split
      · rfl
      · rfl
  | case4 k t rest _ hne ih =>
      simp only [lookup_cons_eq_ite, ih]
      by_cases hj : j = k
      · subst hj
        rw [if_pos rfl, if_pos rfl, if_neg (Ne.symm hne)]
      · rw [if_neg hj, if_neg hj]

theorem get?_insert (ps : Parameters) (i j : Int) (s : String) :
    (ps.insert i s).get? j = if j = i then some s else ps.get? j :=
  lookup_insertEntry i j s ps.entries

theorem lt_count {ps : Parameters} {e : Int × String} (h : e ∈ ps.entries) :
    e.1 < ps.count := by
  unfold Parameters.count
  split
  · rename_i hnone
    rw [List.getLast?_eq_none_iff.mp hnone] at h
    contradiction
  · rename_i last hlast
    obtain ⟨before, heq⟩ := List.getLast?_eq_some_iff.mp hlast
    have hascending := ps.ascending
    rw [heq] at h hascending
    rcases List.mem_append.mp h with hmem | hmem
    · have hlt := (List.pairwise_append.mp hascending).2.2 e hmem last List.mem_cons_self
      omega
    · rw [List.mem_singleton.mp hmem]
      omega

theorem count_cases (ps : Parameters) :
    ((∀ i, ps.get? i = none) ∧ ps.count = 0) ∨
      IsGreatest {i : Int | (ps.get? i).isSome = true} (ps.count - 1) := by
  have hbound : ∀ i, (ps.get? i).isSome = true → i ≤ ps.count - 1 := by
    intro i hi
    obtain ⟨s, hs⟩ := Option.isSome_iff_exists.mp hi
    have hlt := lt_count ((get?_eq_some_iff ps i s).mp hs)
    omega
  cases hlast : ps.entries.getLast? with
  | none =>
      refine .inl ⟨?_, ?_⟩
      · intro i
        rw [Parameters.get?, List.getLast?_eq_none_iff.mp hlast]
        rfl
      · rw [Parameters.count, hlast]
  | some e =>
      have hcount : ps.count = e.1 + 1 := by rw [Parameters.count, hlast]
      have hget : ps.get? e.1 = some e.2 :=
        (get?_eq_some_iff ps e.1 e.2).mpr (List.mem_of_getLast? hlast)
      refine .inr ⟨?_, fun i hi => hbound i hi⟩
      rw [hcount, Int.add_sub_cancel]
      exact Option.isSome_iff_exists.mpr ⟨e.2, hget⟩

/-- The parameters after values were put at indexes one after the other. A value that is
refused changes nothing. -/
def afterSets (ps : Parameters) : List (Int × Value) → Parameters
  | [] => ps
  | (i, v) :: calls =>
      match ps.set i v with
      | .ok ps' => afterSets ps' calls
      | .error _ => afterSets ps calls

theorem eq_insert_of_set {ps ps' : Parameters} {i : Int} {v : Value} (h : ps.set i v = .ok ps') :
    0 ≤ i ∧ ∃ s, v = .text s ∧ ps' = ps.insert i s := by
  unfold Parameters.set at h
  split at h
  · contradiction
  · rename_i hi
    split at h
    · rename_i s
      cases h
      exact ⟨Int.not_lt.mp hi, s, rfl, rfl⟩
    · contradiction

/-- No index below zero is given anything. -/
def IsNonNegative (ps : Parameters) : Prop :=
  ∀ i < 0, ps.get? i = none

theorem isNonNegative_empty : IsNonNegative .empty :=
  fun _ _ => rfl

theorem isNonNegative_set {ps ps' : Parameters} {i : Int} {v : Value}
    (h : ps.set i v = .ok ps') (hps : IsNonNegative ps) : IsNonNegative ps' := by
  obtain ⟨hi, s, -, rfl⟩ := eq_insert_of_set h
  intro j hj
  rw [get?_insert, if_neg (by omega)]
  exact hps j hj

theorem isNonNegative_afterSets {ps : Parameters} (h : IsNonNegative ps)
    (calls : List (Int × Value)) : IsNonNegative (afterSets ps calls) := by
  fun_induction afterSets ps calls with
  | case1 => exact h
  | case2 ps i v calls ps' hset ih => exact ih (isNonNegative_set hset h)
  | case3 ps i v calls f hset ih => exact ih h

end ScanPlan.Proofs.ParameterEntries
