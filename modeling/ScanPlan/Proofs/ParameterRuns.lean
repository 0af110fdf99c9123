import ScanPlan.Proofs.ParameterEntries

namespace ScanPlan.Proofs.ParameterRuns

open ScanPlan.Parameters
open ScanPlan.Proofs.ParameterEntries

variable {ps ps' : Parameters} {i : Int} {v : Value} {calls : List (Int × Value)}

/-- Why a call that puts a value at an index is refused. The index is looked at first. -/
inductive Refused : Int → Value → Failure → Prop where
  | negative {i : Int} {v : Value} (h : i < 0) : Refused i v (.negativeParameter i)
  | notText {i : Int} {kind : ValueKind} (h : 0 ≤ i) :
      Refused i (.other kind) (.parameterNotText i kind)

theorem set_eq_error_iff {f : Failure} : ps.set i v = .error f ↔ Refused i v f := by
  unfold Parameters.set
  constructor
  · intro h
    split at h
    · rename_i hi
      cases h
      exact .negative hi
    · rename_i hi
      cases v with
      | text s => cases h
      | other kind =>
          cases h
          exact .notText (Int.not_lt.mp hi)
  · rintro (hi | hi)
    · exact if_pos hi
    · exact if_neg (Int.not_lt.mpr hi)

theorem set_text (hi : 0 ≤ i) (s : String) : ps.set i (.text s) = .ok (ps.insert i s) :=
  if_neg (Int.not_lt.mpr hi)

theorem Refused.kind_eq {f : Failure} (h : Refused i v f) :
    f.kind = if i < 0 then .value else .type := by
  cases h with
  | negative hi => exact (if_pos hi).symm
  | notText hi => exact (if_neg (Int.not_lt.mpr hi)).symm

theorem exists_refused_iff : (∃ f, Refused i v f) ↔ i < 0 ∨ ∀ s, v ≠ .text s := by
  constructor
  · rintro ⟨f, hi | hi⟩
    · exact .inl hi
    · exact .inr nofun
  · rintro (hi | hv)
    · exact ⟨_, .negative hi⟩
    · by_cases hi : i < 0
      · exact ⟨_, .negative hi⟩
      · cases v with
        | text s => exact absurd rfl (hv s)
        | other kind => exact ⟨_, .notText (Int.not_lt.mp hi)⟩

theorem afterSets_append (ps : Parameters) (calls more : List (Int × Value)) :
    afterSets ps (calls ++ more) = afterSets (afterSets ps calls) more := by
  fun_induction afterSets ps calls with
  | case1 => rfl
  | case2 ps i v calls ps' hset ih =>
      rw [List.cons_append, afterSets, hset]
      exact ih
  | case3 ps i v calls f hset ih =>
      rw [List.cons_append, afterSets, hset]
      exact ih

theorem afterSets_of_error {f : Failure} (h : ps.set i v = .error f) :
    afterSets ps ((i, v) :: calls) = afterSets ps calls := by
  rw [afterSets, h]

theorem afterSets_of_ok (h : ps.set i v = .ok ps') :
    afterSets ps ((i, v) :: calls) = afterSets ps' calls := by
  rw [afterSets, h]

theorem get?_afterSets_of_untouched (h : 0 ≤ i → ∀ s, (i, .text s) ∉ calls) :
    (afterSets ps calls).get? i = ps.get? i := by
  fun_induction afterSets ps calls with
  | case1 => rfl
  | case2 ps j v calls ps' hset ih =>
      obtain ⟨hj, s, rfl, rfl⟩ := eq_insert_of_set hset
      have hne : i ≠ j := by
        rintro rfl
        exact h hj s List.mem_cons_self
      rw [ih fun hi t hmem => h hi t (List.mem_cons_of_mem _ hmem), get?_insert, if_neg hne]
  | case3 ps j v calls f hset ih =>
      exact ih fun hi t hmem => h hi t (List.mem_cons_of_mem _ hmem)

theorem get?_afterSets_of_last {before after : List (Int × Value)} {s : String} (hi : 0 ≤ i)
    (hafter : ∀ t, (i, .text t) ∉ after) :
    (afterSets ps (before ++ (i, .text s) :: after)).get? i = some s := by
  rw [afterSets_append, afterSets_of_ok (set_text hi s),
    get?_afterSets_of_untouched fun _ => hafter, get?_insert, if_pos rfl]

theorem length_ordered (ps : Parameters) : ps.ordered.length = ps.count.toNat := by
  rw [Parameters.ordered, List.length_map, List.length_range]

theorem getElem?_ordered {k : Nat} (h : k < ps.count.toNat) :
    ps.ordered[k]? = some (ps.get? k) := by
  rw [Parameters.ordered, List.getElem?_map, List.getElem?_range h]
  rfl

theorem exists_getLast?_ordered {s : String} (hi : 0 ≤ i) (h : ps.get? i = some s) :
    ∃ t, ps.ordered.getLast? = some (some t) := by
  rcases count_cases ps with ⟨hnone, -⟩ | ⟨hmem, hbound⟩
  · rw [hnone i] at h
    contradiction
  · have hle : i ≤ ps.count - 1 := hbound (Option.isSome_iff_exists.mpr ⟨s, h⟩)
    obtain ⟨t, ht⟩ := Option.isSome_iff_exists.mp hmem
    refine ⟨t, ?_⟩
    have hlast : ((ps.count.toNat - 1 : Nat) : Int) = ps.count - 1 := by omega
    rw [List.getLast?_eq_getElem?, length_ordered, getElem?_ordered (by omega), hlast, ht]

structure AfterCalls (ps : Parameters) (calls : List (Int × Value)) : Prop where
  fails_iff : ∀ i v, (∃ f, (afterSets ps calls).set i v = .error f) ↔ i < 0 ∨ ∀ s, v ≠ .text s
  refused_iff : ∀ i v f, (afterSets ps calls).set i v = .error f ↔ Refused i v f
  kind_eq : ∀ i v f, (afterSets ps calls).set i v = .error f →
    f.kind = if i < 0 then .value else .type
  after_refused : ∀ i v f, (afterSets ps calls).set i v = .error f →
    afterSets ps (calls ++ [(i, v)]) = afterSets ps calls
  get?_of_last : ∀ before after i s, calls = before ++ (i, .text s) :: after → 0 ≤ i →
    (∀ t, (i, .text t) ∉ after) → (afterSets ps calls).get? i = some s
  get?_of_untouched : ∀ i, (0 ≤ i → ∀ s, (i, .text s) ∉ calls) →
    (afterSets ps calls).get? i = ps.get? i
  count_of_empty : (∀ i, (afterSets ps calls).get? i = none) → (afterSets ps calls).count = 0
  isGreatest_count : ∀ i s, (afterSets ps calls).get? i = some s →
    IsGreatest {i : Int | ((afterSets ps calls).get? i).isSome = true}
      ((afterSets ps calls).count - 1)
  length_ordered : ((afterSets ps calls).ordered.length : Int) = max 0 (afterSets ps calls).count
  ordered_eq : ∀ (k : Nat) (h : k < (afterSets ps calls).ordered.length),
    (afterSets ps calls).ordered[k] = (afterSets ps calls).get? k
  last_ordered : ∀ i s, 0 ≤ i → (afterSets ps calls).get? i = some s →
    ∃ t, (afterSets ps calls).ordered.getLast? = some (some t)

/-- Parameters with any entries, also below index 0, after any calls with any indexes and
values. -/
theorem parameters_after_calls (ps : Parameters) (calls : List (Int × Value)) :
    AfterCalls ps calls := by
  constructor
  case fails_iff =>
      intro i v
      simp only [set_eq_error_iff, exists_refused_iff]
  case refused_iff => exact fun i v f => set_eq_error_iff
  case kind_eq => exact fun i v f h => (set_eq_error_iff.mp h).kind_eq
  case after_refused =>
      intro i v f h
      rw [afterSets_append, afterSets_of_error h]
      rfl
  case get?_of_last =>
      rintro before after i s rfl hi hafter
      exact get?_afterSets_of_last hi hafter
  case get?_of_untouched => exact fun i h => get?_afterSets_of_untouched h
  case count_of_empty =>
      intro hnone
      rcases count_cases (afterSets ps calls) with ⟨-, hcount⟩ | ⟨hmem, -⟩
      · exact hcount
      · have hsome : ((afterSets ps calls).get? _).isSome = true := hmem
        rw [hnone] at hsome
        contradiction
  case isGreatest_count =>
      intro i s hs
      rcases count_cases (afterSets ps calls) with ⟨hnone, -⟩ | hgreatest
      · rw [hnone i] at hs
        contradiction
      · exact hgreatest
  case length_ordered =>
      rw [ParameterRuns.length_ordered]
      omega
  case ordered_eq =>
      intro k h
      have hk := h
      rw [ParameterRuns.length_ordered] at hk
      exact Option.some.inj ((List.getElem?_eq_getElem h).symm.trans (getElem?_ordered hk))
  case last_ordered => exact fun i s hi hs => exists_getLast?_ordered hi hs

example : (afterSets (.ofList [(-3, "x")]) [(2, .text "c"), (-1, .text "y"), (0, .other .integer),
    (0, .text "a"), (2, .text "d")]).ordered = [some "a", none, some "d"] := by
  decide +kernel

end ScanPlan.Proofs.ParameterRuns
