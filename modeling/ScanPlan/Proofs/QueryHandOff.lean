import ScanPlan.Proofs.QueryProperties

namespace ScanPlan.Proofs.QueryHandOff

open ScanPlan.Query
open ScanPlan.Proofs.NumeralReading
open ScanPlan.Proofs.ParameterEntries
open ScanPlan.Proofs.QueryProperties

theorem countOf_toProperties (q : Query) : countOf none q.toProperties = .ok q.parameters.count := by
  simp only [countOf, text?_countName, readInt_toString]

theorem exists_ofProperties? (q : Query) :
    ∃ restored, ofProperties? none q.toProperties = .ok restored ∧ restored.text = q.text ∧
      ∀ i, restored.parameters.get? i = if 0 ≤ i then q.parameters.get? i else none := by
  have htexts : TextsFrom q.toProperties 0 q.parameters.count.toNat :=
    fun j _ _ kind => get?_ne_other q (parameterName j) kind
  obtain ⟨taken, htaken, hget⟩ := takeParameters_eq htexts .empty
  refine ⟨⟨q.text, taken⟩, ?_, rfl, ?_⟩
  · simp only [ofProperties?, text?_textName, countOf_toProperties]
    change (takeParameters _ _ _ _).bind _ = _
    rw [htaken]
    rfl
  · intro i
    change taken.get? i = _
    rw [hget, text?_parameterName]
    by_cases hi : (0 : Nat) ≤ i ∧ i < (0 : Nat) + q.parameters.count.toNat
    · rw [if_pos hi, if_pos (by omega)]
      exact Option.or_none
    · rw [if_neg hi]
      split
      · rename_i hpos
        cases hvalue : q.parameters.get? i with
        | none => rfl
        | some s =>
            have hlt := lt_count ((get?_eq_some_iff _ _ _).mp hvalue)
            omega
      · rfl

theorem eq_iff_of_restored {q restored : Query} (htext : restored.text = q.text)
    (hget : ∀ i, restored.parameters.get? i = if 0 ≤ i then q.parameters.get? i else none) :
    restored = q ↔ IsNonNegative q.parameters := by
  constructor
  · rintro rfl i hi
    rw [hget, if_neg (by omega)]
  · intro hnonneg
    have hparameters : restored.parameters = q.parameters := by
      apply eq_of_get?_eq
      intro i
      rw [hget]
      split
      · rfl
      · exact (hnonneg i (by omega)).symm
    cases restored
    cases q
    simp only at htext hparameters
    rw [htext, hparameters]

theorem ofProperties?_of_isNonNegative {q : Query} (h : IsNonNegative q.parameters) :
    ofProperties? none q.toProperties = .ok q := by
  obtain ⟨restored, hread, htext, hget⟩ := exists_ofProperties? q
  rw [hread, (eq_iff_of_restored htext hget).mpr h]

/-- What is read back from the properties of a query: its text and its parameters from index
0 on. Handed over again it stays as it is. -/
structure HandedOver (q restored : Query) : Prop where
  text_eq : restored.text = q.text
  get?_eq : ∀ i, restored.parameters.get? i = if 0 ≤ i then q.parameters.get? i else none
  eq_iff : restored = q ↔ ∀ i < 0, q.parameters.get? i = none
  again : ofProperties? none restored.toProperties = .ok restored

theorem exists_handedOver (q : Query) :
    ∃ restored, ofProperties? none q.toProperties = .ok restored ∧ HandedOver q restored := by
  obtain ⟨restored, hread, htext, hget⟩ := exists_ofProperties? q
  have hnonneg : IsNonNegative restored.parameters := by
    intro i hi
    rw [hget, if_neg (by omega)]
  exact ⟨restored, hread, htext, hget, eq_iff_of_restored htext hget,
    ofProperties?_of_isNonNegative hnonneg⟩

/-- Every query is handed over, one whose parameters were set by calls as it is, and the
properties that it travels as have different names whatever its parameters are. -/
theorem ofProperties?_toProperties (q : Query) :
    (∃ restored, ofProperties? none q.toProperties = .ok restored ∧ HandedOver q restored) ∧
      (∀ calls, ofProperties? none (toProperties ⟨q.text, afterSets .empty calls⟩) =
        .ok ⟨q.text, afterSets .empty calls⟩) ∧
      (q.toProperties.map (·.1)).Nodup ∧
        ∀ i, parameterName i ≠ textName ∧ parameterName i ≠ countName ∧
          ∀ j, parameterName i = parameterName j ↔ i = j := by
  refine ⟨exists_handedOver q, ?_, nodup_names q, ?_⟩
  · intro calls
    exact ofProperties?_of_isNonNegative (isNonNegative_afterSets isNonNegative_empty calls)
  · intro i
    exact ⟨parameterName_ne_textName i, parameterName_ne_countName i,
      fun _ => parameterName_inj⟩

example : ofProperties? none (toProperties ⟨"q", .ofList [(3, "US"), (-2, "x"), (0, "1")]⟩) =
    .ok ⟨"q", .ofList [(0, "1"), (3, "US")]⟩ := by
  decide +kernel

end ScanPlan.Proofs.QueryHandOff
