import ScanPlan.Proofs.NumeralReading
import ScanPlan.Proofs.ParameterEntries
import ScanPlan.Query

namespace ScanPlan.Proofs.QueryProperties

open ScanPlan.Query
open ScanPlan.Proofs.NumeralReading
open ScanPlan.Proofs.ParameterEntries

theorem toList_parameterName (i : Int) :
    (parameterName i).toList = "rangesplit.param.".toList ++ (toString i).toList :=
  String.toList_append

theorem parameterName_inj {i j : Int} : parameterName i = parameterName j ↔ i = j := by
  constructor
  · intro h
    have hnumeral : toString i = toString j := by
      apply String.toList_inj.mp
      rw [← String.toList_inj, toList_parameterName, toList_parameterName] at h
      exact List.append_cancel_left h
    have hread := readInt_toString i
    rw [hnumeral, readInt_toString j] at hread
    exact (Except.ok.inj hread).symm
  · exact congrArg parameterName

theorem parameterName_ne {name : String}
    (h : name.toList.take "rangesplit.param.".length ≠ "rangesplit.param.".toList) (i : Int) :
    parameterName i ≠ name := by
  rintro rfl
  apply h
  rw [toList_parameterName]
  exact List.take_left

theorem parameterName_ne_textName (i : Int) : parameterName i ≠ textName :=
  parameterName_ne (by decide) i

theorem parameterName_ne_countName (i : Int) : parameterName i ≠ countName :=
  parameterName_ne (by decide) i

theorem nodup_names (q : Query) : (q.toProperties.map (·.1)).Nodup := by
  have hnames : (q.parameters.entries.map fun e => parameterName e.1).Nodup := by
    apply List.pairwise_map.mpr
    exact q.parameters.ascending.imp fun hlt heq =>
      Int.ne_of_lt hlt (parameterName_inj.mp heq)
  simp only [toProperties, List.map_cons, List.map_map]
  refine List.nodup_cons.mpr ⟨?_, List.nodup_cons.mpr ⟨?_, hnames⟩⟩
  · intro hmem
    rcases List.mem_cons.mp hmem with heq | hmem
    · exact absurd heq (by decide)
    · obtain ⟨e, -, he⟩ := List.mem_map.mp hmem
      exact parameterName_ne_textName e.1 he
  · intro hmem
    obtain ⟨e, -, he⟩ := List.mem_map.mp hmem
    exact parameterName_ne_countName e.1 he

theorem text?_eq_some_iff {ps : Properties} (h : (ps.map (·.1)).Nodup) (name s : String) :
    ps.text? name = some s ↔ (name, .text s) ∈ ps := by
  have hreverse : (ps.reverse.map (·.1)).Nodup := by
    rw [List.map_reverse]
    exact List.nodup_reverse.mpr h
  rw [← List.mem_reverse, ← lookup_eq_some_iff_mem hreverse, Properties.text?, Properties.get?]
  rcases ps.reverse.lookup name with _ | _ | _ | _
  all_goals simp

theorem text?_textName (q : Query) : q.toProperties.text? textName = some q.text :=
  (text?_eq_some_iff (nodup_names q) _ _).mpr List.mem_cons_self

theorem text?_countName (q : Query) :
    q.toProperties.text? countName = some (toString q.parameters.count) :=
  (text?_eq_some_iff (nodup_names q) _ _).mpr (List.mem_cons_of_mem _ List.mem_cons_self)

theorem text?_parameterName (q : Query) (i : Int) :
    q.toProperties.text? (parameterName i) = q.parameters.get? i := by
  apply Option.ext
  intro s
  rw [text?_eq_some_iff (nodup_names q), get?_eq_some_iff]
  constructor
  · intro hmem
    rcases List.mem_cons.mp hmem with heq | hmem
    · exact absurd (Prod.mk.inj heq).1 (parameterName_ne_textName i)
    · rcases List.mem_cons.mp hmem with heq | hmem
      · exact absurd (Prod.mk.inj heq).1 (parameterName_ne_countName i)
      · obtain ⟨⟨j, t⟩, he, heq⟩ := List.mem_map.mp hmem
        obtain ⟨hname, hvalue⟩ := Prod.mk.inj heq
        obtain rfl := parameterName_inj.mp hname
        obtain rfl := Value.text.inj hvalue
        exact he
  · intro hmem
    apply List.mem_cons_of_mem
    apply List.mem_cons_of_mem
    exact List.mem_map.mpr ⟨(i, s), hmem, rfl⟩

theorem mem_of_get? {ps : Properties} {name : String} {v : Value}
    (h : ps.get? name = some v) : (name, v) ∈ ps := by
  have hlookup : ps.reverse.lookup name = some v := by
    unfold Properties.get? at h
    split at h
    · contradiction
    · exact h
  obtain ⟨before, after, heq, -⟩ := List.lookup_eq_some_iff.mp hlookup
  rw [← List.mem_reverse, heq]
  exact List.mem_append_right _ List.mem_cons_self

theorem get?_ne_other (q : Query) (name : String) (kind : ValueKind) :
    q.toProperties.get? name ≠ some (.other kind) := by
  intro h
  rcases List.mem_cons.mp (mem_of_get? h) with heq | hmem
  · cases heq
  · rcases List.mem_cons.mp hmem with heq | hmem
    · cases heq
    · obtain ⟨e, -, heq⟩ := List.mem_map.mp hmem
      cases heq

/-- Whether the values under the names of some indexes from one on are texts, as far as there
are any. -/
def TextsFrom (ps : Properties) (i n : Nat) : Prop :=
  ∀ j, i ≤ j → j < i + n → ∀ kind, ps.get? (parameterName j) ≠ some (.other kind)

theorem takeParameter_eq {ps : Properties} {i : Nat}
    (h : ∀ kind, ps.get? (parameterName i) ≠ some (.other kind)) (found : Parameters) :
    ∃ found', takeParameter ps found i = .ok found' ∧ ∀ j : Int, found'.get? j =
      if j = i then (ps.text? (parameterName i)).or (found.get? j) else found.get? j := by
  cases hvalue : ps.get? (parameterName i) with
  | none =>
      refine ⟨found, ?_, ?_⟩
      · rw [takeParameter, hvalue]
      · intro j
        rw [Properties.text?, hvalue]
        split
        · rfl
        · rfl
  | some v =>
      cases v with
      | other kind => exact absurd hvalue (h kind)
      | text s =>
          refine ⟨found.insert i s, ?_, ?_⟩
          · simp only [takeParameter, hvalue, Parameters.set]
            exact if_neg (by omega)
          · intro j
            rw [get?_insert, Properties.text?, hvalue]
            rfl

theorem takeParameters_eq {ps : Properties} {n i : Nat} (h : TextsFrom ps i n)
    (found : Parameters) :
    ∃ taken, takeParameters ps n i found = .ok taken ∧ ∀ j : Int, taken.get? j =
      if (i : Int) ≤ j ∧ j < i + n then (ps.text? (parameterName j)).or (found.get? j)
      else found.get? j := by
  induction n generalizing i found with
  | zero =>
      refine ⟨found, rfl, ?_⟩
      intro j
      rw [if_neg (by omega)]
  | succ n ih =>
      obtain ⟨found', htake, hfound'⟩ := takeParameter_eq (h i (by omega) (by omega)) found
      have hrest : TextsFrom ps (i + 1) n := fun j hlow hhigh => h j (by omega) (by omega)
      obtain ⟨taken, htaken, hget⟩ := ih hrest found'
      refine ⟨taken, ?_, ?_⟩
      · rw [takeParameters, htake]
        exact htaken
      · intro j
        rw [hget, hfound']
        by_cases hj : j = i
        · subst hj
          rw [if_neg (by omega), if_pos rfl, if_pos (by omega)]
        · rw [if_neg hj]
          have hreach : ((i + 1 : Nat) : Int) ≤ j ∧ j < (i + 1 : Nat) + n ↔
              (i : Int) ≤ j ∧ j < i + (n + 1 : Nat) := by omega
          simp only [hreach]

end ScanPlan.Proofs.QueryProperties
