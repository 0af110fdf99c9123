import ScanPlan.Proofs.QueryProperties

namespace ScanPlan.Proofs.PropertyReading

open ScanPlan.Query
open ScanPlan.Proofs.ParameterEntries
open ScanPlan.Proofs.QueryProperties

variable {limit : Option Nat} {ps : Properties}

inductive Tells (limit : Option Nat) (ps : Properties) : Int → Prop where
  | absent (h : ps.text? countName = none) : Tells limit ps 0
  | written {s : String} {n : Int} (h : ps.text? countName = some s)
      (hread : Text.readInt limit s = .ok n) : Tells limit ps n

theorem countOf_eq_ok_iff {n : Int} : countOf limit ps = .ok n ↔ Tells limit ps n := by
  constructor
  · intro h
    unfold countOf at h
    split at h
    · rename_i hcount
      cases h
      exact .absent hcount
    · rename_i s hcount
      split at h
      · rename_i hread
        cases h
        exact .written hcount hread
      · contradiction
  · rintro (h | ⟨h, hread⟩)
    · simp only [countOf, h]
    · simp only [countOf, h, hread]

theorem Tells.unique {m n : Int} (hm : Tells limit ps m) (hn : Tells limit ps n) : m = n := by
  have h := countOf_eq_ok_iff.mpr hm
  rw [countOf_eq_ok_iff.mpr hn] at h
  exact (Except.ok.inj h).symm

theorem tells_or_malformed (limit : Option Nat) (ps : Properties) :
    (∃ n, Tells limit ps n) ∨
      ∃ s fault, ps.text? countName = some s ∧ Text.readInt limit s = .error fault := by
  cases hcount : ps.text? countName with
  | none => exact .inl ⟨0, .absent hcount⟩
  | some s =>
      cases hread : Text.readInt limit s with
      | ok n => exact .inl ⟨n, .written hcount hread⟩
      | error fault => exact .inr ⟨s, fault, rfl, hread⟩

theorem not_tells_of_malformed {s : String} {fault : Text.Fault}
    (h : ps.text? countName = some s) (hread : Text.readInt limit s = .error fault) (n : Int) :
    ¬ Tells limit ps n := by
  rintro (h' | ⟨h', hread'⟩)
  · rw [h] at h'
    contradiction
  · rw [h] at h'
    cases h'
    rw [hread] at hread'
    contradiction

theorem map_text?_eq {name : String} (h : ∀ kind, ps.get? name ≠ some (.other kind)) :
    (ps.text? name).map Value.text = ps.get? name := by
  unfold Properties.text?
  cases hvalue : ps.get? name with
  | none => rfl
  | some v =>
      cases v with
      | text s => rfl
      | other kind => exact absurd hvalue (h kind)

theorem textsFrom_or_first (ps : Properties) (n : Nat) :
    TextsFrom ps 0 n ∨
      ∃ i < n, TextsFrom ps 0 i ∧ ∃ kind, ps.get? (parameterName i) = some (.other kind) := by
  induction n with
  | zero => exact .inl fun j _ hj => absurd hj (by omega)
  | succ n ih =>
      rcases ih with htexts | ⟨i, hi, hfirst⟩
      · by_cases hother : ∃ kind, ps.get? (parameterName n) = some (.other kind)
        · exact .inr ⟨n, Nat.lt_succ_self n, htexts, hother⟩
        · refine .inl fun j hlow hhigh kind hvalue => ?_
          rcases Nat.lt_or_eq_of_le (show j ≤ n by omega) with hj | rfl
          · exact htexts j hlow (by omega) kind hvalue
          · exact hother ⟨kind, hvalue⟩
      · exact .inr ⟨i, Nat.lt_succ_of_lt hi, hfirst⟩

theorem takeParameters_of_first {i k n : Nat} {kind : ValueKind} (h : TextsFrom ps i k)
    (hk : k < n) (hother : ps.get? (parameterName ((i + k : Nat) : Int)) = some (.other kind))
    (found : Parameters) :
    takeParameters ps n i found = .error (.parameterNotText ((i + k : Nat) : Int) kind) := by
  induction n generalizing i k found with
  | zero => exact absurd hk (Nat.not_lt_zero k)
  | succ n ih =>
      cases k with
      | zero =>
          have htake : takeParameter ps found i = .error (.parameterNotText (i : Int) kind) := by
            rw [Nat.add_zero] at hother
            simp only [takeParameter, hother, Parameters.set]
            exact if_neg (by omega)
          rw [takeParameters, htake]
          rfl
      | succ k =>
          obtain ⟨found', htake, -⟩ := takeParameter_eq (h i (by omega) (by omega)) found
          have hrest : TextsFrom ps (i + 1) k := fun j hlow hhigh => h j (by omega) (by omega)
          have hindex : i + (k + 1) = i + 1 + k := by omega
          rw [hindex] at hother ⊢
          rw [takeParameters, htake]
          exact ih hrest (by omega) hother found'

/-- Each index below the count is given the property under its name, and no other index is
given anything. -/
def Takes (ps : Properties) (n : Int) (taken : Parameters) : Prop :=
  ∀ i, (taken.get? i).map Value.text =
    if 0 ≤ i ∧ i < n then ps.get? (parameterName i) else none

theorem exists_takes {n : Int} (h : TextsFrom ps 0 n.toNat) :
    ∃ taken, takeParameters ps n.toNat 0 .empty = .ok taken ∧ Takes ps n taken := by
  obtain ⟨taken, htaken, hget⟩ := takeParameters_eq h .empty
  refine ⟨taken, htaken, ?_⟩
  intro i
  rw [hget]
  by_cases hi : 0 ≤ i ∧ i < n
  · obtain ⟨k, rfl⟩ := Int.eq_ofNat_of_zero_le hi.1
    rw [if_pos hi, if_pos (by omega)]
    change ((ps.text? _).or none).map _ = _
    rw [Option.or_none, map_text?_eq (h k (Nat.zero_le k) (by omega))]
  · rw [if_neg hi, if_neg (by omega)]
    rfl

theorem Takes.textsFrom {n : Int} {taken : Parameters} (h : Takes ps n taken) :
    TextsFrom ps 0 n.toNat := by
  intro j _ hj kind hvalue
  have hget := h j
  rw [if_pos (by omega), hvalue] at hget
  obtain ⟨s, -, hs⟩ := Option.map_eq_some_iff.mp hget
  contradiction

theorem Takes.unique {n : Int} {taken taken' : Parameters} (h : Takes ps n taken)
    (h' : Takes ps n taken') : taken = taken' := by
  apply eq_of_get?_eq
  intro i
  have hinj : Function.Injective Value.text := fun _ _ heq => Value.text.inj heq
  exact Option.map_injective hinj ((h i).trans (h' i).symm)

theorem Takes.count_le {n : Int} {taken : Parameters} (h : Takes ps n taken) :
    taken.count ≤ max n 0 := by
  rcases count_cases taken with ⟨-, hcount⟩ | ⟨hmem, -⟩
  · rw [hcount]
    exact le_max_right n 0
  · obtain ⟨s, hs⟩ := Option.isSome_iff_exists.mp hmem
    have hget := h (taken.count - 1)
    rw [hs] at hget
    split at hget
    · omega
    · contradiction

/-- The ways in which reading properties ends, each with what the properties hold then. -/
inductive Reading (limit : Option Nat) (ps : Properties) : Except Failure Query → Prop where
  | unnamed (htext : ps.text? textName = none) :
      Reading limit ps (.error (.missingProperty textName))
  | malformed {t s : String} {fault : Text.Fault} (htext : ps.text? textName = some t)
      (hcount : ps.text? countName = some s) (hread : Text.readInt limit s = .error fault) :
      Reading limit ps (.error (.notANumeral s fault))
  | notText {t : String} {n : Int} {i : Nat} {kind : ValueKind}
      (htext : ps.text? textName = some t) (hcount : Tells limit ps n) (hi : i < n)
      (hsmallest : TextsFrom ps 0 i) (hother : ps.get? (parameterName i) = some (.other kind)) :
      Reading limit ps (.error (.parameterNotText i kind))
  | read {q : Query} {n : Int} (htext : ps.text? textName = some q.text)
      (hcount : Tells limit ps n) (htakes : Takes ps n q.parameters) :
      Reading limit ps (.ok q)

theorem Reading.eq {outcome : Except Failure Query} (h : Reading limit ps outcome) :
    ofProperties? limit ps = outcome := by
  unfold ofProperties?
  cases h with
  | unnamed htext => rw [htext]
  | malformed htext hcount hread =>
      simp only [htext, countOf, hcount, hread]
      rfl
  | notText htext hcount hi hsmallest hother =>
      simp only [htext, countOf_eq_ok_iff.mpr hcount]
      change (takeParameters _ _ _ _).bind _ = _
      rw [takeParameters_of_first hsmallest (by omega) (by rwa [Nat.zero_add]), Nat.zero_add]
      rfl
  | @read q n htext hcount htakes =>
      simp only [htext, countOf_eq_ok_iff.mpr hcount]
      change (takeParameters _ _ _ _).bind _ = _
      obtain ⟨taken, htaken, htakes'⟩ := exists_takes htakes.textsFrom
      rw [htaken, htakes'.unique htakes]
      rfl

theorem exists_reading (limit : Option Nat) (ps : Properties) :
    ∃ outcome, Reading limit ps outcome := by
  cases htext : ps.text? textName with
  | none => exact ⟨_, .unnamed htext⟩
  | some t =>
      rcases tells_or_malformed limit ps with ⟨n, hcount⟩ | ⟨s, fault, hcount, hread⟩
      · rcases textsFrom_or_first ps n.toNat with htexts | ⟨i, hi, hsmallest, kind, hother⟩
        · obtain ⟨taken, -, htakes⟩ := exists_takes htexts
          exact ⟨.ok ⟨t, taken⟩, .read htext hcount htakes⟩
        · exact ⟨_, .notText htext hcount (by omega) hsmallest hother⟩
      · exact ⟨_, .malformed htext hcount hread⟩

theorem ofProperties?_eq_iff (outcome : Except Failure Query) :
    ofProperties? limit ps = outcome ↔ Reading limit ps outcome := by
  constructor
  · rintro rfl
    obtain ⟨outcome, h⟩ := exists_reading limit ps
    rwa [h.eq]
  · exact Reading.eq

theorem Reading.of_agree {ps' : Properties} {outcome : Except Failure Query}
    (h : Reading limit ps outcome) (htext : ps'.text? textName = ps.text? textName)
    (hcount : ps'.text? countName = ps.text? countName)
    (hparameters : ∀ n, Tells limit ps n → ∀ i, 0 ≤ i → i < n →
      ps'.get? (parameterName i) = ps.get? (parameterName i)) :
    Reading limit ps' outcome := by
  have htells : ∀ {n}, Tells limit ps n → Tells limit ps' n := by
    rintro n (h | ⟨h, hread⟩)
    · exact .absent (hcount.trans h)
    · exact .written (hcount.trans h) hread
  cases h with
  | unnamed h => exact .unnamed (htext.trans h)
  | malformed h hs hread => exact .malformed (htext.trans h) (hcount.trans hs) hread
  | notText h hn hi hsmallest hother =>
      refine .notText (htext.trans h) (htells hn) hi ?_ ?_
      · intro j hlow hhigh kind
        rw [hparameters _ hn j (by omega) (by omega)]
        exact hsmallest j hlow hhigh kind
      · rw [hparameters _ hn _ (by omega) hi, hother]
  | read h hn htakes =>
      refine .read (htext.trans h) (htells hn) ?_
      intro i
      rw [htakes i]
      split
      · rename_i hi
        exact (hparameters _ hn i hi.1 hi.2).symm
      · rfl

/-- That properties can be read as far as the text and the count of a query go. -/
def Headed (limit : Option Nat) (ps : Properties) : Prop :=
  (∃ t, ps.text? textName = some t) ∧ ∃ n, Tells limit ps n

theorem Reading.succeeds_iff {outcome : Except Failure Query} (h : Reading limit ps outcome) :
    (∃ q, outcome = .ok q) ↔
      (∃ t, ps.text? textName = some t) ∧ ∃ n, Tells limit ps n ∧ TextsFrom ps 0 n.toNat := by
  constructor
  · rintro ⟨q, rfl⟩
    cases h with
    | read htext hcount htakes => exact ⟨⟨q.text, htext⟩, _, hcount, htakes.textsFrom⟩
  · rintro ⟨⟨t, htext⟩, n, hcount, htexts⟩
    obtain ⟨taken, -, htakes⟩ := exists_takes htexts
    refine ⟨⟨t, taken⟩, ?_⟩
    rw [← h.eq]
    exact Reading.eq (.read htext hcount htakes)

theorem Reading.kind_eq {f : Failure} (h : Reading limit ps (.error f)) :
    f.kind = .type ∧ Headed limit ps ∨ f.kind = .value ∧ ¬ Headed limit ps := by
  cases h with
  | unnamed htext =>
      refine .inr ⟨rfl, ?_⟩
      rintro ⟨⟨t, h⟩, -⟩
      rw [htext] at h
      contradiction
  | malformed _ hcount hread =>
      refine .inr ⟨rfl, ?_⟩
      rintro ⟨-, n, hn⟩
      exact not_tells_of_malformed hcount hread n hn
  | notText htext hcount => exact .inl ⟨rfl, ⟨_, htext⟩, _, hcount⟩

/-- What holds of the reading of properties, of which the text and the count of a query are
texts or absent. The values of parameters can be of any kind. -/
structure PropertiesRead (limit : Option Nat) (ps : Properties) : Prop where
  eq_iff : ∀ outcome, ofProperties? limit ps = outcome ↔ Reading limit ps outcome
  succeeds_iff : (∃ q, ofProperties? limit ps = .ok q) ↔
    (∃ t, ps.text? textName = some t) ∧ ∃ n, Tells limit ps n ∧ TextsFrom ps 0 n.toNat
  get?_eq : ∀ q n, ofProperties? limit ps = .ok q → Tells limit ps n →
    ∀ i, (q.parameters.get? i).map Value.text =
      if 0 ≤ i ∧ i < n then ps.get? (parameterName i) else none
  count_le : ∀ q n, ofProperties? limit ps = .ok q → Tells limit ps n →
    q.parameters.count ≤ max n 0
  further : ∀ ps' : Properties, ps'.text? textName = ps.text? textName →
    ps'.text? countName = ps.text? countName →
    (∀ n, Tells limit ps n → ∀ i, 0 ≤ i → i < n →
      ps'.get? (parameterName i) = ps.get? (parameterName i)) →
    ofProperties? limit ps' = ofProperties? limit ps
  kind_eq : ∀ f, ofProperties? limit ps = .error f →
    f.kind = .type ∧ Headed limit ps ∨ f.kind = .value ∧ ¬ Headed limit ps

/-- Any properties, whatever is missing from them, wrong in them or more than is read. -/
theorem properties_read (limit : Option Nat) (ps : Properties) : PropertiesRead limit ps := by
  have hreading : ∀ {outcome}, ofProperties? limit ps = outcome → Reading limit ps outcome :=
    (ofProperties?_eq_iff _).mp
  have htakes : ∀ q n, ofProperties? limit ps = .ok q → Tells limit ps n →
      Takes ps n q.parameters := by
    intro q n hread hn
    cases hreading hread with
    | read _ hcount htakes =>
        rw [hn.unique hcount]
        exact htakes
  constructor
  case eq_iff => exact ofProperties?_eq_iff
  case succeeds_iff => exact (hreading rfl).succeeds_iff
  case get?_eq => exact htakes
  case count_le => exact fun q n hread hn => (htakes q n hread hn).count_le
  case further =>
      intro ps' htext hcount hparameters
      exact ((hreading rfl).of_agree htext hcount hparameters).eq
  case kind_eq => exact fun f hread => (hreading hread).kind_eq

example : ofProperties? none [("rangesplit.param.2", .other .list), (textName, .text "q"),
    ("rangesplit.param.1", .other .integer), (countName, .text " 1_0 ")] =
    .error (.parameterNotText 1 .integer) := by
  decide +kernel

end ScanPlan.Proofs.PropertyReading
