import ScanPlan.Delivery

namespace ScanPlan.Proofs.SplitDelivery

open ScanPlan.Delivery

variable {ρ : Type}

/-- An iterator that hands out rows without a failure, and can be closed. -/
def iteratorOf (rows : List ρ) : Source ρ :=
  .iterator (rows.map .row) none .succeeds

/-- A cursor that has read some rows of an iterator and is to read others. -/
structure Reading (rows : List ρ) (read : Nat) (rest : List ρ) (c : Cursor ρ) : Prop where
  source : c.supply.source = iteratorOf rows
  pending : c.supply.pending = rest.map .row
  usage : c.supply.usage = ⟨read, []⟩
  not_closed : c.closed = false
  not_exhausted : c.exhausted = false

structure AtEnd (rows : List ρ) (read : Nat) (c : Cursor ρ) : Prop where
  source : c.supply.source = iteratorOf rows
  usage : c.supply.usage = ⟨read, []⟩
  not_closed : c.closed = false

theorem reading_ofSource (s : Split) (rows : List ρ) :
    Reading rows 0 rows (.ofSource s (iteratorOf rows)) :=
  ⟨rfl, rfl, rfl, rfl, rfl⟩

theorem Reading.fetch_row {rows rest : List ρ} {read : Nat} {r : ρ} {c : Cursor ρ}
    (h : Reading rows read (r :: rest) c) :
    ∃ c', c.fetch = (.ok (some r), c') ∧ Reading rows (read + 1) rest c' := by
  have hrequest : c.supply.request =
      (.row r, ⟨c.supply.source, rest.map .row, ⟨read + 1, []⟩⟩) := by
    simp only [Supply.request, h.pending, List.map_cons, Supply.record, Item.isRow, h.source,
      iteratorOf, Source.isRecorded, h.usage, Bool.and_self, if_true]
  have hopen : (c.closed || c.exhausted) = false := by
    rw [h.not_closed, h.not_exhausted, Bool.or_self]
  rw [Cursor.fetch, hopen, hrequest]
  exact ⟨_, rfl, h.source, rfl, rfl, h.not_closed, h.not_exhausted⟩

theorem Reading.fetch_end {rows : List ρ} {read : Nat} {c : Cursor ρ}
    (h : Reading rows read [] c) :
    ∃ c', c.fetch = (.ok none, c') ∧ AtEnd rows read c' := by
  have hrequest : c.supply.request = (.stop, c.supply) := by
    simp only [Supply.request, h.pending, List.map_nil]
  have hopen : (c.closed || c.exhausted) = false := by
    rw [h.not_closed, h.not_exhausted, Bool.or_self]
  rw [Cursor.fetch, hopen, hrequest]
  exact ⟨_, rfl, h.source, h.usage, h.not_closed⟩

theorem Reading.each {rows rest : List ρ} {read : Nat} {c : Cursor ρ} {handler : Handler ρ}
    (h : Reading rows read rest c) (hproceed : ∀ n r, handler n r = .proceed) (seen : Nat) :
    ∃ c', c.each handler seen = ⟨rest, rest.length, none, c'⟩ ∧
      AtEnd rows (read + rest.length) c' := by
  induction rest generalizing read c seen with
  | nil =>
      obtain ⟨c', hfetch, hend⟩ := h.fetch_end
      refine ⟨c', ?_, hend⟩
      rw [Cursor.each_eq, hfetch]
      rfl
  | cons r rest ih =>
      obtain ⟨c', hfetch, hreading⟩ := h.fetch_row
      obtain ⟨c'', heach, hend⟩ := ih hreading (seen + 1)
      refine ⟨c'', ?_, ?_⟩
      · rw [Cursor.each_eq, hfetch]
        simp only [hproceed, heach]
        rfl
      · rw [List.length_cons, ← Nat.add_assoc, Nat.add_right_comm]
        exact hend

theorem AtEnd.close {rows : List ρ} {read : Nat} {c : Cursor ρ} (h : AtEnd rows read c) :
    ∃ c', c.close = (.ok (), c') ∧ c'.supply.usage = ⟨read, [.iterator]⟩ := by
  have hiterator : c.supply.close .iterator =
      (.ok (), { c.supply with usage := ⟨read, [.iterator]⟩ }) := by
    simp only [Supply.close, h.source, iteratorOf, Source.closing, h.usage, List.nil_append]
  have hresult : ∀ s : Supply ρ, s.source = c.supply.source →
      s.close .result = (.ok (), s) := by
    intro s hs
    simp only [Supply.close, hs, h.source, iteratorOf, Source.closing]
  rw [Cursor.close, h.not_closed, hiterator]
  simp only [hresult]
  exact ⟨_, rfl, rfl⟩

def completed (s : Split) (rows : List ρ) : Outcome ρ :=
  ⟨s, rows, rows.length, none, ⟨rows.length, [.iterator]⟩⟩

theorem ofPassage_drain {take : Nat → ρ → Option Failure} (htake : ∀ n r, take n r = none)
    (s : Split) (rows : List ρ) :
    Outcome.ofPassage s (drain take (.ofSource s (iteratorOf rows))) = completed s rows := by
  have hproceed : ∀ n r, reaction take n r = .proceed := by
    intro n r
    simp only [reaction, htake]
  obtain ⟨c, heach, hend⟩ := (reading_ofSource s rows).each hproceed 0
  obtain ⟨c', hclose, husage⟩ := hend.close
  rw [Nat.zero_add] at husage
  simp only [drain, heach, Passage.finish, hclose, Outcome.ofPassage, husage, completed]

theorem start_of_assigned {execute : Executor ρ} {s : Split} {p : String}
    (hset : s.partitionSet = some p) (hp : p ≠ "") :
    Cursor.start execute s = (do
      .perform (.execute s.range p)
      let source ← execute s.range p
      match source.startFailure? with
      | some f => .fail f
      | none => do
          .report (.opened s)
          pure (.ofSource s source)) := by
  unfold Cursor.start
  rw [hset]
  split
  · contradiction
  · rename_i h
    cases h
    contradiction
  · rename_i h
    cases h
    rfl

theorem outcome_start_eq {execute : Executor ρ} {s : Split} {p : String} {source : Source ρ}
    (hset : s.partitionSet = some p) (hp : p ≠ "")
    (hexecute : (execute s.range p).outcome = .ok source) :
    (Cursor.start execute s).outcome =
      match source.startFailure? with
      | none => .ok (.ofSource s source)
      | some f => .error f := by
  rw [start_of_assigned hset hp, Run.bind_of_ok (a := ()) rfl, Run.bind_of_ok hexecute]
  cases source.startFailure? with
  | none => rfl
  | some f => rfl

theorem outcome_start {execute : Executor ρ} {s : Split} {p : String} {source : Source ρ}
    (hset : s.partitionSet = some p) (hp : p ≠ "")
    (hexecute : (execute s.range p).outcome = .ok source) (hstarts : source.startFailure? = none) :
    (Cursor.start execute s).outcome = .ok (.ofSource s source) := by
  rw [outcome_start_eq hset hp hexecute, hstarts]

theorem outcome_forM_report (events : List Event) :
    (events.forM Run.report).outcome = .ok () := by
  induction events with
  | nil => rfl
  | cons e events ih => exact Run.outcome_bind_eq_ok.mpr ⟨(), rfl, ih⟩

theorem outcome_reportFailure (o : Outcome ρ) : o.reportFailure.outcome = .ok () := by
  unfold Outcome.reportFailure
  split
  · rfl
  · rfl

section Consume

variable {execute : Executor ρ} {take : Nat → ρ → Option Failure} {s : Split}

theorem outcome_consume_of_start {c : Cursor ρ} (h : (Cursor.start execute s).outcome = .ok c) :
    (consume execute take s).outcome = .ok (.ofPassage s (drain take c)) := by
  refine Run.outcome_bind_eq_ok.mpr ⟨.ok c, ?_, ?_⟩
  · rw [Run.outcome_attempt, h]
  · refine Run.outcome_bind_eq_ok.mpr ⟨(), outcome_forM_report _, ?_⟩
    refine Run.outcome_bind_eq_ok.mpr ⟨.ofPassage s (drain take c), rfl, ?_⟩
    exact Run.outcome_bind_eq_ok.mpr ⟨(), outcome_reportFailure _, rfl⟩

theorem outcome_consume_of_error {f : Failure}
    (h : (Cursor.start execute s).outcome = .error f) :
    (consume execute take s).outcome = .ok (.unstarted s f) := by
  refine Run.outcome_bind_eq_ok.mpr ⟨.error f, ?_, ?_⟩
  · rw [Run.outcome_attempt, h]
  · refine Run.outcome_bind_eq_ok.mpr ⟨.unstarted s f, rfl, ?_⟩
    exact Run.outcome_bind_eq_ok.mpr ⟨(), outcome_reportFailure _, rfl⟩

end Consume

theorem outcome_consume {execute : Executor ρ} {take : Nat → ρ → Option Failure} {s : Split}
    {p : String} {rows : List ρ} (htake : ∀ n r, take n r = none)
    (hset : s.partitionSet = some p) (hp : p ≠ "")
    (hexecute : (execute s.range p).outcome = .ok (iteratorOf rows)) :
    (consume execute take s).outcome = .ok (completed s rows) := by
  rw [outcome_consume_of_start (outcome_start hset hp hexecute rfl), ofPassage_drain htake]

theorem outcome_consumeFrom {execute : Executor ρ} {callback : Callback ρ} {p : String}
    {rows : Split → List ρ} {splits : List Split} (hcallback : ∀ i n r, callback i n r = none)
    (hp : p ≠ "") (hset : ∀ s ∈ splits, s.partitionSet = some p)
    (hexecute : ∀ s ∈ splits, (execute s.range p).outcome = .ok (iteratorOf (rows s)))
    (i : Nat) :
    (consumeFrom execute callback i splits).outcome =
      .ok (splits.map fun s => completed s (rows s)) := by
  induction splits generalizing i with
  | nil => rfl
  | cons s rest ih =>
      have hhead := outcome_consume (hcallback i) (hset s List.mem_cons_self) hp
        (hexecute s List.mem_cons_self)
      have hrest := ih (fun t ht => hset t (List.mem_cons_of_mem s ht))
        (fun t ht => hexecute t (List.mem_cons_of_mem s ht)) (i + 1)
      exact Run.outcome_bind_eq_ok.mpr ⟨_, hhead, Run.outcome_bind_eq_ok.mpr ⟨_, hrest, rfl⟩⟩

theorem outcome_deliver {execute : Executor ρ} {callback : Callback ρ} {p : String}
    {rows : Split → List ρ} {splits : List Split} {workers : Int}
    (hcallback : ∀ i n r, callback i n r = none) (hworkers : 1 ≤ workers)
    (hp : p ≠ "") (hset : ∀ s ∈ splits, s.partitionSet = some p)
    (hexecute : ∀ s ∈ splits, (execute s.range p).outcome = .ok (iteratorOf (rows s))) :
    (deliver execute callback workers splits).outcome =
      .ok (splits.map fun s => completed s (rows s)) := by
  rw [deliver, if_neg (by omega)]
  split
  · rename_i hnil
    rw [hnil]
    rfl
  · exact Run.outcome_bind_eq_ok.mpr ⟨_, outcome_consumeFrom hcallback hp hset hexecute 0,
      Run.outcome_bind_eq_ok.mpr ⟨(), rfl, rfl⟩⟩

end ScanPlan.Proofs.SplitDelivery
