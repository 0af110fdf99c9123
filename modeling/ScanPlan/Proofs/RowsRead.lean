import ScanPlan.Proofs.ResourceRelease

namespace ScanPlan.Proofs.RowsRead

open ScanPlan.Cursor
open ScanPlan.Proofs.CursorHistory
open ScanPlan.Proofs.ResourceRelease
open ScanPlan.Proofs.SplitDelivery

variable {ρ : Type}

def given? : Item ρ → Option ρ
  | .row r => some r
  | _ => none

def isStop : Item ρ → Bool
  | .stop => true
  | _ => false

/-- The rows of a script before its first end. Requests that fail give none. -/
def rowsBeforeEnd (items : List (Item ρ)) : List ρ :=
  (items.takeWhile fun item => !isStop item).filterMap given?

def reached? : Move ρ → Option ρ
  | .reached r => some r
  | _ => none

def reachedRows (moves : List (Move ρ)) : List ρ :=
  moves.filterMap reached?

def isFinal : Move ρ → Bool
  | .ended | .closed => true
  | .reached _ | .failed _ => false

/-- Whether a request before any closing met the end. -/
def MetEnd (moves : List (Move ρ)) : Prop :=
  ∃ before after, moves = before ++ .ended :: after ∧ .closed ∉ before

theorem metEnd_append_singleton (moves : List (Move ρ)) (m : Move ρ) :
    MetEnd (moves ++ [m]) ↔ MetEnd moves ∨ m = .ended ∧ .closed ∉ moves := by
  constructor
  · rintro ⟨before, after, heq, hclosed⟩
    rcases List.eq_nil_or_concat after with rfl | ⟨after, last, rfl⟩
    · obtain ⟨rfl, hm⟩ := List.append_inj' heq rfl
      exact .inr ⟨List.singleton_inj.mp hm, hclosed⟩
    · refine .inl ⟨before, after, ?_, hclosed⟩
      rw [List.concat_eq_append, ← List.cons_append, ← List.append_assoc] at heq
      exact (List.append_inj' heq rfl).1
  · rintro (⟨before, after, rfl, hclosed⟩ | ⟨rfl, hclosed⟩)
    · exact ⟨before, after ++ [m], by simp, hclosed⟩
    · exact ⟨moves, [], rfl, hclosed⟩

theorem exists_isFinal_iff (moves : List (Move ρ)) :
    (∃ m ∈ moves, isFinal m = true) ↔ MetEnd moves ∨ .closed ∈ moves := by
  constructor
  · rintro ⟨m, hm, hfinal⟩
    by_cases hclosed : Move.closed ∈ moves
    · exact .inr hclosed
    · obtain ⟨before, after, rfl⟩ := List.append_of_mem hm
      cases m with
      | reached r => contradiction
      | failed f => contradiction
      | closed => exact .inr hm
      | ended =>
          exact .inl ⟨before, after, rfl, fun h => hclosed (List.mem_append_left _ h)⟩
  · rintro (⟨before, after, rfl, -⟩ | hclosed)
    · exact ⟨.ended, by simp, rfl⟩
    · exact ⟨.closed, hclosed, rfl⟩

def Over (c : Cursor ρ) : Prop :=
  (c.closed || c.exhausted) = true

/-- What a request for a row comes to: the move that it is, and the cursor after it. -/
inductive Fetched (c : Cursor ρ) : Move ρ → Cursor ρ → Prop where
  | idle (h : Over c) : Fetched c .ended c
  | row {r : ρ} {rest : List (Item ρ)} (hopen : ¬ Over c)
      (h : c.supply.pending = .row r :: rest) :
      Fetched c (.reached r) { c with
        supply := { c.supply with pending := rest, usage := c.supply.record (.row r) }
        current? := some r
        rowsRead := c.rowsRead + 1 }
  | fails {f : Failure} {rest : List (Item ρ)} (hopen : ¬ Over c)
      (h : c.supply.pending = .fails f :: rest) :
      Fetched c (.failed f) { c with supply := { c.supply with pending := rest } }
  | ends {rest : List (Item ρ)} (hopen : ¬ Over c) (h : rowsBeforeEnd c.supply.pending = []) :
      Fetched c .ended { c with
        supply := { c.supply with pending := rest }
        current? := none
        exhausted := true }

theorem fetched_fetch (c : Cursor ρ) : Fetched c (.ofFetch c.fetch.1) c.fetch.2 := by
  unfold Cursor.fetch
  split
  · rename_i hover
    exact .idle hover
  · rename_i hopen
    unfold Supply.request
    cases hpending : c.supply.pending with
    | nil =>
        have hsupply : c.supply = { c.supply with pending := [] } := by rw [← hpending]
        simp only
        rw [hsupply]
        exact .ends hopen (by rw [hpending]; rfl)
    | cons item rest =>
        cases item with
        | row r => exact .row hopen hpending
        | fails f => exact .fails hopen hpending
        | stop => exact .ends hopen (by rw [hpending]; rfl)

namespace Fetched

variable {c c' : Cursor ρ} {m : Move ρ}

theorem source_eq (h : Fetched c m c') : c'.supply.source = c.supply.source := by
  cases h <;> rfl

theorem ne_closed (h : Fetched c m c') : m ≠ .closed := by
  cases h <;> simp

theorem closed_eq (h : Fetched c m c') : c'.closed = c.closed := by
  cases h <;> rfl

theorem rowsRead_eq (h : Fetched c m c') :
    c'.rowsRead = c.rowsRead + (reached? m).toList.length := by
  cases h <;> rfl

theorem produced_eq (h : Fetched c m c') :
    c'.supply.usage.produced = c.supply.usage.produced +
      if c.supply.source.isRecorded then (reached? m).toList.length else 0 := by
  cases h with
  | idle _ => simp [reached?]
  | row _ _ =>
      cases hrecorded : c.supply.source.isRecorded with
      | false => simp [Supply.record, hrecorded]
      | true => simp [Supply.record, Item.isRow, hrecorded, reached?]
  | fails _ _ => simp [reached?]
  | ends _ _ => simp [reached?]

theorem exhausted_iff (h : Fetched c m c') :
    c'.exhausted = true ↔ c.exhausted = true ∨ m = .ended ∧ ¬ c.closed = true := by
  cases h with
  | idle hover =>
      rw [Over, Bool.or_eq_true] at hover
      constructor
      · exact .inl
      · rintro (hexhausted | ⟨-, hclosed⟩)
        · exact hexhausted
        · exact hover.resolve_left hclosed
  | row _ _ => simp
  | fails _ _ => simp
  | ends hopen _ =>
      rw [Over, Bool.or_eq_true, not_or] at hopen
      exact iff_of_true rfl (.inr ⟨rfl, hopen.1⟩)

theorem exists_rest (h : Fetched c m c') {rest : List ρ}
    (hrest : ¬ Over c → rest = rowsBeforeEnd c.supply.pending) :
    ∃ rest', rest = (reached? m).toList ++ rest' ∧
      (¬ Over c' → rest' = rowsBeforeEnd c'.supply.pending) := by
  cases h with
  | idle hover => exact ⟨rest, rfl, hrest⟩
  | @row r items hopen hpending =>
      refine ⟨rowsBeforeEnd items, ?_, fun _ => rfl⟩
      rw [hrest hopen, hpending]
      rfl
  | @fails f items hopen hpending =>
      refine ⟨rest, rfl, fun _ => ?_⟩
      rw [hrest hopen, hpending]
      rfl
  | ends hopen _ => exact ⟨rest, rfl, fun hstill => absurd (Bool.or_true _) hstill⟩

end Fetched

/-- Whether two cursors have read alike: as many rows, with the same items left. -/
structure ReadAlike (c c' : Cursor ρ) : Prop where
  rowsRead : c'.rowsRead = c.rowsRead
  pending : c'.supply.pending = c.supply.pending
  produced : c'.supply.usage.produced = c.supply.usage.produced
  exhausted : c'.exhausted = c.exhausted
  source : c'.supply.source = c.supply.source

theorem ReadAlike.trans {c c' c'' : Cursor ρ} (h : ReadAlike c c') (h' : ReadAlike c' c'') :
    ReadAlike c c'' :=
  ⟨h'.rowsRead.trans h.rowsRead, h'.pending.trans h.pending, h'.produced.trans h.produced,
    h'.exhausted.trans h.exhausted, h'.source.trans h.source⟩

theorem supply_close (s : Supply ρ) (h : Handle) :
    ∃ closes, (s.close h).2 = { s with usage := { s.usage with closes := closes } } := by
  unfold Supply.close
  split
  · exact ⟨s.usage.closes, rfl⟩
  · exact ⟨_, rfl⟩
  · exact ⟨_, rfl⟩

theorem close_of_open {c : Cursor ρ} (h : ¬ c.closed = true) :
    ∃ closes log, c.close.2 = { c with
      closed := true
      current? := none
      supply := { c.supply with usage := { c.supply.usage with closes := closes } }
      log := log } := by
  have hiterator := supply_close c.supply .iterator
  rcases hfirst : c.supply.close .iterator with ⟨first, s⟩
  rw [hfirst] at hiterator
  obtain ⟨_, rfl⟩ := hiterator
  have hresult := supply_close (c.supply.close .iterator).2 .result
  rw [hfirst] at hresult
  rcases hsecond : Supply.close _ .result with ⟨second, s⟩
  rw [hsecond] at hresult
  obtain ⟨closes, rfl⟩ := hresult
  rw [Cursor.close, if_neg h, hfirst]
  simp only [hsecond]
  cases second with
  | error f => exact ⟨closes, _, rfl⟩
  | ok _ =>
      cases first with
      | error f => exact ⟨closes, _, rfl⟩
      | ok _ => exact ⟨closes, _, rfl⟩

theorem closed_close (c : Cursor ρ) : c.close.2.closed = true := by
  by_cases hclosed : c.closed = true
  · rw [Cursor.close, if_pos hclosed]
    exact hclosed
  · obtain ⟨_, _, heq⟩ := close_of_open hclosed
    rw [heq]

theorem readAlike_close (c : Cursor ρ) : ReadAlike c c.close.2 := by
  by_cases hclosed : c.closed = true
  · rw [Cursor.close, if_pos hclosed]
    exact ⟨rfl, rfl, rfl, rfl, rfl⟩
  · obtain ⟨_, _, heq⟩ := close_of_open hclosed
    rw [heq]
    exact ⟨rfl, rfl, rfl, rfl, rfl⟩

/-- A cursor over a source after some moves. The rows it is still to reach are those of
the items it has left, as long as it is not over. -/
structure Tally (source : Source ρ) (moves : List (Move ρ)) (c : Cursor ρ) : Prop where
  source_eq : c.supply.source = source
  rows : ∃ rest, rowsBeforeEnd source.items = reachedRows moves ++ rest ∧
    (¬ Over c → rest = rowsBeforeEnd c.supply.pending)
  rowsRead_eq : c.rowsRead = (reachedRows moves).length
  produced_eq : c.supply.usage.produced = if source.isRecorded then c.rowsRead else 0
  exhausted_iff : c.exhausted = true ↔ MetEnd moves
  closed_iff : c.closed = true ↔ .closed ∈ moves

theorem Tally.over_iff {source : Source ρ} {moves : List (Move ρ)} {c : Cursor ρ}
    (h : Tally source moves c) : Over c ↔ ∃ m ∈ moves, isFinal m = true := by
  rw [exists_isFinal_iff, ← h.exhausted_iff, ← h.closed_iff, Over, Bool.or_eq_true, or_comm]

theorem tally_ofSource (s : Split) (source : Source ρ) :
    Tally source [] (.ofSource s source) where
  source_eq := rfl
  rows := ⟨_, rfl, fun _ => rfl⟩
  rowsRead_eq := rfl
  produced_eq := by
    split
    · rfl
    · rfl
  exhausted_iff := by
    apply iff_of_false
    · exact Bool.false_ne_true
    · rintro ⟨_, _, heq, -⟩
      simp at heq
  closed_iff := by
    apply iff_of_false
    · exact Bool.false_ne_true
    · exact List.not_mem_nil

theorem reachedRows_append_singleton (moves : List (Move ρ)) (m : Move ρ) :
    reachedRows (moves ++ [m]) = reachedRows moves ++ (reached? m).toList := by
  rw [reachedRows, List.filterMap_append]
  cases hm : reached? m <;> simp [reachedRows, hm]

theorem closed_mem_append_iff {moves : List (Move ρ)} {m : Move ρ} (h : m ≠ .closed) :
    .closed ∈ moves ++ [m] ↔ .closed ∈ moves := by
  rw [List.mem_append, List.mem_singleton]
  exact or_iff_left (Ne.symm h)

section Tally

variable {source : Source ρ} {moves : List (Move ρ)} {c : Cursor ρ}

theorem Tally.fetch (h : Tally source moves c) :
    Tally source (moves ++ [.ofFetch c.fetch.1]) c.fetch.2 := by
  have hfetch := fetched_fetch c
  obtain ⟨rest, hrows, hrest⟩ := h.rows
  obtain ⟨rest', heq, hrest'⟩ := hfetch.exists_rest hrest
  have hreached := reachedRows_append_singleton moves (.ofFetch c.fetch.1)
  constructor
  case source_eq => exact hfetch.source_eq.trans h.source_eq
  case rows =>
      refine ⟨rest', ?_, hrest'⟩
      rw [hreached, List.append_assoc, ← heq]
      exact hrows
  case rowsRead_eq => rw [hfetch.rowsRead_eq, hreached, List.length_append, h.rowsRead_eq]
  case produced_eq =>
      rw [hfetch.produced_eq, hfetch.rowsRead_eq, h.produced_eq, h.source_eq]
      split
      · rfl
      · rfl
  case exhausted_iff =>
      rw [metEnd_append_singleton, ← h.exhausted_iff, ← h.closed_iff]
      exact hfetch.exhausted_iff
  case closed_iff =>
      rw [closed_mem_append_iff hfetch.ne_closed, hfetch.closed_eq]
      exact h.closed_iff

theorem Tally.close (h : Tally source moves c) : Tally source (moves ++ [.closed]) c.close.2 := by
  have halike := readAlike_close c
  obtain ⟨rest, hrows, -⟩ := h.rows
  have hreached : reachedRows (moves ++ [.closed]) = reachedRows moves := by
    rw [reachedRows_append_singleton]
    exact List.append_nil _
  have hclosed := closed_close c
  constructor
  case source_eq => exact halike.source.trans h.source_eq
  case rows =>
      refine ⟨rest, by rw [hreached, hrows], fun hopen => ?_⟩
      rw [Over, hclosed] at hopen
      contradiction
  case rowsRead_eq => rw [halike.rowsRead, hreached, h.rowsRead_eq]
  case produced_eq => rw [halike.produced, halike.rowsRead, h.produced_eq]
  case exhausted_iff =>
      rw [halike.exhausted, metEnd_append_singleton, h.exhausted_iff]
      exact (or_iff_left fun hboth => absurd hboth.1 (by simp)).symm
  case closed_iff => exact iff_of_true hclosed (by simp)

end Tally

theorem fetch_of_over {c : Cursor ρ} (h : Over c) : c.fetch = (.ok none, c) :=
  if_pos h

theorem over_close (c : Cursor ρ) : Over c.close.2 := by
  rw [Over, closed_close, Bool.true_or]

def StaysFinal (moves : List (Move ρ)) : Prop :=
  moves.Pairwise fun m m' => isFinal m = true → isFinal m' = true

theorem staysFinal_append_singleton {moves : List (Move ρ)} {m : Move ρ}
    (h : StaysFinal moves) (hm : (∃ m ∈ moves, isFinal m = true) → isFinal m = true) :
    StaysFinal (moves ++ [m]) := by
  refine List.pairwise_append.mpr ⟨h, List.pairwise_singleton _ m, ?_⟩
  intro m₁ hm₁ m₂ hm₂ hfinal
  rw [List.mem_singleton.mp hm₂]
  exact hm ⟨m₁, hm₁, hfinal⟩

theorem tally_of_leads {source : Source ρ} {moves : List (Move ρ)} {s : Split} {c : Cursor ρ}
    (h : Leads (.ofSource s source) moves c) : Tally source moves c ∧ StaysFinal moves := by
  show Tally source ([] ++ moves) c ∧ StaysFinal ([] ++ moves)
  refine h.tracks (P := fun past c => Tally source past c ∧ StaysFinal past) ?_ ?_
    ⟨tally_ofSource s source, .nil⟩
  · rintro past c ⟨htally, hfinal⟩
    refine ⟨htally.fetch, staysFinal_append_singleton hfinal fun hsome => ?_⟩
    rw [fetch_of_over (htally.over_iff.mpr hsome)]
    rfl
  · rintro past c ⟨htally, hfinal⟩
    exact ⟨htally.close, staysFinal_append_singleton hfinal fun _ => rfl⟩

theorem leaveAt_ne (limit : Option Nat) (seen : Nat) (r : ρ) :
    leaveAt limit seen r ≠ .close ∧ ∀ f, leaveAt limit seen r ≠ .fails f := by
  unfold leaveAt
  split
  · exact ⟨nofun, nofun⟩
  · exact ⟨nofun, nofun⟩

theorem current_of_fetch {c c' : Cursor ρ} {r : ρ} (h : c.fetch = (.ok (some r), c')) :
    c'.current = .ok r := by
  have hfetched := fetched_fetch c
  rw [h] at hfetched
  cases hfetched with
  | row _ _ => rfl

theorem advance_of_over {c : Cursor ρ} (h : Over c) : c.advance = (.ok false, c) := by
  simp only [Cursor.advance, fetch_of_over h]
  rfl

/-- How a cursor on a split is started. Without a partition set the executor is not asked,
else it is asked once, and nothing is done after what it does itself but a report. -/
structure Starts (execute : Executor ρ) (s : Split) : Prop where
  unassigned : s.partitionSet.getD "" = "" →
    Cursor.start execute s = .fail (.unassignedSplit s)
  asked_once : ∀ p, s.partitionSet = some p → p ≠ "" →
    (Cursor.start execute s).actions =
      .execute s.range p :: (execute s.range p).actions ++
        match (Cursor.start execute s).outcome with
        | .ok _ => [.report (.opened s)]
        | .error _ => []

theorem starts (execute : Executor ρ) (s : Split) : Starts execute s := by
  constructor
  case unassigned =>
      intro hset
      unfold Cursor.start
      split
      · rfl
      · rfl
      · rename_i p hne heq
        rw [heq, Option.getD_some] at hset
        exact absurd hset hne
  case asked_once =>
      intro p hset hp
      rw [start_of_assigned hset hp, Run.bind_of_ok (a := ()) rfl]
      cases hexecute : (execute s.range p).outcome with
      | error f =>
          rw [Run.bind_of_error hexecute, List.append_nil]
          rfl
      | ok source =>
          rw [Run.bind_of_ok hexecute]
          cases source.startFailure? with
          | some f => rfl
          | none => rfl

end ScanPlan.Proofs.RowsRead
