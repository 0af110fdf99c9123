import Mathlib.Data.Option.Basic
import ScanPlan.Proofs.CursorClosing
import ScanPlan.Proofs.SplitWorker

namespace ScanPlan.Proofs.SplitOutcome

open ScanPlan.Delivery
open ScanPlan.Proofs.CursorClosing
open ScanPlan.Proofs.CursorHistory
open ScanPlan.Proofs.ResourceRelease
open ScanPlan.Proofs.RowsRead
open ScanPlan.Proofs.SplitDelivery
open ScanPlan.Proofs.SplitWorker.Worker

variable {ρ : Type} {take : Nat → ρ → Option Failure}

/-- Whether a callback that took `seen` rows before takes all of some rows. -/
def TakesAll (take : Nat → ρ → Option Failure) (seen : Nat) (rows : List ρ) : Prop :=
  ∀ i r, rows[i]? = some r → take (seen + i) r = none

/-- Whether a script gives some rows without a failure and then ends. -/
def EndsAfter (items : List (Item ρ)) (rows : List ρ) : Prop :=
  ∃ rest, items = rows.map .row ++ rest ∧ ∀ item ∈ rest.head?, item = .stop

/-- The rows of a script that a callback is given, how many of them it takes, and what
failed if not all rows up to the end were taken. -/
inductive Given (take : Nat → ρ → Option Failure) (seen : Nat) (items : List (Item ρ)) :
    List ρ → Nat → Option Failure → Prop where
  | toEnd {rows : List ρ} (hends : EndsAfter items rows) (htakes : TakesAll take seen rows) :
      Given take seen items rows rows.length none
  | toRequest {rows : List ρ} {f : Failure} {rest : List (Item ρ)}
      (hitems : items = rows.map .row ++ .fails f :: rest) (htakes : TakesAll take seen rows) :
      Given take seen items rows rows.length (some f)
  | toRow {rows : List ρ} {r : ρ} {f : Failure} {rest : List (Item ρ)}
      (hitems : items = rows.map .row ++ .row r :: rest) (htakes : TakesAll take seen rows)
      (hrefused : take (seen + rows.length) r = some f) :
      Given take seen items (rows ++ [r]) rows.length (some f)

theorem takesAll_nil (seen : Nat) : TakesAll take seen [] := by
  rintro i r hr
  simp at hr

theorem takesAll_cons {seen : Nat} {r : ρ} {rows : List ρ} (hr : take seen r = none)
    (hrows : TakesAll take (seen + 1) rows) : TakesAll take seen (r :: rows) := by
  rintro i r' hr'
  cases i with
  | zero =>
      cases hr'
      exact hr
  | succ i =>
      rw [Nat.add_comm i, ← Nat.add_assoc]
      exact hrows i r' hr'

theorem endsAfter_nil {items : List (Item ρ)} (h : ∀ item ∈ items.head?, item = .stop) :
    EndsAfter items [] :=
  ⟨items, rfl, h⟩

theorem rowsBeforeEnd_of_endsAfter {items : List (Item ρ)} {rows : List ρ}
    (h : EndsAfter items rows) : rowsBeforeEnd items = rows := by
  obtain ⟨rest, rfl, hrest⟩ := h
  induction rows with
  | nil =>
      cases rest with
      | nil => rfl
      | cons item rest =>
          rw [hrest item rfl]
          rfl
  | cons r rows ih => exact congrArg (r :: ·) ih

theorem item_of_endsAfter {items : List (Item ρ)} {before rows : List ρ} {item : Item ρ}
    {rest : List (Item ρ)} (hitems : items = before.map .row ++ item :: rest)
    (h : EndsAfter items rows) :
    item = .stop ∨ ∃ r, item = .row r ∧ rows[before.length]? = some r := by
  subst hitems
  obtain ⟨tail, heq, htail⟩ := h
  induction before generalizing rows with
  | nil =>
      cases rows with
      | nil =>
          obtain rfl : item :: rest = tail := heq
          exact .inl (htail item rfl)
      | cons r rows =>
          obtain ⟨rfl, -⟩ := List.cons_eq_cons.mp heq
          exact .inr ⟨r, rfl, rfl⟩
  | cons b before ih =>
      cases rows with
      | nil =>
          obtain rfl : Item.row b :: (before.map Item.row ++ item :: rest) = tail := heq
          exact absurd (htail (.row b) rfl) nofun
      | cons r rows => exact ih (List.cons_eq_cons.mp heq).2

namespace Given

variable {seen n : Nat} {items : List (Item ρ)} {handed rows : List ρ}
  {failure? : Option Failure}

theorem cons {r : ρ} (hr : take seen r = none)
    (h : Given take (seen + 1) items handed n failure?) :
    Given take seen (.row r :: items) (r :: handed) (n + 1) failure? := by
  cases h with
  | toEnd hends htakes =>
      obtain ⟨rest, rfl, hrest⟩ := hends
      exact .toEnd ⟨rest, rfl, hrest⟩ (takesAll_cons hr htakes)
  | toRequest hitems htakes =>
      subst hitems
      exact .toRequest rfl (takesAll_cons hr htakes)
  | @toRow rows r' f rest hitems htakes hrefused =>
      subst hitems
      have hrefused' : take (seen + (r :: rows).length) r' = some f := by
        rw [List.length_cons, Nat.add_comm rows.length, ← Nat.add_assoc]
        exact hrefused
      exact .toRow rfl (takesAll_cons hr htakes) hrefused'

theorem eq_none_of_endsAfter (h : Given take seen items handed n failure?)
    (hends : EndsAfter items rows) (htakes : TakesAll take seen rows) : failure? = none := by
  cases h with
  | toEnd _ _ => rfl
  | toRequest hitems _ =>
      rcases item_of_endsAfter hitems hends with hstop | ⟨r, hrow, -⟩
      · contradiction
      · contradiction
  | toRow hitems _ hrefused =>
      rcases item_of_endsAfter hitems hends with hstop | ⟨r, hrow, hmem⟩
      · contradiction
      · cases hrow
        rw [htakes _ _ hmem] at hrefused
        contradiction

theorem of_none (h : Given take seen items handed n none) :
    EndsAfter items handed ∧ TakesAll take seen handed ∧ n = handed.length := by
  cases h with
  | toEnd hends htakes => exact ⟨hends, htakes, rfl⟩

end Given

section Reading

variable {c : Cursor ρ} {rest : List (Item ρ)}

theorem fetch_of_end (hopen : ¬ Over c) (h : ∀ item ∈ c.supply.pending.head?, item = .stop) :
    ∃ c', c.fetch = (.ok none, c') := by
  rw [Over] at hopen
  rw [Cursor.fetch, if_neg hopen, Supply.request]
  cases hpending : c.supply.pending with
  | nil => exact ⟨_, rfl⟩
  | cons item rest =>
      rw [hpending] at h
      obtain rfl := h item rfl
      exact ⟨_, rfl⟩

theorem fetch_of_failure {f : Failure} (hopen : ¬ Over c)
    (h : c.supply.pending = .fails f :: rest) : ∃ c', c.fetch = (.error f, c') := by
  rw [Over] at hopen
  rw [Cursor.fetch, if_neg hopen, Supply.request, h]
  exact ⟨_, rfl⟩

theorem fetch_of_row {r : ρ} (hopen : ¬ Over c) (h : c.supply.pending = .row r :: rest) :
    ∃ c', c.fetch = (.ok (some r), c') ∧ ¬ Over c' ∧ c'.supply.pending = rest := by
  rw [Over] at hopen
  rw [Cursor.fetch, if_neg hopen, Supply.request, h]
  exact ⟨_, rfl, hopen, rfl⟩

theorem given_each {items : List (Item ρ)} (hopen : ¬ Over c) (h : c.supply.pending = items)
    (seen : Nat) :
    Given take seen items (c.each (reaction take) seen).handed
      (c.each (reaction take) seen).handled (c.each (reaction take) seen).failure? := by
  induction items generalizing c seen with
  | nil =>
      have hend : ∀ item ∈ c.supply.pending.head?, item = .stop := by
        rw [h]
        exact nofun
      obtain ⟨c', hfetch⟩ := fetch_of_end hopen hend
      rw [Cursor.each_eq, hfetch]
      exact .toEnd (endsAfter_nil (h ▸ hend)) (takesAll_nil seen)
  | cons item rest ih =>
      cases item with
      | stop =>
          have hend : ∀ item ∈ c.supply.pending.head?, item = .stop := by
            rw [h]
            rintro _ ⟨⟩
            rfl
          obtain ⟨c', hfetch⟩ := fetch_of_end hopen hend
          rw [Cursor.each_eq, hfetch]
          exact .toEnd (endsAfter_nil (h ▸ hend)) (takesAll_nil seen)
      | fails f =>
          obtain ⟨c', hfetch⟩ := fetch_of_failure hopen h
          rw [Cursor.each_eq, hfetch]
          exact .toRequest rfl (takesAll_nil seen)
      | row r =>
          obtain ⟨c', hfetch, hopen', hpending⟩ := fetch_of_row hopen h
          rw [Cursor.each_eq, hfetch]
          rcases reaction_cases take seen r with ⟨hreaction, htakes⟩ | ⟨f, hreaction, hrefused⟩
          · simp only [hreaction]
            exact (ih hopen' hpending (seen + 1)).cons htakes
          · simp only [hreaction]
            exact .toRow rfl (takesAll_nil seen) hrefused

end Reading

def Opens (execute : Executor ρ) (s : Split) (source : Source ρ) : Prop :=
  ∃ p, s.partitionSet = some p ∧ p ≠ "" ∧ (execute s.range p).outcome = .ok source ∧
    source.startFailure? = none

/-- Why a split cannot be opened: it has no partition set, the executor fails, or the
iterator of its answer cannot be made. -/
inductive FailsToOpen (execute : Executor ρ) (s : Split) : Failure → Prop where
  | unassigned (h : s.partitionSet.getD "" = "") : FailsToOpen execute s (.unassignedSplit s)
  | execution {p : String} {f : Failure} (hset : s.partitionSet = some p) (hp : p ≠ "")
      (h : (execute s.range p).outcome = .error f) : FailsToOpen execute s f
  | iterator {p : String} {source : Source ρ} {f : Failure} (hset : s.partitionSet = some p)
      (hp : p ≠ "") (hexecute : (execute s.range p).outcome = .ok source)
      (h : source.startFailure? = some f) : FailsToOpen execute s f

section Opening

variable {execute : Executor ρ} {s : Split} {source : Source ρ} {f : Failure}

theorem outcome_start_of_opens (h : Opens execute s source) :
    (Cursor.start execute s).outcome = .ok (.ofSource s source) := by
  obtain ⟨p, hset, hp, hexecute, hstarts⟩ := h
  exact outcome_start hset hp hexecute hstarts

theorem outcome_start_of_failsToOpen (h : FailsToOpen execute s f) :
    (Cursor.start execute s).outcome = .error f := by
  cases h with
  | unassigned hset => rw [(starts execute s).unassigned hset, Run.outcome_fail]
  | execution hset hp hexecute =>
      rw [start_of_assigned hset hp, Run.bind_of_ok (a := ()) rfl, Run.bind_of_error hexecute]
  | iterator hset hp hexecute hstarts => rw [outcome_start_eq hset hp hexecute, hstarts]

theorem opens_or_failsToOpen (execute : Executor ρ) (s : Split) :
    (∃ source, Opens execute s source) ∨ ∃ f, FailsToOpen execute s f := by
  by_cases hset : s.partitionSet.getD "" = ""
  · exact .inr ⟨_, .unassigned hset⟩
  · cases hp : s.partitionSet with
    | none =>
        rw [hp] at hset
        exact absurd rfl hset
    | some p =>
        rw [hp] at hset
        cases hexecute : (execute s.range p).outcome with
        | error f => exact .inr ⟨f, .execution hp hset hexecute⟩
        | ok source =>
            cases hstarts : source.startFailure? with
            | some f => exact .inr ⟨f, .iterator hp hset hexecute hstarts⟩
            | none => exact .inl ⟨source, p, hp, hset, hexecute, hstarts⟩

end Opening

theorem handled_finish (p : Passage ρ) : p.finish.handled = p.handled := by
  unfold Passage.finish
  split
  · rfl
  · rfl

theorem failure?_finish {p : Passage ρ} (hopen : ¬ p.cursor.closed = true) :
    p.finish.failure? = (closingFailure? p.cursor.supply.source <|> p.failure?) := by
  have hclose := close_fst_of_open hopen
  rw [Passage.finish]
  rcases hresult : p.cursor.close with ⟨closing, c⟩
  rw [hresult] at hclose
  subst hclose
  cases closingFailure? p.cursor.supply.source with
  | some f => rfl
  | none => rfl

theorem failure?_drain (take : Nat → ρ → Option Failure) (s : Split) (source : Source ρ) :
    (drain take (.ofSource s source)).failure? = (closingFailure? source <|>
      (Cursor.each (reaction take) 0 (.ofSource s source)).failure?) := by
  have hleads := leads_each (reaction take) 0 (.ofSource s source)
  obtain ⟨htally, -⟩ := tally_of_leads hleads
  have hopen : ¬ (Cursor.each (reaction take) 0 (.ofSource s source)).cursor.closed = true := by
    rw [htally.closed_iff]
    exact closed_not_mem_eachMoves (fun _ _ => reaction_ne.2) 0 _
  rw [drain, failure?_finish hopen, htally.source_eq]

/-- How many of the calls that give rows to a callback return without a failure. -/
def callsReturned (take : Nat → ρ → Option Failure) (handed : List ρ) : Nat :=
  handed.zipIdx.countP fun call => (take call.2 call.1).isNone

/-- What the outcome of a split tells. -/
structure Settles (execute : Executor ρ) (take : Nat → ρ → Option Failure) (s : Split)
    (o : Outcome ρ) : Prop where
  split_eq : o.split = s
  rows_eq : o.rows = callsReturned take o.handed
  opens : (∃ source, Opens execute s source) ∨ ∃ f, FailsToOpen execute s f
  of_failsToOpen : ∀ f, FailsToOpen execute s f → o.handed = [] ∧ o.failure? = some f
  of_opens : ∀ source, Opens execute s source → ∃ failure?,
    Given take 0 source.items o.handed o.rows failure? ∧
      o.failure? = (closingFailure? source <|> failure?)
  failure?_eq_none_iff : o.failure? = none ↔ ∃ source rows, Opens execute s source ∧
    EndsAfter source.items rows ∧ TakesAll take 0 rows ∧ closingFailure? source = none
  rows_of_none : o.failure? = none → ∀ source, Opens execute s source →
    o.handed = rowsBeforeEnd source.items ∧ o.rows = (rowsBeforeEnd source.items).length

theorem callsReturned_of_takesAll {rows : List ρ} (h : TakesAll take 0 rows) :
    callsReturned take rows = rows.length := by
  rw [callsReturned, List.countP_eq_length.mpr, List.length_zipIdx]
  rintro ⟨r, i⟩ hcall
  have htaken := h i r (List.mem_zipIdx_iff_getElem?.mp hcall)
  rw [Nat.zero_add] at htaken
  rw [htaken]
  rfl

theorem Given.eq_callsReturned {items : List (Item ρ)} {handed : List ρ} {n : Nat}
    {failure? : Option Failure} (h : Given take 0 items handed n failure?) :
    n = callsReturned take handed := by
  cases h with
  | toEnd _ htakes => exact (callsReturned_of_takesAll htakes).symm
  | toRequest _ htakes => exact (callsReturned_of_takesAll htakes).symm
  | toRow _ htakes hrefused =>
      have hbefore := callsReturned_of_takesAll htakes
      rw [callsReturned] at hbefore
      rw [callsReturned, List.zipIdx_append, List.countP_append, hbefore]
      simp only [List.zipIdx_singleton, List.countP_singleton, hrefused, Option.isNone_some,
        Bool.false_eq_true, if_false, Nat.add_zero]

section Settles

variable {execute : Executor ρ} {s : Split}

theorem settles_unstarted {f : Failure} (h : FailsToOpen execute s f) :
    Settles execute take s (.unstarted s f) := by
  have hstart := outcome_start_of_failsToOpen h
  have hclosed : ∀ source, ¬ Opens execute s source := by
    rintro source hopens
    rw [outcome_start_of_opens hopens] at hstart
    contradiction
  constructor
  case split_eq => rfl
  case rows_eq => rfl
  case opens => exact .inr ⟨f, h⟩
  case of_failsToOpen =>
      rintro f' h'
      rw [outcome_start_of_failsToOpen h'] at hstart
      cases hstart
      exact ⟨rfl, rfl⟩
  case of_opens => exact fun source hopens => absurd hopens (hclosed source)
  case failure?_eq_none_iff =>
      apply iff_of_false
      · exact Option.some_ne_none f
      · rintro ⟨source, -, hopens, -⟩
        exact hclosed source hopens
  case rows_of_none => exact fun hnone => absurd hnone (Option.some_ne_none f)

theorem settles_ofPassage {source : Source ρ} (h : Opens execute s source) :
    Settles execute take s (.ofPassage s (drain take (.ofSource s source))) := by
  have hstart := outcome_start_of_opens h
  have hgiven : Given take 0 source.items (drain take (.ofSource s source)).handed
      (drain take (.ofSource s source)).handled
      (Cursor.each (reaction take) 0 (.ofSource s source)).failure? := by
    rw [drain, handed_finish, handled_finish]
    have hopen : ¬ Over (Cursor.ofSource s source) := Bool.false_ne_true
    exact given_each hopen rfl 0
  have hfailure := failure?_drain take s source
  have hsame : ∀ source', Opens execute s source' → source' = source := by
    rintro source' h'
    rw [outcome_start_of_opens h'] at hstart
    cases hstart
    rfl
  constructor
  case split_eq => rfl
  case rows_eq => exact hgiven.eq_callsReturned
  case opens => exact .inl ⟨source, h⟩
  case of_failsToOpen =>
      rintro f hf
      rw [outcome_start_of_failsToOpen hf] at hstart
      contradiction
  case of_opens =>
      rintro source' h'
      rw [hsame source' h']
      exact ⟨_, hgiven, hfailure⟩
  case failure?_eq_none_iff =>
      constructor
      · intro hnone
        rw [Outcome.ofPassage, hfailure, Option.orElse_eq_none] at hnone
        rw [hnone.2] at hgiven
        obtain ⟨hends, htakes, -⟩ := hgiven.of_none
        exact ⟨source, _, h, hends, htakes, hnone.1⟩
      · rintro ⟨source', rows, h', hends, htakes, hclosing⟩
        rw [hsame source' h'] at hends hclosing
        rw [Outcome.ofPassage, hfailure, hclosing, hgiven.eq_none_of_endsAfter hends htakes]
        rfl
  case rows_of_none =>
      rintro hnone source' h'
      rw [Outcome.ofPassage, hfailure, Option.orElse_eq_none] at hnone
      rw [hnone.2] at hgiven
      obtain ⟨hends, -, hcount⟩ := hgiven.of_none
      rw [hsame source' h', rowsBeforeEnd_of_endsAfter hends]
      exact ⟨rfl, hcount⟩

end Settles

/-- Every split has an outcome when it is consumed, and the outcome tells how it ended. -/
theorem exists_outcome_settles (execute : Executor ρ) (take : Nat → ρ → Option Failure)
    (s : Split) : ∃ o, (consume execute take s).outcome = .ok o ∧ Settles execute take s o := by
  rcases opens_or_failsToOpen execute s with ⟨source, h⟩ | ⟨f, h⟩
  · exact ⟨_, outcome_consume_of_start (outcome_start_of_opens h), settles_ofPassage h⟩
  · exact ⟨_, outcome_consume_of_error (outcome_start_of_failsToOpen h), settles_unstarted h⟩

theorem exists_outcome_settles_three_failures :
    ∃ o, (consume failingToClose refusingSecond wholeSplit).outcome = .ok o ∧
      o.failure? = some (.foreign .system "result") := by
  obtain ⟨o, ho, hsettles⟩ := exists_outcome_settles failingToClose refusingSecond wholeSplit
  have hopens : Opens failingToClose wholeSplit _ := ⟨"p", rfl, by decide, rfl, rfl⟩
  obtain ⟨failure?, -, hfailure⟩ := hsettles.of_opens _ hopens
  exact ⟨o, ho, hfailure⟩

end ScanPlan.Proofs.SplitOutcome
