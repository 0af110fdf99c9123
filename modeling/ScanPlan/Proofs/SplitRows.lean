import ScanPlan.Proofs.RowConservation

namespace ScanPlan.Proofs.SplitRows

open ScanPlan.Reader ScanPlan.Store
open ScanPlan.Proofs.RowConservation
open ScanPlan.Proofs.SplitDelivery
open ScanPlan.Proofs.StoredRows

/-- A way to cut rows into batches of a size. It neither loses nor repeats a row, and keeps
their order. -/
structure Batching where
  cut : Nat → List Row → List (List Row)
  flatten_cut : ∀ size, 1 ≤ size → ∀ rows, (cut size rows).flatten = rows

section Loops

variable (column : String) (range : Interval)

/-- Picks from the rows of a batch, and goes on behind them unless a row stops it. -/
def pickBatch (behind : List (Item Row)) : List Row → List (Item Row)
  | [] => behind
  | row :: rest =>
      match admits column range row with
      | .error f => [.fails f]
      | .ok true => .row row :: pickBatch behind rest
      | .ok false => pickBatch behind rest

def pickBatches (behind : List (Item Row)) : List (List Row) → List (Item Row)
  | [] => behind
  | batch :: rest => pickBatch column range (pickBatches behind rest) batch

/-- Picks from the batches of each entry, one entry after the other. -/
def pickEntries (cut : List Row → List (List Row)) : List Entry → List (Item Row)
  | [] => []
  | e :: rest =>
      match e.table? with
      | none => [.fails (.directoryForTable e.path)]
      | some t => pickBatches column range (pickEntries cut rest) (cut t.rows)

variable {column range}

theorem pickBatch_eq (rows : List Row) (others : List (Except Failure Row)) :
    pickBatch column range (pick column range others) rows =
      pick column range (rows.map .ok ++ others) := by
  induction rows with
  | nil => rfl
  | cons row rows ih =>
      rw [List.map_cons, List.cons_append, pickBatch, ih]
      rfl

theorem pickBatches_eq (parts : List (List Row)) (others : List (Except Failure Row)) :
    pickBatches column range (pick column range others) parts =
      pick column range (parts.flatten.map .ok ++ others) := by
  induction parts with
  | nil => rfl
  | cons part parts ih =>
      rw [pickBatches, ih, pickBatch_eq, List.flatten_cons, List.map_append, List.append_assoc]

theorem pickEntries_eq {cut : List Row → List (List Row)} (hcut : ∀ rows, (cut rows).flatten = rows)
    (size : Nat) (entries : List Entry) :
    pickEntries column range cut entries =
      pick column range (entries.flatMap (Entry.rows size)) := by
  induction entries with
  | nil => rfl
  | cons e entries ih =>
      rw [pickEntries, ih, List.flatMap_cons, Entry.rows]
      cases e.table? with
      | none => rfl
      | some t => simp only [pickBatches_eq, hcut, flatten_batches]

end Loops

namespace Batching

/-- The executor that reads each interval from the directory of its partition set in batches
that are cut in some way. -/
def executor (b : Batching) (s : Store) (column : String) (size : Nat) : Executor Row :=
  fun range p => do
    let r ← .ofExcept (s.reader p column)
    .report (.tablesFound p r.entries.length)
    pure (.iterator (pickEntries r.keyColumn range (b.cut size) r.entries) none .succeeds)

def usual : Batching :=
  ⟨batches, fun size _ => flatten_batches size⟩

theorem executor_eq (b : Batching) {size : Nat} (hsize : 1 ≤ size) (s : Store) (column : String)
    (other : Nat) : b.executor s column size = s.executor column other := by
  funext range p
  simp only [executor, Store.executor, Reader.items, Reader.rows,
    pickEntries_eq (b.flatten_cut size hsize) other]

end Batching

theorem executor_congr (s : Store) (column : String) (size other : Nat) :
    s.executor column size = s.executor column other := by
  rw [← Batching.usual.executor_eq (Nat.le_refl 1) s column size]
  exact Batching.usual.executor_eq (Nat.le_refl 1) s column other

/-- Whether some tables are all those of a directory, each once, by ascending names. -/
structure Lists (s : Store) (l : Location) (tables : List (String × Table)) : Prop where
  mem_iff : ∀ name t, (name, t) ∈ tables ↔
    (l ++ [name], Node.table t) ∈ s.nodes ∧ name.endsWith suffix = true
  ascend : tables.Pairwise fun t u => t.1 < u.1

theorem Lists.eq {s : Store} {l : Location} {tables others : List (String × Table)}
    (h : Lists s l tables) (h' : Lists s l others) : tables = others := by
  have : Std.Antisymm fun t u : String × Table => t.1 < u.1 :=
    ⟨fun _ _ hlt hgt => absurd hlt (lt_asymm hgt)⟩
  have : Std.Irrefl fun t u : String × Table => t.1 < u.1 := ⟨fun _ => lt_irrefl _⟩
  apply h.ascend.eq_of_mem_iff h'.ascend
  rintro ⟨name, t⟩
  rw [h.mem_iff, h'.mem_iff]

theorem names_differ (s : Store) (l : Location) :
    (tablesAt s l).Pairwise fun t u => t.1 ≠ u.1 := by
  apply (List.pairwise_map.mp s.distinct).filterMap
  intro m m' hne t ht u hu hname
  obtain ⟨rfl, -⟩ := tableIn_eq_some_iff.mp ht
  obtain ⟨rfl, -⟩ := tableIn_eq_some_iff.mp hu
  exact hne (congrArg (fun name => l ++ [name]) hname)

theorem lists_inNameOrder (s : Store) (l : Location) :
    Lists s l (inNameOrder (tablesAt s l)) := by
  have hperm : (inNameOrder (tablesAt s l)).Perm (tablesAt s l) := List.mergeSort_perm _ _
  constructor
  case mem_iff =>
      intro name t
      rw [hperm.mem_iff, mem_tablesAt]
  case ascend =>
      have hsorted : (inNameOrder (tablesAt s l)).Pairwise
          fun t u => decide (t.1 ≤ u.1) = true := by
        apply List.pairwise_mergeSort
        · intro t u v htu huv
          exact decide_eq_true (le_trans (of_decide_eq_true htu) (of_decide_eq_true huv))
        · intro t u
          rw [Bool.or_eq_true, decide_eq_true_eq, decide_eq_true_eq]
          exact le_total t.1 u.1
      have hdiffer := (hperm.pairwise_iff Ne.symm).mpr (names_differ s l)
      apply hsorted.imp₂ _ hdiffer
      intro t u hle hne
      exact lt_of_le_of_ne (of_decide_eq_true hle) hne

/-- The rows of some tables whose keys a split contains, table after table. -/
def containedRows (column : String) (split : Split) (tables : List (String × Table)) :
    List Row :=
  tables.flatMap fun t => t.2.rows.filter (keyed column split.contains)

theorem shareOf_eq (s : Store) (l : Location) (column : String) (split : Split) :
    shareOf s l column split = containedRows column split (inNameOrder (tablesAt s l)) := by
  rw [shareOf, rowsOf, List.filter_flatMap]
  rfl

theorem collect_map_row {ρ : Type} (rows : List ρ) :
    Item.collect none (rows.map .row) = (rows, none) := by
  induction rows with
  | nil => rfl
  | cons r rows ih =>
      simp [Item.collect, ih]

theorem readAll_iteratorOf {ρ : Type} (rows : List ρ) : (iteratorOf rows).readAll = .ok rows := by
  simp only [Source.readAll, iteratorOf, Source.startFailure?, Source.items, collect_map_row]

/-- For a split an executor reads the rows whose keys the split contains, each as often as it is
stored, by ascending names of the tables and then in stored order. The batches in which the
tables come make no difference to anything that it does. -/
theorem reads_contained_rows {s : Store} {p column : String} {l : Location}
    (h : Holds s p l column) (split : Split) :
    ∃ tables, Lists s l tables ∧ ∀ size, 1 ≤ size →
      (∃ source, (s.executor column size split.range p).outcome = .ok source ∧
        source.readAll = .ok (containedRows column split tables)) ∧
      (∀ other, 1 ≤ other → s.executor column other = s.executor column size) ∧
      ∀ (b : Batching) other, 1 ≤ other → b.executor s column other = s.executor column size := by
  refine ⟨_, lists_inNameOrder s l, ?_⟩
  intro size _
  refine ⟨⟨_, outcome_executor h size split.range, ?_⟩, ?_, ?_⟩
  · rw [← shareOf_eq]
    exact readAll_iteratorOf (shareOf s l column split)
  · intro other _
    exact executor_congr s column other size
  · intro b other hother
    exact b.executor_eq hother s column size

def namedTables : List (String × Table) :=
  [("a.parquet", ⟨["key", "n"], [[.key [0x01, 0x07], .integer 3],
    [.key [0x03, 0xFF], .integer 1], [.key [0x04], .integer 4]]⟩),
  ("b.parquet", ⟨["key", "n"], [[.key [0x03, 0xFF], .integer 1],
    [.key [0x00, 0x30], .integer 2]]⟩)]

theorem lists_namedTables : Lists twoTables ["p"] namedTables where
  mem_iff := by
    intro name t
    have hstored : tablesAt twoTables ["p"] = namedTables.reverse := by decide +kernel
    rw [← mem_tablesAt, hstored, List.mem_reverse]
  ascend := by decide +kernel

theorem reads_contained_rows_twoTables :
    ∃ source, (twoTables.executor "key" 2 ⟨[0x01, 0x07], some [0x04]⟩ "p").outcome = .ok source ∧
      source.readAll = .ok [[("key", .key [0x01, 0x07]), ("n", .integer 3)],
        [("key", .key [0x03, 0xFF]), ("n", .integer 1)],
        [("key", .key [0x03, 0xFF]), ("n", .integer 1)]] := by
  obtain ⟨tables, hlists, hreads⟩ := reads_contained_rows holds_twoTables
    ⟨none, some "p", ⟨[0x01, 0x07], some [0x04]⟩⟩
  obtain ⟨⟨source, hsource, hrows⟩, -, -⟩ := hreads 2 (by decide)
  refine ⟨source, hsource, ?_⟩
  rw [hrows, hlists.eq lists_namedTables]
  decide +kernel

end ScanPlan.Proofs.SplitRows
