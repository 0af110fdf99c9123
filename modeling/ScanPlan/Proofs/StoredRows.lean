import Mathlib.Data.List.Basic
import ScanPlan.Store

namespace ScanPlan.Proofs.StoredRows

open ScanPlan.Interval ScanPlan.Reader ScanPlan.Store

def keyIn (column : String) (row : Row) : Option Key :=
  match row.lookup column with
  | some (.key k) => some k
  | _ => none

/-- Whether the key of a row has a property. A row without a key has none. -/
def keyed (column : String) (p : Key → Bool) (row : Row) : Bool :=
  (keyIn column row).any p

theorem keyed_iff {column : String} {p : Key → Bool} {row : Row} :
    keyed column p row = true ↔ ∃ k, keyIn column row = some k ∧ p k = true := by
  rw [keyed, Option.any_eq_true]

theorem lookup_of_keyIn {column : String} {row : Row} {k : Key}
    (h : keyIn column row = some k) : row.lookup column = some (.key k) := by
  unfold keyIn at h
  split at h
  · rename_i k' hk'
    cases h
    exact hk'
  · contradiction

theorem picks_eq_contains (range : Interval) (k : Key) : picks range k = range.contains k := by
  obtain ⟨start, stop⟩ := range
  unfold picks contains
  split
  · rfl
  · cases stop with
    | none => rfl
    | some e =>
        rw [endsBy, ← decide_not]
        exact decide_eq_decide.mpr List.not_le

theorem admits_of_keyIn {column : String} {row : Row} {k : Key}
    (h : keyIn column row = some k) (range : Interval) :
    admits column range row = .ok (range.contains k) := by
  simp only [admits, lookup_of_keyIn h, picks_eq_contains]

theorem pick_map_ok {column : String} {rows : List Row}
    (h : ∀ row ∈ rows, ∃ k, keyIn column row = some k) (range : Interval) :
    pick column range (rows.map .ok) =
      (rows.filter (keyed column range.contains)).map .row := by
  induction rows with
  | nil => rfl
  | cons row rows ih =>
      obtain ⟨k, hk⟩ := h row List.mem_cons_self
      have hrest := ih fun r hr => h r (List.mem_cons_of_mem row hr)
      have hkeyed : keyed column range.contains row = range.contains k := by
        rw [keyed, hk, Option.any_some]
      rw [List.map_cons, pick, admits_of_keyIn hk]
      cases hc : range.contains k with
      | false =>
          rw [hc] at hkeyed
          rw [List.filter_cons_of_neg (by simp [hkeyed])]
          exact hrest
      | true =>
          rw [hc] at hkeyed
          rw [List.filter_cons_of_pos hkeyed, List.map_cons]
          exact congrArg (Item.row row :: ·) hrest

/-- The table that a node is, with its name, when it lies directly in a directory under
the name of a table. -/
def tableIn (l : Location) (node : Location × Node) : Option (String × Table) :=
  match nameIn l node.1, node.2 with
  | some name, .table t => if name.endsWith suffix then some (name, t) else none
  | _, _ => none

def tablesAt (s : Store) (l : Location) : List (String × Table) :=
  s.nodes.filterMap (tableIn l)

def inNameOrder (tables : List (String × Table)) : List (String × Table) :=
  tables.mergeSort fun t u => decide (t.1 ≤ u.1)

def rowsOf (tables : List (String × Table)) : List Row :=
  tables.flatMap fun t => t.2.rows

def rowsAt (s : Store) (l : Location) : List Row :=
  rowsOf (tablesAt s l)

theorem nameIn_eq_some_iff {directory l : Location} {name : String} :
    nameIn directory l = some name ↔ l = directory ++ [name] := by
  constructor
  · intro h
    unfold nameIn at h
    split at h
    · rename_i n hdrop
      split at h
      · rename_i hpre
        cases h
        obtain ⟨rest, rfl⟩ := List.isPrefixOf_iff_prefix.mp hpre
        rw [List.drop_left] at hdrop
        rw [hdrop]
      · contradiction
    · contradiction
  · rintro rfl
    simp [nameIn]

theorem tableIn_eq_some_iff {l : Location} {node : Location × Node} {name : String} {t : Table} :
    tableIn l node = some (name, t) ↔
      node = (l ++ [name], .table t) ∧ name.endsWith suffix = true := by
  obtain ⟨m, n⟩ := node
  constructor
  · intro h
    unfold tableIn at h
    split at h
    · rename_i name' t' hname hnode
      split at h
      · rename_i hsuffix
        cases h
        cases hnode
        exact ⟨Prod.ext (nameIn_eq_some_iff.mp hname) rfl, hsuffix⟩
      · contradiction
    · contradiction
  · rintro ⟨hnode, hsuffix⟩
    cases hnode
    simp only [tableIn, nameIn_eq_some_iff.mpr rfl, hsuffix, if_true]

theorem mem_tablesAt {s : Store} {l : Location} {name : String} {t : Table} :
    (name, t) ∈ tablesAt s l ↔
      (l ++ [name], Node.table t) ∈ s.nodes ∧ name.endsWith suffix = true := by
  simp only [tablesAt, List.mem_filterMap, tableIn_eq_some_iff]
  constructor
  · rintro ⟨_, hmem, rfl, hsuffix⟩
    exact ⟨hmem, hsuffix⟩
  · rintro ⟨hmem, hsuffix⟩
    exact ⟨_, hmem, rfl, hsuffix⟩

theorem rowsOf_inNameOrder_perm (s : Store) (l : Location) :
    (rowsOf (inNameOrder (tablesAt s l))).Perm (rowsAt s l) :=
  (List.mergeSort_perm _ _).flatMap_right _

/-- Whether a partition set is stored in a directory: it leads there, whatever has the
name of a table there is one, and every row has a key in the key column. -/
structure Holds (s : Store) (p : String) (l : Location) (column : String) : Prop where
  place : s.resolve (.ofText p) = .ok (.inside l)
  tables : ∀ name node, (l ++ [name], node) ∈ s.nodes → name.endsWith suffix = true →
    ∃ t, node = .table t
  keys : ∀ row ∈ rowsAt s l, ∃ k, keyIn column row = some k

def entryOf (root : String) (p : Path) (t : String × Table) : Entry :=
  ⟨t.1, (p.child t.1).text root, some t.2⟩

theorem entryIn_eq_map_tableIn {s : Store} {l : Location} {node : Location × Node}
    (htables : ∀ name node, (l ++ [name], node) ∈ s.nodes → name.endsWith suffix = true →
      ∃ t, node = .table t)
    (hnode : node ∈ s.nodes) (p : Path) :
    entryIn s.root p l node = (tableIn l node).map (entryOf s.root p) := by
  obtain ⟨m, n⟩ := node
  cases hname : nameIn l m with
  | none => simp only [entryIn, tableIn, hname, Option.map_none]
  | some name =>
      cases hsuffix : name.endsWith suffix with
      | false =>
          cases n <;> simp [entryIn, tableIn, hname, hsuffix]
      | true =>
          rw [nameIn_eq_some_iff.mp hname] at hnode
          obtain ⟨t, rfl⟩ := htables name n hnode hsuffix
          simp only [entryIn, tableIn, hname, hsuffix, if_true]
          rfl

theorem entries_eq_map {s : Store} {l : Location}
    (htables : ∀ name node, (l ++ [name], node) ∈ s.nodes → name.endsWith suffix = true →
      ∃ t, node = .table t)
    (p : Path) :
    s.entries p (.inside l) = (inNameOrder (tablesAt s l)).map (entryOf s.root p) := by
  have hmap : s.nodes.filterMap (entryIn s.root p l) =
      (tablesAt s l).map (entryOf s.root p) := by
    rw [tablesAt, List.map_filterMap]
    exact List.filterMap_congr fun node hnode => entryIn_eq_map_tableIn htables hnode p
  rw [Store.entries, hmap, inNameOrder]
  symm
  apply List.map_mergeSort
  intro t _ u _
  rfl

theorem rows_entryOf (n : Nat) (root : String) (p : Path) (t : String × Table) :
    (entryOf root p t).rows n = t.2.rows.map .ok := by
  simp only [Entry.rows, entryOf, flatten_batches]

theorem rows_of_entries (n : Nat) (root column : String) (p : Path)
    (tables : List (String × Table)) :
    (Reader.rows ⟨tables.map (entryOf root p), column⟩ n) = (rowsOf tables).map .ok := by
  rw [Reader.rows, List.flatMap_map, rowsOf, List.map_flatMap]
  exact List.flatMap_congr fun t _ => rows_entryOf n root p t

theorem outcome_executor {s : Store} {p column : String} {l : Location}
    (h : Holds s p l column) (batchSize : Nat) (range : Interval) :
    (s.executor column batchSize range p).outcome =
      .ok (.iterator (((rowsOf (inNameOrder (tablesAt s l))).filter
        (keyed column range.contains)).map .row) none .succeeds) := by
  have hreader : s.reader p column =
      .ok ⟨(inNameOrder (tablesAt s l)).map (entryOf s.root (.ofText p)), column⟩ := by
    simp only [reader, h.place, entries_eq_map h.tables]
  have hkeys : ∀ row ∈ rowsOf (inNameOrder (tablesAt s l)), ∃ k, keyIn column row = some k := by
    intro row hrow
    exact h.keys row ((rowsOf_inNameOrder_perm s l).mem_iff.mp hrow)
  refine Run.outcome_bind_eq_ok.mpr ⟨_, hreader, Run.outcome_bind_eq_ok.mpr ⟨(), rfl, ?_⟩⟩
  rw [Run.outcome_pure, items, rows_of_entries, pick_map_ok hkeys]

end ScanPlan.Proofs.StoredRows
