import ScanPlan.Failure

namespace ScanPlan

/-- Texts by index, where indexes can be left out. -/
structure Parameters where
  entries : List (Int × String)
  ascending : entries.Pairwise (·.1 < ·.1)
  deriving DecidableEq, Repr

namespace Parameters

def empty : Parameters :=
  ⟨[], .nil⟩

def insertEntry (i : Int) (s : String) : List (Int × String) → List (Int × String)
  | [] => [(i, s)]
  | (j, t) :: rest =>
      if i < j then (i, s) :: (j, t) :: rest
      else if i = j then (i, s) :: rest
      else (j, t) :: insertEntry i s rest

theorem mem_insertEntry {i : Int} {s : String} {es : List (Int × String)} {e : Int × String}
    (h : e ∈ insertEntry i s es) : e = (i, s) ∨ e ∈ es := by
  induction es with
  | nil => simpa [insertEntry] using h
  | cons f es ih =>
      obtain ⟨j, t⟩ := f
      simp only [insertEntry] at h
      split at h
      · simpa using h
      · split at h
        · rcases List.mem_cons.mp h with h | h
          · exact .inl h
          · exact .inr (List.mem_cons_of_mem _ h)
        · rcases List.mem_cons.mp h with h | h
          · exact .inr (h ▸ List.mem_cons_self)
          · exact (ih h).imp_right (List.mem_cons_of_mem _)

theorem pairwise_insertEntry {i : Int} {s : String} {es : List (Int × String)}
    (h : es.Pairwise (·.1 < ·.1)) : (insertEntry i s es).Pairwise (·.1 < ·.1) := by
  induction es with
  | nil => simp [insertEntry]
  | cons f es ih =>
      obtain ⟨j, t⟩ := f
      obtain ⟨hj, hes⟩ := List.pairwise_cons.mp h
      simp only [insertEntry]
      split
      · rename_i hlt
        refine List.pairwise_cons.mpr ⟨fun e he => ?_, h⟩
        rcases List.mem_cons.mp he with rfl | he
        · exact hlt
        · exact Int.lt_trans hlt (hj e he)
      · split
        · rename_i heq
          subst heq
          exact List.pairwise_cons.mpr ⟨hj, hes⟩
        · refine List.pairwise_cons.mpr ⟨fun e he => ?_, ih hes⟩
          rcases mem_insertEntry he with rfl | he
          · simp only
            omega
          · exact hj e he

def insert (ps : Parameters) (i : Int) (s : String) : Parameters :=
  ⟨insertEntry i s ps.entries, pairwise_insertEntry ps.ascending⟩

def ofList (es : List (Int × String)) : Parameters :=
  es.foldl (fun ps e => ps.insert e.1 e.2) empty

def get? (ps : Parameters) (i : Int) : Option String :=
  ps.entries.lookup i

def count (ps : Parameters) : Int :=
  match ps.entries.getLast? with
  | none => 0
  | some e => e.1 + 1

def ordered (ps : Parameters) : List (Option String) :=
  (List.range ps.count.toNat).map fun i : Nat => ps.get? i

/-- Puts a value at an index. The index has to be non-negative, which is checked
first, and the value a text. -/
def set (ps : Parameters) (i : Int) (v : Value) : Except Failure Parameters :=
  if i < 0 then .error (.negativeParameter i) else
  match v with
  | .text s => .ok (ps.insert i s)
  | .other kind => .error (.parameterNotText i kind)

end Parameters

end ScanPlan
