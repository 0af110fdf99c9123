namespace ScanPlan.Named

variable {κ α : Type} [BEq κ]

/-- Puts a value under a name: in its place when the name is there, else at the
end. -/
def put (name : κ) (a : α) : List (κ × α) → List (κ × α)
  | [] => [(name, a)]
  | e :: rest => if e.1 == name then (name, a) :: rest else e :: put name a rest

def ofList (es : List (κ × α)) : List (κ × α) :=
  es.foldl (fun kept e => put e.1 e.2 kept) []

variable [LawfulBEq κ]

theorem put_of_not_mem {name : κ} {a : α} {es : List (κ × α)} (h : name ∉ es.map (·.1)) :
    put name a es = es ++ [(name, a)] := by
  induction es with
  | nil => rfl
  | cons e es ih =>
      simp only [List.map_cons, List.mem_cons, not_or] at h
      have hne : (e.1 == name) = false := by simpa using Ne.symm h.1
      simp [put, hne, ih h.2]

theorem map_fst_put (name : κ) (a : α) (es : List (κ × α)) :
    (put name a es).map (·.1) =
      if name ∈ es.map (·.1) then es.map (·.1) else es.map (·.1) ++ [name] := by
  induction es with
  | nil => simp [put]
  | cons e es ih =>
      by_cases he : e.1 = name
      · simp [put, he]
      · have hne : (e.1 == name) = false := by simpa using he
        simp only [put, hne, Bool.false_eq_true, if_false, List.map_cons, ih, List.mem_cons,
          Ne.symm he, false_or]
        split <;> rfl

theorem nodup_put {name : κ} {a : α} {es : List (κ × α)} (h : (es.map (·.1)).Nodup) :
    ((put name a es).map (·.1)).Nodup := by
  rw [map_fst_put]
  split
  · exact h
  · rename_i hn
    exact List.nodup_append.mpr ⟨h, by simp, fun x hx y hy => by
      rintro rfl
      exact hn ((List.mem_singleton.mp hy) ▸ hx)⟩

theorem lookup_put_self (name : κ) (a : α) (es : List (κ × α)) :
    (put name a es).lookup name = some a := by
  induction es with
  | nil => simp [put]
  | cons e es ih =>
      obtain ⟨n, b⟩ := e
      by_cases hn : n = name
      · simp [put, hn]
      · have hne : (n == name) = false := by simpa using hn
        have hne' : (name == n) = false := by simpa using Ne.symm hn
        simp [put, hne, List.lookup_cons, hne', ih]

theorem lookup_put_of_ne {name other : κ} (a : α) (es : List (κ × α)) (h : other ≠ name) :
    (put name a es).lookup other = es.lookup other := by
  have ho : (other == name) = false := by simpa using h
  induction es with
  | nil => simp [put, List.lookup_cons, ho]
  | cons e es ih =>
      obtain ⟨n, b⟩ := e
      by_cases hn : n = name
      · subst hn
        simp [put, List.lookup_cons, ho]
      · have hne : (n == name) = false := by simpa using hn
        simp [put, hne, List.lookup_cons, ih]

theorem ofList_of_nodup {es : List (κ × α)} (h : (es.map (·.1)).Nodup) : ofList es = es := by
  suffices hs : ∀ (es kept : List (κ × α)), ((kept ++ es).map (·.1)).Nodup →
      es.foldl (fun kept e => put e.1 e.2 kept) kept = kept ++ es from by
    simpa [ofList] using hs es [] (by simpa using h)
  intro es
  induction es with
  | nil => simp
  | cons e es ih =>
      intro kept hk
      have hn : e.1 ∉ kept.map (·.1) := by
        simp only [List.map_append, List.map_cons] at hk
        intro hm
        exact (List.nodup_append.mp hk).2.2 _ hm _ List.mem_cons_self rfl
      rw [List.foldl_cons, put_of_not_mem hn, ih _ (by simpa using hk)]
      simp

end ScanPlan.Named
