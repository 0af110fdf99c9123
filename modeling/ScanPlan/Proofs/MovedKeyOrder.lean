import ScanPlan.Proofs.ExtentKeys
import ScanPlan.Proofs.GroupRounding
import ScanPlan.Proofs.GroupStarts

namespace ScanPlan.Proofs.MovedKeyOrder

open ScanPlan.Alignment ScanPlan.Key
open ScanPlan.Proofs.AlignedSplits
open ScanPlan.Proofs.ExtentKeys
open ScanPlan.Proofs.GroupBoundaries
open ScanPlan.Proofs.GroupRounding
open ScanPlan.Proofs.GroupStarts
open ScanPlan.Proofs.KeyOrder
open ScanPlan.Proofs.KeyValue
open ScanPlan.Proofs.SplitCuts

theorem onBoundary_append_zeros_of_length_le {g : Nat} {k : Key} (h : k.length ≤ g) (m : Nat) :
    OnBoundary g (k ++ List.replicate m 0) := by
  have hzeros : min (g - k.length) m + (k.length + m - g) = m := by omega
  rw [OnBoundary, List.take_append, List.take_of_length_le h, List.take_replicate,
    List.length_append, List.length_replicate, List.append_assoc,
    List.replicate_append_replicate, hzeros]

theorem nearestGroup_append_zeros (g : Nat) (k : Key) (m : Nat) :
    nearestGroup g (k ++ List.replicate m 0) =
      (nearestGroup g k).map (· ++ List.replicate m 0) := by
  rcases Nat.lt_or_ge g k.length with hlong | hshort
  · have hlong' : g < (k ++ List.replicate m 0).length :=
      Nat.lt_of_lt_of_le hlong (List.length_append ▸ Nat.le_add_right _ _)
    have hzeros : (k ++ List.replicate m 0).length - g = k.length - g + m := by
      rw [List.length_append, List.length_replicate]
      omega
    rw [nearestGroup_of_lt hlong', nearestGroup_of_lt hlong, hzeros,
      List.getElem_append_left hlong, List.take_append_of_le_length (Nat.le_of_lt hlong)]
    split
    · rw [Option.map_some, append_zeros_add]
    · rw [Option.map_map]
      congr 1
      funext p
      exact append_zeros_add p _ _
  · rw [nearestGroup_of_length_le hshort, Option.map_some,
      nearestGroup_of_onBoundary (onBoundary_append_zeros_of_length_le hshort m)]

theorem filled_cons (n : Nat) (b : UInt8) (k : Key) :
    filled (n + 1) (b :: k) = b :: filled n k := by
  rw [filled, List.length_cons, Nat.add_sub_add_right, List.cons_append, filled]

theorem filled_le_filled {n : Nat} {k l : Key} (hle : k ≤ l) (hk : k.length ≤ n)
    (hl : l.length ≤ n) : filled n k ≤ filled n l := by
  induction k generalizing l n with
  | nil =>
      have hzeros := replicate_zero_le (filled n l)
      rwa [length_filled hl] at hzeros
  | cons b k ih =>
      cases l with
      | nil => simp at hle
      | cons c l =>
          cases n with
          | zero => contradiction
          | succ n =>
              rw [filled_cons, filled_cons, List.cons_le_cons_iff]
              rcases List.cons_le_cons_iff.mp hle with hlt | ⟨rfl, hle'⟩
              · exact .inl hlt
              · exact .inr ⟨rfl, ih hle' (Nat.le_of_succ_le_succ hk) (Nat.le_of_succ_le_succ hl)⟩

theorem nearestGroup_filled {g n : Nat} {k e : Key} (h : nearestGroup g k = some e) :
    nearestGroup g (filled n k) = some (filled n e) := by
  rw [filled, nearestGroup_append_zeros, h, filled, length_nearestGroup h]
  rfl

theorem nearestGroup_le_of_length_eq {g : Nat} {k l e f : Key} (hlength : k.length = l.length)
    (hle : k ≤ l) (he : nearestGroup g k = some e) (hf : nearestGroup g l = some f) :
    e ≤ f := by
  rcases Nat.lt_or_ge g k.length with hlong | hshort
  · have hlength' : e.length = f.length := by
      rw [length_nearestGroup he, length_nearestGroup hf, hlength]
    rw [le_iff_value_le hlength', value_nearestGroup hlong he,
      value_nearestGroup (hlength ▸ hlong) hf, groupSize_congr hlength]
    exact roundHalfUp_mono _ ((le_iff_value_le hlength).mp hle)
  · rw [nearestGroup_of_length_le hshort] at he
    rw [nearestGroup_of_length_le (hlength ▸ hshort)] at hf
    rw [← Option.some.inj he, ← Option.some.inj hf]
    exact hle

theorem le_or_eq_append_zeros_of_filled_le {n : Nat} {e f : Key} (he : e.length ≤ n)
    (hf : f.length ≤ n) (h : filled n e ≤ filled n f) :
    e ≤ f ∨ ∃ m, 1 ≤ m ∧ e = f ++ List.replicate m 0 := by
  rcases lt_or_le f e with hlt | hle
  · have hback := filled_le_filled (List.le_of_lt hlt) hf he
    exact .inr (eq_append_zeros_of_lt (List.le_antisymm hback h) hlt)
  · exact .inl hle

/-- Keys keep their order when they are moved, up to zero bytes at the end. -/
theorem le_or_eq_append_zeros_of_le {g : Nat} {k l e f : Key} (hle : k ≤ l)
    (he : nearestGroup g k = some e) (hf : nearestGroup g l = some f) :
    e ≤ f ∨ ∃ m, 1 ≤ m ∧ e = f ++ List.replicate m 0 := by
  obtain ⟨n, hk, hl⟩ : ∃ n, k.length ≤ n ∧ l.length ≤ n :=
    ⟨max k.length l.length, Nat.le_max_left _ _, Nat.le_max_right _ _⟩
  have hfilled : filled n e ≤ filled n f := by
    apply nearestGroup_le_of_length_eq _ (filled_le_filled hle hk hl)
      (nearestGroup_filled he) (nearestGroup_filled hf)
    rw [length_filled hk, length_filled hl]
  rw [← length_nearestGroup he] at hk
  rw [← length_nearestGroup hf] at hl
  exact le_or_eq_append_zeros_of_filled_le hk hl hfilled

theorem collapsed_not_mem_emit (frame candidate : Interval) (start b : Key) :
    .collapsed start b ∉ emit frame candidate := by
  unfold emit
  split
  · exact List.not_mem_nil
  · simp

theorem dropped_of_mem_walk {g : Nat} {frame : Interval} {first start b : Key} {bs : List Key}
    (h : .collapsed start b ∈ walk g frame first bs) :
    ∃ f before after, nearestGroup g b = some f ∧ f ≤ start ∧ bs = before ++ b :: after ∧
      (start = first ∨ Moved g before start) := by
  induction bs generalizing first with
  | nil => exact absurd h (collapsed_not_mem_emit _ _ _ _)
  | cons c rest ih =>
      rw [walk] at h
      split at h
      · exact absurd h (collapsed_not_mem_emit _ _ _ _)
      · rename_i e he
        split at h
        · rename_i hle
          rcases List.mem_cons.mp h with heq | hmem
          · cases heq
            exact ⟨e, [], rest, he, hle, rfl, .inl rfl⟩
          · obtain ⟨f, before, after, hf, hfs, rfl, hstart⟩ := ih hmem
            exact ⟨f, c :: before, after, hf, hfs, rfl, hstart.imp_right moved_cons⟩
        · rcases List.mem_append.mp h with hmem | hmem
          · exact absurd hmem (collapsed_not_mem_emit _ _ _ _)
          · split at hmem
            · contradiction
            · obtain ⟨f, before, after, hf, hfs, rfl, hstart⟩ := ih hmem
              refine ⟨f, c :: before, after, hf, hfs, rfl, .inr ?_⟩
              rcases hstart with rfl | hmoved
              · exact ⟨c, List.mem_cons_self, he⟩
              · exact moved_cons hmoved

theorem collapsed_of_mem_assign {p : String} {locate : Option Locate} {steps : List Step}
    {start b : Key} (h : .report (.collapsed start b) ∈ (assign p locate steps).actions) :
    .collapsed start b ∈ steps := by
  induction steps with
  | nil => contradiction
  | cons step rest ih =>
      cases step with
      | collapsed start' b' =>
          rcases Run.mem_actions_bind h with hreport | ⟨_, -, hrest⟩
          · cases List.mem_singleton.mp hreport
            exact List.mem_cons_self
          · exact List.mem_cons_of_mem _ (ih hrest)
      | cut r =>
          rcases Run.mem_actions_bind h with hhost | ⟨host, -, hgo⟩
          · cases locate with
            | none => contradiction
            | some f => cases List.mem_singleton.mp hhost
          · rcases Run.mem_actions_bind hgo with hrest | ⟨_, -, hlast⟩
            · exact List.mem_cons_of_mem _ (ih hrest)
            · contradiction

theorem collapsed_of_mem_align {x : Extent} {first : Key} {rest : List Key} {g : Nat}
    {locate : Option Locate} {start b : Key}
    (h : .report (.collapsed start b) ∈ (x.align (first :: rest) g locate).actions) :
    (first :: rest).Pairwise (· < ·) ∧ .collapsed start b ∈ walk g x.range first rest := by
  unfold Extent.align at h
  split at h
  · contradiction
  · rename_i p hp
    have hp' := Partitioning.boundaries_of_ofList? hp
    rw [Partitioning.boundaries, List.cons.injEq] at hp'
    obtain ⟨rfl, rfl⟩ := hp'
    refine ⟨p.ascending, ?_⟩
    rcases Run.mem_actions_bind h with huncovered | ⟨_, -, h⟩
    · unfold Extent.reportUncovered at huncovered
      split at huncovered
      · contradiction
      · cases List.mem_singleton.mp huncovered
    · rcases Run.mem_actions_bind h with hsteps | ⟨steps, hsteps, h⟩
      · contradiction
      · rw [Run.outcome_ofExcept, outcome_steps?] at hsteps
        cases hsteps
        rcases Run.mem_actions_bind h with hassign | ⟨splits, -, h⟩
        · exact collapsed_of_mem_assign hassign
        · rcases Run.mem_actions_bind h with hreport | ⟨_, -, hlast⟩
          · cases List.mem_singleton.mp hreport
          · contradiction

/-- Moving keys keeps their order up to zero bytes at the end, and a key without a group
boundary near it has none after it that has one. So when the boundaries of a table are cut in
order, one that is dropped at the cut of another denotes the same point up to such bytes. -/
theorem nearestGroup_order (g : Nat) :
    (∀ k l, k ≤ l → nearestGroup g k = none → nearestGroup g l = none) ∧
      (∀ k l e f, k ≤ l → nearestGroup g k = some e → nearestGroup g l = some f →
        e ≤ f ∨ ∃ m, 1 ≤ m ∧ e = f ++ List.replicate m 0) ∧
      ∀ (x : Extent) (first : Key) (rest : List Key) (locate : Option Locate) (start b : Key),
        .report (.collapsed start b) ∈ (x.align (first :: rest) g locate).actions →
          ∃ f, nearestGroup g b = some f ∧ f ≤ start ∧
            (start = first ∨ ∃ c ∈ rest, c < b ∧ nearestGroup g c = some start ∧
              ∃ m, start = f ++ List.replicate m 0) := by
  refine ⟨fun _ _ => nearestGroup_eq_none_of_le, fun _ _ _ _ => le_or_eq_append_zeros_of_le, ?_⟩
  intro x first rest locate start b h
  obtain ⟨hasc, hmem⟩ := collapsed_of_mem_align h
  obtain ⟨f, before, after, hf, hle, rfl, hstart⟩ := dropped_of_mem_walk hmem
  refine ⟨f, hf, hle, hstart.imp_right ?_⟩
  rintro ⟨c, hc, hcut⟩
  have hlt : c < b :=
    (List.pairwise_append.mp (List.pairwise_cons.mp hasc).2).2.2 c hc b List.mem_cons_self
  refine ⟨c, List.mem_append_left _ hc, hlt, hcut, ?_⟩
  rcases le_or_eq_append_zeros_of_le (List.le_of_lt hlt) hcut hf with hge | ⟨m, -, heq⟩
  · exact ⟨0, (List.le_antisymm hge hle).trans (List.append_nil f).symm⟩
  · exact ⟨m, heq⟩

theorem nearestGroup_order_at_0500 :
    (∃ m, 1 ≤ m ∧ ([0x05, 0x00] : Key) = [0x05] ++ List.replicate m 0) ∧
      nearestGroup 1 [0xFF, 0x90, 0x01] = none ∧
      ∃ c ∈ [[0x04, 0x90], [0x05], [0x06]], c < [0x05] ∧
        nearestGroup 1 c = some [0x05, 0x00] := by
  obtain ⟨hnone, horder, hdropped⟩ := nearestGroup_order 1
  have hcut : nearestGroup 1 [0x04, 0x90] = some [0x05, 0x00] := rfl
  have hkept : nearestGroup 1 [0x05] = some [0x05] := rfl
  obtain ⟨_, -, -, hstart⟩ := hdropped ⟨⟨[], none⟩, 1, "p"⟩ [] [[0x04, 0x90], [0x05], [0x06]]
    none [0x05, 0x00] [0x05] (by decide)
  obtain ⟨c, hc, hlt, hc', -⟩ := hstart.resolve_left (by decide)
  refine ⟨?_, hnone [0xFF, 0x90] _ (by decide) rfl, c, hc, hlt, hc'⟩
  exact (horder _ _ _ _ (by decide) hcut hkept).resolve_left (by decide)

end ScanPlan.Proofs.MovedKeyOrder
