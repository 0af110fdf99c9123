import ScanPlan.Proofs.GroupSeparation

namespace ScanPlan.Proofs.GroupStarts

open ScanPlan.Alignment ScanPlan.Interval ScanPlan.Key
open ScanPlan.Proofs.AlignedSplits
open ScanPlan.Proofs.GroupBoundaries
open ScanPlan.Proofs.GroupSeparation
open ScanPlan.Proofs.IntervalTiling
open ScanPlan.Proofs.KeyOrder
open ScanPlan.Proofs.SplitCuts

/-- The first `g` bytes of a key, where zero bytes stand in for those that it lacks. -/
def groupOf (g : Nat) (k : Key) : Key :=
  k.take g ++ List.replicate (g - k.length) 0

theorem groupOf_append_zeros (g : Nat) (k : Key) (m : Nat) :
    groupOf g (k ++ List.replicate m 0) = groupOf g k := by
  have hlength : min (g - k.length) m + (g - (k.length + m)) = g - k.length := by omega
  simp only [groupOf, List.take_append, List.take_replicate, List.length_append,
    List.length_replicate, List.append_assoc, List.replicate_append_replicate, hlength]

theorem append_zeros_add (k : Key) (m n : Nat) :
    k ++ List.replicate (m + n) 0 = k ++ List.replicate m 0 ++ List.replicate n 0 := by
  rw [List.append_assoc, List.replicate_append_replicate]

theorem append_zeros_of_onBoundary {g : Nat} {e : Key} (he : OnBoundary g e) :
    e ++ List.replicate (g - e.length) 0 = groupOf g e ++ List.replicate (e.length - g) 0 := by
  rcases Nat.le_total e.length g with hle | hge
  · rw [groupOf, List.take_of_length_le hle, Nat.sub_eq_zero_of_le hle]
    exact (List.append_nil _).symm
  · rw [groupOf, Nat.sub_eq_zero_of_le hge, List.replicate_zero, List.append_nil,
      List.append_nil]
    exact he

theorem eq_append_zeros_of_lt {e e' : Key} {a b : Nat}
    (h : e ++ List.replicate a 0 = e' ++ List.replicate b 0) (hlt : e < e') :
    ∃ m, 1 ≤ m ∧ e' = e ++ List.replicate m 0 := by
  rcases List.append_eq_append_iff.mp h with ⟨t, rfl, hzeros⟩ | ⟨t, rfl, -⟩
  · obtain ⟨-, ht, -⟩ := List.append_eq_replicate_iff.mp hzeros.symm
    refine ⟨t.length, ?_, congrArg (e ++ ·) ht⟩
    apply Nat.pos_of_ne_zero
    intro hnil
    rw [List.eq_nil_of_length_eq_zero hnil, List.append_nil] at hlt
    exact List.lt_irrefl e hlt
  · rw [← List.append_nil e', List.append_assoc, append_lt_append_left_iff] at hlt
    exact absurd hlt (List.not_lt_nil _)

theorem groupOf_eq_iff {g : Nat} {e e' : Key} (he : OnBoundary g e) (he' : OnBoundary g e')
    (hlt : e < e') :
    groupOf g e = groupOf g e' ↔ ∃ m, 1 ≤ m ∧ e' = e ++ List.replicate m 0 := by
  constructor
  · intro hgroup
    have hzeros := append_zeros_of_onBoundary he
    have hzeros' := append_zeros_of_onBoundary he'
    have hboth : e ++ List.replicate (g - e.length + (e'.length - g)) 0 =
        e' ++ List.replicate (g - e'.length + (e.length - g)) 0 :=
      calc
        _ = groupOf g e ++ List.replicate (e.length - g) 0 ++
            List.replicate (e'.length - g) 0 := by rw [append_zeros_add, hzeros]
        _ = groupOf g e' ++ List.replicate (e'.length - g) 0 ++
            List.replicate (e.length - g) 0 := by
          rw [hgroup, ← append_zeros_add, Nat.add_comm, append_zeros_add]
        _ = _ := by rw [← hzeros', ← append_zeros_add]
    exact eq_append_zeros_of_lt hboth hlt
  · rintro ⟨m, -, rfl⟩
    exact (groupOf_append_zeros g e m).symm

theorem eq_append_zeros_of_mem_between {k e : Key} {m : Nat} (hle : e ≤ k)
    (hlt : k < e ++ List.replicate m 0) : ∃ n, k = e ++ List.replicate n 0 := by
  have hlow := take_le_take e.length hle
  have hhigh := take_le_take e.length (List.le_of_lt hlt)
  rw [List.take_length] at hlow
  rw [List.take_left] at hhigh
  obtain ⟨t, rfl⟩ := List.prefix_iff_eq_take.mpr (List.le_antisymm hlow hhigh)
  rw [append_lt_append_left_iff, lt_replicate_zero_iff] at hlt
  obtain ⟨n, -, rfl⟩ := hlt
  exact ⟨n, rfl⟩

section Tiled

variable {g : Nat} {bs : List Key} {start : Key} {stop : Option Key} {splits : List Split}

theorem pairwise_of_tiling (h : Tiling (Moved g bs) stop start (splits.map (·.range))) :
    splits.Pairwise fun s t => ∀ k, s.contains k = true → k < t.range.start := by
  apply (List.pairwise_map.mp h.pairwise).imp
  intro s t hlt k hk
  exact hlt k (contains_iff.mp hk)

theorem start_contained (h : Tiling (Moved g bs) stop start (splits.map (·.range))) {s : Split}
    (hs : s ∈ splits) : s.contains s.range.start = true :=
  contains_iff.mpr (h.start_mem s.range (List.mem_map.mpr ⟨s, hs, rfl⟩))

/-- How the group in which a split starts compares with that of a later split. -/
structure GroupsCompare (g : Nat) (s t : Split) : Prop where
  eq_iff : groupOf g s.range.start = groupOf g t.range.start ↔
    ∃ m, 1 ≤ m ∧ t.range.start = s.range.start ++ List.replicate m 0
  keys_of_eq : groupOf g s.range.start = groupOf g t.range.start →
    ∀ k, s.contains k = true → ∃ n, k = s.range.start ++ List.replicate n 0

theorem groupsCompare_of_tiling
    (h : Tiling (Moved g bs) stop start (splits.map (·.range))) :
    splits.tail.Pairwise (GroupsCompare g) := by
  have hpairwise := (pairwise_of_tiling h).sublist (List.tail_sublist splits)
  apply hpairwise.imp_of_mem
  intro s t hs ht hbefore
  have hlt := hbefore _ (start_contained h (List.mem_of_mem_tail hs))
  have hiff := groupOf_eq_iff (onBoundary_of_mem_tail h hs) (onBoundary_of_mem_tail h ht) hlt
  refine ⟨hiff, ?_⟩
  intro hgroup k hk
  obtain ⟨m, -, hstart⟩ := hiff.mp hgroup
  have hkt := hbefore k hk
  rw [hstart] at hkt
  exact eq_append_zeros_of_mem_between (contains_iff.mp hk).1 hkt

end Tiled

theorem later_eq_right {k l : Key} (h : k ≤ l) : later k l = l := by
  rcases List.le_iff_lt_or_eq.mp h with hlt | rfl
  · exact later_of_lt hlt
  · exact later_of_le (List.le_refl k)

theorem starts_clip_sublist (r frame : Interval) :
    ((r.clip frame).toList.map (·.start)).Sublist [later r.start frame.start] := by
  unfold Interval.clip
  split
  · exact List.nil_sublist _
  · exact List.Sublist.refl _

theorem starts_walk_sublist (g : Nat) (frame : Interval) (start : Key) (bs : List Key) :
    ((ranges (walk g frame start bs)).map (·.start)).Sublist
      (later start frame.start :: bs.filterMap (nearestGroup g)) := by
  induction bs generalizing start with
  | nil =>
      rw [walk, ranges_emit]
      exact starts_clip_sublist ⟨start, none⟩ frame
  | cons b rest ih =>
      cases hb : nearestGroup g b with
      | none =>
          rw [ranges_walk_of_none hb, ranges_emit]
          apply (starts_clip_sublist ⟨start, none⟩ frame).trans
          exact (List.nil_sublist _).cons_cons _
      | some e =>
          rw [ranges_walk_cons hb, List.filterMap_cons_some hb]
          split
          · exact (ih start).trans ((List.sublist_cons_self e _).cons_cons _)
          · rename_i hle
            rw [List.map_append]
            have hrest : ((if Before e frame.stop then ranges (walk g frame e rest)
                else []).map (·.start)).Sublist
                  (later e frame.start :: rest.filterMap (nearestGroup g)) := by
              split
              · exact ih e
              · exact List.nil_sublist _
            rcases lt_or_le frame.start e with hfe | hef
            · rw [later_of_le (List.le_of_lt hfe)] at hrest
              exact (starts_clip_sublist ⟨start, some e⟩ frame).append hrest
            · rw [clip_eq_none (r := ⟨start, some e⟩) (.inl (List.not_lt.mpr hef))]
              have hse : start ≤ frame.start :=
                List.le_trans (List.le_of_lt (List.not_le.mp hle)) hef
              rw [later_eq_right hef] at hrest
              rw [later_eq_right hse]
              exact hrest.trans ((List.sublist_cons_self e _).cons_cons _)

theorem starts_tail_sublist {x : Extent} {first : Key} {rest : List Key} {g : Nat}
    {locate : Option Locate} {splits : List Split}
    (h : (x.align (first :: rest) g locate).outcome = .ok splits) :
    (splits.tail.map (·.range.start)).Sublist (rest.filterMap (nearestGroup g)) := by
  obtain ⟨_, _, heq, hranges, -⟩ := splits_of_align h
  cases heq
  have hstarts := starts_walk_sublist g x.range first rest
  rw [← hranges, List.map_map] at hstarts
  rw [List.map_tail]
  exact hstarts.tail

theorem pairwise_length_starts {x : Extent} {first : Key} {rest : List Key} {g : Nat}
    {locate : Option Locate} {splits : List Split}
    (h : (x.align (first :: rest) g locate).outcome = .ok splits)
    (hlength : rest.Pairwise fun b b' => b'.length ≤ b.length) :
    splits.tail.Pairwise fun s t => t.range.start.length ≤ s.range.start.length := by
  have hmoved : (rest.filterMap (nearestGroup g)).Pairwise fun e e' => e'.length ≤ e.length := by
    apply List.pairwise_filterMap.mpr
    apply hlength.imp
    intro b b' hle e he e' he'
    rw [length_nearestGroup he, length_nearestGroup he']
    exact hle
  exact List.pairwise_map.mp (hmoved.sublist (starts_tail_sublist h))

/-- Two splits of an extent, neither of them the first, start in one group exactly when the
later start is the earlier one with zero bytes after it. The earlier split then holds only
keys of this form. When no boundary after the first is longer than one before it, there are
no two such splits. -/
theorem startsInOneGroup_iff {x : Extent} {first : Key} {rest : List Key}
    (hasc : (first :: rest).Pairwise (· < ·)) (g : Nat) (locate : Option Locate) :
    (Answers locate → ∃ splits, (x.align (first :: rest) g locate).outcome = .ok splits) ∧
      ∀ splits, (x.align (first :: rest) g locate).outcome = .ok splits →
        splits.tail.Pairwise (GroupsCompare g) ∧
          ((rest.Pairwise fun b b' => b'.length ≤ b.length) →
            splits.tail.Pairwise fun s t =>
              groupOf g s.range.start ≠ groupOf g t.range.start) := by
  refine ⟨exists_align (List.cons_ne_nil first rest) hasc g, ?_⟩
  intro splits h
  have hgroups : splits.tail.Pairwise (GroupsCompare g) := by
    by_cases hframe : Before x.range.start x.range.stop
    · by_cases hfirst : Before first x.range.stop
      · exact groupsCompare_of_tiling (tiling_of_align h hframe hfirst)
      · rw [eq_nil_of_align h hfirst]
        exact .nil
    · rw [tail_eq_nil_of_length_le_one (length_le_one_of_align h hframe)]
      exact .nil
  refine ⟨hgroups, ?_⟩
  intro hlength
  apply hgroups.imp₂ _ (pairwise_length_starts h hlength)
  intro s t hcompare hle hgroup
  obtain ⟨m, hm, hstart⟩ := hcompare.eq_iff.mp hgroup
  rw [hstart, List.length_append, List.length_replicate] at hle
  omega

theorem startsInOneGroup_at_05 :
    ∃ splits, (Extent.align ⟨⟨[], none⟩, 1, "p"⟩ [[], [0x05], [0x05, 0x10], [0x08]] (1 : Nat)
        none).outcome = .ok splits ∧
      splits.tail.map (·.range.start) = [[0x05], [0x05, 0x00], [0x08]] ∧
        splits.tail.Pairwise (GroupsCompare 1) := by
  have hasc : ([[], [0x05], [0x05, 0x10], [0x08]] : List Key).Pairwise (· < ·) := by decide
  have hall := (startsInOneGroup_iff (x := ⟨⟨[], none⟩, 1, "p"⟩) hasc 1 none).2
  exact ⟨_, rfl, rfl, (hall _ rfl).1⟩

/-- It does not hold that later splits all start in different groups: between the cuts `05`
and `05 00` there is a split for the key `05` alone. -/
theorem not_forall_startsApart :
    ¬ ∀ (x : Extent) (boundaries : List Key) (g : Nat) (locate : Option Locate)
      (splits : List Split), boundaries ≠ [] → boundaries.Pairwise (· < ·) →
        (x.align boundaries g locate).outcome = .ok splits →
          splits.tail.Pairwise fun s t =>
            groupOf g s.range.start ≠ groupOf g t.range.start := by
  intro hall
  have hapart := hall ⟨⟨[], none⟩, 1, "p"⟩ [[], [0x05], [0x05, 0x10]] 1 none _
    (by decide) (by decide) rfl
  exact (List.pairwise_cons.mp hapart).1 _ List.mem_cons_self rfl

end ScanPlan.Proofs.GroupStarts
