import ScanPlan.Alignment
import ScanPlan.Proofs.GroupBoundaries
import ScanPlan.Proofs.IntervalTiling

namespace ScanPlan.Proofs.SplitCuts

open ScanPlan.Alignment ScanPlan.Interval ScanPlan.Key
open ScanPlan.Proofs.IntervalTiling
open ScanPlan.Proofs.KeyOrder

def range? : Step → Option Interval
  | .collapsed _ _ => none
  | .cut r => some r

def ranges (steps : List Step) : List Interval :=
  steps.filterMap range?

def later (k l : Key) : Key :=
  if k < l then l else k

theorem later_of_lt {k l : Key} (h : k < l) : later k l = l :=
  if_pos h

theorem later_of_le {k l : Key} (h : l ≤ k) : later k l = k :=
  if_neg (List.not_lt.mpr h)

theorem later_le_iff (k l m : Key) : later k l ≤ m ↔ k ≤ m ∧ l ≤ m := by
  unfold later
  split
  · rename_i h
    exact ⟨fun hl => ⟨List.le_trans (List.le_of_lt h) hl, hl⟩, fun hm => hm.2⟩
  · rename_i h
    exact ⟨fun hk => ⟨hk, List.le_trans (List.not_lt.mp h) hk⟩, fun hm => hm.1⟩

theorem later_lt {k l m : Key} (hk : k < m) (hl : l < m) : later k l < m := by
  unfold later
  split
  · exact hl
  · exact hk

theorem before_later {k l : Key} {stop : Option Key} (hk : Before k stop)
    (hl : Before l stop) : Before (later k l) stop := by
  unfold later
  split
  · exact hl
  · exact hk

theorem endsBy_iff (k : Key) (stop : Option Key) : endsBy k stop = true ↔ ¬ Before k stop := by
  cases stop with
  | none => simp [endsBy, Before]
  | some e => simp [endsBy, Before, List.not_lt]

theorem earlierEnd_of_before {e : Key} {stop : Option Key} (h : Before e stop) :
    earlierEnd (some e) stop = some e := by
  cases stop with
  | none => rfl
  | some f => exact if_neg (List.not_lt.mpr (List.le_of_lt h))

theorem earlierEnd_of_not_before {e : Key} {stop : Option Key} (h : ¬ Before e stop) :
    earlierEnd (some e) stop = stop := by
  cases stop with
  | none => exact absurd trivial h
  | some f =>
      have hfe : f ≤ e := List.not_lt.mp h
      simp only [earlierEnd]
      split
      · rfl
      · rename_i hnot
        rw [List.le_antisymm hfe (List.not_lt.mp hnot)]

theorem ranges_append (xs ys : List Step) : ranges (xs ++ ys) = ranges xs ++ ranges ys :=
  List.filterMap_append

theorem ranges_emit (frame candidate : Interval) :
    ranges (emit frame candidate) = (candidate.clip frame).toList := by
  unfold emit
  cases candidate.clip frame with
  | none => rfl
  | some r => rfl

theorem clip_eq_none {r frame : Interval}
    (h : ¬ Before frame.start r.stop ∨ ¬ Before r.start frame.stop) :
    r.clip frame = none := by
  rw [← endsBy_iff, ← endsBy_iff, ← Bool.or_eq_true] at h
  exact if_pos h

theorem clip_eq_some {r frame : Interval} (hstart : Before frame.start r.stop)
    (hstop : Before r.start frame.stop) :
    r.clip frame = some ⟨later r.start frame.start, earlierEnd r.stop frame.stop⟩ := by
  have h : ¬ (endsBy frame.start r.stop || endsBy r.start frame.stop) = true := by
    rw [Bool.or_eq_true, endsBy_iff, endsBy_iff]
    rintro (hnot | hnot)
    · exact hnot hstart
    · exact hnot hstop
  exact if_neg h

theorem ranges_emit_unbounded (frame : Interval) (start : Key) :
    ranges (emit frame ⟨start, none⟩) =
      if Before start frame.stop then [⟨later start frame.start, frame.stop⟩] else [] := by
  rw [ranges_emit]
  split
  · rename_i h
    rw [clip_eq_some (r := ⟨start, none⟩) trivial h]
    rfl
  · rename_i h
    rw [clip_eq_none (.inr h)]
    rfl

theorem ranges_walk_cons {g : Nat} {frame : Interval} {start b e : Key} {rest : List Key}
    (hb : nearestGroup g b = some e) :
    ranges (walk g frame start (b :: rest)) =
      if e ≤ start then ranges (walk g frame start rest)
      else (Interval.clip ⟨start, some e⟩ frame).toList ++
        if Before e frame.stop then ranges (walk g frame e rest) else [] := by
  simp only [walk, hb]
  split
  · rfl
  · rw [ranges_append, ranges_emit]
    congr 1
    by_cases he : Before e frame.stop
    · have hnot : ¬ endsBy e frame.stop = true :=
        fun hends => (endsBy_iff e frame.stop).mp hends he
      rw [if_neg hnot, if_pos he]
    · rw [if_pos ((endsBy_iff _ _).mpr he), if_neg he]
      rfl

theorem ranges_walk_of_none {g : Nat} {frame : Interval} {start b : Key} {rest : List Key}
    (hb : nearestGroup g b = none) :
    ranges (walk g frame start (b :: rest)) = ranges (emit frame ⟨start, none⟩) := by
  simp only [walk, hb]

theorem ranges_walk_of_not_before {g : Nat} {frame : Interval} {start : Key}
    (h : ¬ Before start frame.stop) (bs : List Key) :
    ranges (walk g frame start bs) = [] := by
  induction bs with
  | nil =>
      rw [walk, ranges_emit_unbounded, if_neg h]
  | cons b rest ih =>
      cases hb : nearestGroup g b with
      | none => rw [ranges_walk_of_none hb, ranges_emit_unbounded, if_neg h]
      | some e =>
          rw [ranges_walk_cons hb, clip_eq_none (.inr h)]
          split
          · exact ih
          · rename_i hlt
            have he : ¬ Before e frame.stop :=
              fun hbe => h (before_of_lt (List.not_le.mp hlt) hbe)
            rw [if_neg he]
            rfl

def Moved (g : Nat) (bs : List Key) (e : Key) : Prop :=
  ∃ b ∈ bs, nearestGroup g b = some e

theorem moved_cons {g : Nat} {b : Key} {bs : List Key} {e : Key} (h : Moved g bs e) :
    Moved g (b :: bs) e := by
  obtain ⟨b', hb', he⟩ := h
  exact ⟨b', List.mem_cons_of_mem b hb', he⟩

/-- A pass tiles the part of the frame that lies after its start, and cuts it at moved
boundaries only. -/
theorem tiling_walk {g : Nat} {frame : Interval} (hframe : Before frame.start frame.stop)
    {start : Key} (hstart : Before start frame.stop) (bs : List Key) :
    Tiling (Moved g bs) frame.stop (later start frame.start)
      (ranges (walk g frame start bs)) := by
  induction bs generalizing start with
  | nil =>
      rw [walk, ranges_emit_unbounded, if_pos hstart]
      exact .last (before_later hstart hframe)
  | cons b rest ih =>
      cases hb : nearestGroup g b with
      | none =>
          rw [ranges_walk_of_none hb, ranges_emit_unbounded, if_pos hstart]
          exact .last (before_later hstart hframe)
      | some e =>
          rw [ranges_walk_cons hb]
          split
          · exact (ih hstart).mono fun _ => moved_cons
          · rename_i hle
            have hlt : start < e := List.not_le.mp hle
            by_cases hbe : Before e frame.stop
            · rw [if_pos hbe]
              have hrest := (ih hbe).mono fun _ => moved_cons (b := b)
              rcases lt_or_le frame.start e with hfe | hef
              · rw [clip_eq_some (r := ⟨start, some e⟩) hfe hstart, earlierEnd_of_before hbe]
                rw [later_of_le (List.le_of_lt hfe)] at hrest
                exact .cut (later_lt hlt hfe) ⟨b, List.mem_cons_self, hb⟩ hrest
              · rw [clip_eq_none (r := ⟨start, some e⟩) (.inl (List.not_lt.mpr hef))]
                have hsame : later start frame.start = later e frame.start := by
                  rw [later_of_lt (lt_of_lt_of_le hlt hef)]
                  rcases List.le_iff_lt_or_eq.mp hef with hlt' | heq
                  · rw [later_of_lt hlt']
                  · rw [heq, later_of_le (List.le_refl _)]
                rw [hsame]
                exact hrest
            · have hfe : frame.start < e := by
                apply List.not_le.mp
                exact fun hef => hbe (before_of_le hef hframe)
              rw [if_neg hbe, clip_eq_some (r := ⟨start, some e⟩) hfe hstart,
                earlierEnd_of_not_before hbe]
              exact .last (before_later hstart hframe)

theorem length_ranges_walk_le_one {g : Nat} {frame : Interval}
    (hframe : ¬ Before frame.start frame.stop) (start : Key) (bs : List Key) :
    (ranges (walk g frame start bs)).length ≤ 1 := by
  induction bs generalizing start with
  | nil =>
      rw [walk, ranges_emit_unbounded]
      split <;> simp
  | cons b rest ih =>
      cases hb : nearestGroup g b with
      | none =>
          rw [ranges_walk_of_none hb, ranges_emit_unbounded]
          split <;> simp
      | some e =>
          rw [ranges_walk_cons hb]
          split
          · exact ih start
          · rename_i hle
            split
            · rename_i hbe
              have hfe : ¬ frame.start < e := fun hlt => hframe (before_of_lt hlt hbe)
              rw [clip_eq_none (r := ⟨start, some e⟩) (.inl hfe)]
              exact ih e
            · cases Interval.clip ⟨start, some e⟩ frame <;> simp

end ScanPlan.Proofs.SplitCuts
