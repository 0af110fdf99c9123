import ScanPlan.Proofs.SplitWorker

/-!
# Delivery by a pool of workers

Splits wait in order. A free worker begins with the first that waits, and each split that
was begun goes on step by step, whichever has its turn. Main statement: however the steps of
different splits follow each other, each split comes to what it comes to on its own, so that
the outcomes are those of a delivery of one split after the other.
-/

namespace ScanPlan.Proofs.PooledDelivery

open ScanPlan.Delivery
open ScanPlan.Proofs.SplitDelivery
open ScanPlan.Proofs.SplitWorker

variable {ρ : Type}

/-- What a pool has to do. The executor and the callback answer each split by itself. -/
structure Work (ρ : Type) where
  execute : Executor ρ
  callback : Callback ρ
  splits : List Split
  workers : Int

def Work.width (w : Work ρ) : Nat :=
  min w.workers.toNat w.splits.length

/-- The state of each split, and the steps so far with the position of their split. -/
structure Pool (ρ : Type) where
  workers : List (Worker ρ)
  trace : List (Nat × List (Deed ρ))

namespace Pool

def initial (w : Work ρ) : Pool ρ :=
  ⟨w.splits.map fun _ => .waiting, []⟩

def running (pool : Pool ρ) : Nat :=
  pool.workers.countP Worker.isRunning

def deedsAt (pool : Pool ρ) (i : Nat) : List (Deed ρ) :=
  (pool.trace.filter (·.1 = i)).flatMap (·.2)

/-- All splits have ended, with these outcomes in order. -/
def Completed (pool : Pool ρ) (outcomes : List (Outcome ρ)) : Prop :=
  pool.workers = outcomes.map .done

def record (pool : Pool ρ) (i : Nat) (deeds : List (Deed ρ)) (worker : Worker ρ) : Pool ρ :=
  ⟨pool.workers.set i worker, pool.trace ++ [(i, deeds)]⟩

inductive Step (w : Work ρ) (pool : Pool ρ) : Pool ρ → Prop where
  /-- A free worker begins with the first split that waits. -/
  | start {i : Nat} (hfirst : pool.workers.findIdx? Worker.isWaiting = some i)
      (hfree : pool.running < w.width) : Step w pool (pool.record i [.began] .opening)
  /-- A split that is under way goes on. -/
  | act {i : Nat} {s : Split} {worker worker' : Worker ρ} {deeds : List (Deed ρ)}
      (hs : w.splits[i]? = some s) (hworker : pool.workers[i]? = some worker)
      (hrunning : worker.isRunning = true)
      (h : worker.next w.execute (w.callback i) s = some (deeds, worker')) :
      Step w pool (pool.record i deeds worker')

/-- The pools that some order of steps leads to. -/
inductive Reachable (w : Work ρ) : Pool ρ → Prop where
  | initial : Reachable w (initial w)
  | step {pool pool' : Pool ρ} (hpool : Reachable w pool) (h : Step w pool pool') :
      Reachable w pool'

theorem deedsAt_record (pool : Pool ρ) (i j : Nat) (deeds : List (Deed ρ))
    (worker : Worker ρ) :
    (pool.record i deeds worker).deedsAt j =
      if i = j then pool.deedsAt j ++ deeds else pool.deedsAt j := by
  unfold deedsAt record
  split
  · rename_i h
    simp [h]
  · rename_i h
    simp [h]

section Steps

variable {w : Work ρ} {pool pool' : Pool ρ} {i : Nat} {s : Split} {worker worker' : Worker ρ}
  {deeds : List (Deed ρ)}

theorem running_record (hworker : pool.workers[i]? = some worker) (deeds : List (Deed ρ))
    (worker' : Worker ρ) :
    (pool.record i deeds worker').running + (if worker.isRunning then 1 else 0) =
      pool.running + if worker'.isRunning then 1 else 0 := by
  obtain ⟨hi, rfl⟩ := List.getElem?_eq_some_iff.mp hworker
  have hset := List.countP_set (p := Worker.isRunning) (a := worker') hi
  have hpos : pool.workers[i].isRunning = true → 0 < pool.running := fun hrunning =>
    List.countP_pos_iff.mpr ⟨_, List.getElem_mem hi, hrunning⟩
  have hrecord : (pool.record i deeds worker').running =
      (pool.workers.set i worker').countP Worker.isRunning := rfl
  rw [hrecord, hset, ← running]
  split
  · rename_i hrunning
    have := hpos hrunning
    omega
  · omega

/-- A step is one step of the worker of one split. It leaves no more splits under way than
there may be. -/
theorem Step.exists_next (h : Step w pool pool')
    (hlength : pool.workers.length = w.splits.length) (hwidth : pool.running ≤ w.width) :
    ∃ i s worker deeds worker', w.splits[i]? = some s ∧ pool.workers[i]? = some worker ∧
      worker.next w.execute (w.callback i) s = some (deeds, worker') ∧
        pool' = pool.record i deeds worker' ∧ pool'.running ≤ w.width := by
  cases h with
  | @start i hfirst hfree =>
      obtain ⟨hi, hwaiting, -⟩ := List.findIdx?_eq_some_iff_getElem.mp hfirst
      have hworker : pool.workers[i]? = some .waiting := by
        rw [List.getElem?_eq_getElem hi]
        cases hworker : pool.workers[i] with
        | waiting => rfl
        | _ => simp [hworker, Worker.isWaiting] at hwaiting
      obtain ⟨s, hs⟩ : ∃ s, w.splits[i]? = some s :=
        ⟨_, List.getElem?_eq_getElem (hlength ▸ hi)⟩
      refine ⟨i, s, .waiting, _, _, hs, hworker, rfl, rfl, ?_⟩
      have hrunning : (pool.record i [.began] .opening).running + 0 = pool.running + 1 :=
        running_record hworker [.began] .opening
      omega
  | @act i s worker worker' deeds hs hworker hrunning hnext =>
      refine ⟨i, s, worker, deeds, worker', hs, hworker, hnext, rfl, ?_⟩
      have hrecord := running_record hworker deeds worker'
      rw [if_pos hrunning] at hrecord
      split at hrecord
      · omega
      · omega

/-- Every split went its own way up to where it stands. -/
structure Sound (w : Work ρ) (pool : Pool ρ) : Prop where
  length_eq : pool.workers.length = w.splits.length
  running_le : pool.running ≤ w.width
  path : ∀ i s worker, w.splits[i]? = some s → pool.workers[i]? = some worker →
    Worker.Path w.execute (w.callback i) s .waiting (pool.deedsAt i) worker

theorem sound_initial (w : Work ρ) : Sound w (initial w) where
  length_eq := List.length_map _
  running_le := by
    have hnone : (initial w).running = 0 := by
      rw [running, List.countP_eq_zero]
      intro worker hworker
      obtain ⟨_, -, rfl⟩ := List.mem_map.mp hworker
      exact Bool.false_ne_true
    rw [hnone]
    exact Nat.zero_le _
  path := by
    intro i s worker hs hworker
    have hwaiting : worker = .waiting := by
      simp only [initial, List.getElem?_map, hs] at hworker
      exact (Option.some.inj hworker).symm
    rw [hwaiting]
    exact .here _

theorem Sound.step (hpool : Sound w pool) (h : Step w pool pool') : Sound w pool' := by
  obtain ⟨i, s, worker, deeds, worker', hs, hworker, hnext, rfl, hwidth⟩ :=
    h.exists_next hpool.length_eq hpool.running_le
  refine ⟨(List.length_set ..).trans hpool.length_eq, hwidth, ?_⟩
  -- Only the way of the split at `i` became longer, by the step itself.
  intro j t moved ht hmoved
  rw [deedsAt_record]
  by_cases hij : i = j
  · subst hij
    have hset : (pool.record i deeds worker').workers[i]? = some worker' := by
      obtain ⟨hi, -⟩ := List.getElem?_eq_some_iff.mp hworker
      simp [record, hi]
    rw [hset] at hmoved
    rw [hs] at ht
    cases hmoved
    cases ht
    rw [if_pos rfl]
    exact (hpool.path i s worker hs hworker).trans (.one hnext)
  · have hset : (pool.record i deeds worker').workers[j]? = pool.workers[j]? := by
      simp [record, hij]
    rw [hset] at hmoved
    rw [if_neg hij]
    exact hpool.path j t moved ht hmoved

theorem Reachable.sound (h : Reachable w pool) : Sound w pool := by
  induction h with
  | initial => exact sound_initial w
  | step _ hstep ih => exact ih.step hstep

def leftOf (execute : Executor ρ) : List Split → List (Worker ρ) → Nat
  | s :: splits, worker :: workers => worker.left execute s + leftOf execute splits workers
  | _, _ => 0

def left (w : Work ρ) (pool : Pool ρ) : Nat :=
  leftOf w.execute w.splits pool.workers

theorem leftOf_set_lt {execute : Executor ρ} {splits : List Split} {workers : List (Worker ρ)}
    (hs : splits[i]? = some s) (hworker : workers[i]? = some worker)
    (h : worker'.left execute s < worker.left execute s) :
    leftOf execute splits (workers.set i worker') < leftOf execute splits workers := by
  induction splits generalizing workers i with
  | nil => contradiction
  | cons s₀ splits ih =>
      cases workers with
      | nil => contradiction
      | cons worker₀ workers =>
          cases i with
          | zero =>
              cases hs
              cases hworker
              exact Nat.add_lt_add_right h _
          | succ i => exact Nat.add_lt_add_left (ih hs hworker) _

/-- A step makes the trace longer by one, and leaves fewer steps to take. -/
theorem Step.advances (hstep : Step w pool pool') (h : Reachable w pool) :
    pool'.trace.length = pool.trace.length + 1 ∧ left w pool' < left w pool := by
  obtain ⟨i, s, worker, deeds, worker', hs, hworker, hnext, rfl, -⟩ :=
    hstep.exists_next h.sound.length_eq h.sound.running_le
  exact ⟨List.length_append, leftOf_set_lt hs hworker (Worker.left_next hnext)⟩

theorem length_trace_add_left_le (h : Reachable w pool) :
    pool.trace.length + left w pool ≤ left w (initial w) := by
  induction h with
  | initial => exact Nat.le_of_eq (Nat.zero_add _)
  | step hpool hstep ih =>
      obtain ⟨hlonger, hless⟩ := hstep.advances hpool
      omega

theorem exists_outcomes {workers : List (Worker ρ)}
    (h : ∀ worker ∈ workers, worker.outcome?.isSome = true) :
    ∃ outcomes : List (Outcome ρ), workers = outcomes.map .done := by
  induction workers with
  | nil => exact ⟨[], rfl⟩
  | cons worker workers ih =>
      obtain ⟨hworker, hworkers⟩ := List.forall_mem_cons.mp h
      obtain ⟨outcomes, rfl⟩ := ih hworkers
      cases worker with
      | done o => exact ⟨o :: outcomes, rfl⟩
      | _ => contradiction

/-- A pool has ended, or there is a step to take: a split that is under way can go on, and
where none is, a worker is free. -/
theorem completed_or_step (hworkers : 1 ≤ w.workers) (h : Reachable w pool) :
    (∃ outcomes, Completed pool outcomes) ∨ ∃ pool', Step w pool pool' := by
  have hsound := h.sound
  by_cases hrunning : ∃ worker ∈ pool.workers, worker.isRunning = true
  · obtain ⟨worker, hmem, hrunning⟩ := hrunning
    obtain ⟨i, hworker⟩ := List.mem_iff_getElem?.mp hmem
    obtain ⟨hi, -⟩ := List.getElem?_eq_some_iff.mp hworker
    obtain ⟨s, hs⟩ : ∃ s, w.splits[i]? = some s :=
      ⟨_, List.getElem?_eq_getElem (hsound.length_eq ▸ hi)⟩
    have hundone : worker.outcome? = none := by
      simp only [Worker.isRunning, Bool.and_eq_true, Option.isNone_iff_eq_none] at hrunning
      exact hrunning.2
    obtain ⟨deeds, worker', hnext⟩ := Worker.exists_next hundone
    exact .inr ⟨_, .act hs hworker hrunning hnext⟩
  · cases hfirst : pool.workers.findIdx? Worker.isWaiting with
    | none =>
        refine .inl (exists_outcomes fun worker hmem => ?_)
        have hwaiting := List.findIdx?_eq_none_iff.mp hfirst worker hmem
        cases houtcome : worker.outcome? with
        | some o => rfl
        | none =>
            refine absurd ⟨worker, hmem, ?_⟩ hrunning
            simp [Worker.isRunning, hwaiting, houtcome]
    | some i =>
        have hnone : pool.running = 0 := by
          rw [running, List.countP_eq_zero]
          exact fun worker hmem hisRunning => hrunning ⟨worker, hmem, hisRunning⟩
        have hfree : pool.running < w.width := by
          obtain ⟨hi, -⟩ := List.findIdx?_eq_some_iff_getElem.mp hfirst
          have hlength := hsound.length_eq
          rw [hnone, Work.width]
          omega
        exact .inr ⟨_, .start hfirst hfree⟩

theorem exists_completed (hworkers : 1 ≤ w.workers) (h : Reachable w pool) :
    ∃ pool' outcomes, Reachable w pool' ∧ Completed pool' outcomes := by
  generalize hn : left w pool = n
  induction n using Nat.strongRecOn generalizing pool with
  | ind n ih =>
      rcases completed_or_step hworkers h with ⟨outcomes, hdone⟩ | ⟨pool', hstep⟩
      · exact ⟨pool, outcomes, h, hdone⟩
      · have hless := (hstep.advances h).2
        rw [hn] at hless
        exact ih _ hless (h.step hstep) rfl

theorem Completed.outcome_of_splits {outcomes : List (Outcome ρ)}
    (hdone : Completed pool outcomes) (h : Reachable w pool) (hs : w.splits[i]? = some s) :
    ∃ o, outcomes[i]? = some o ∧ Worker.Alone w.execute (w.callback i) s (pool.deedsAt i) o := by
  have hlength : outcomes.length = w.splits.length := by
    rw [← h.sound.length_eq, hdone, List.length_map]
  obtain ⟨hi, -⟩ := List.getElem?_eq_some_iff.mp hs
  obtain ⟨o, ho⟩ : ∃ o, outcomes[i]? = some o := ⟨_, List.getElem?_eq_getElem (hlength ▸ hi)⟩
  refine ⟨o, ho, ?_⟩
  have hworker : pool.workers[i]? = some (.done o) := by
    rw [hdone, List.getElem?_map, ho]
    rfl
  have hpath := h.sound.path i s _ hs hworker
  obtain ⟨deeds, o', hpath', halone⟩ := Worker.exists_path_done w.execute (w.callback i) s
  obtain ⟨rfl, hsame⟩ := hpath.unique hpath' rfl rfl
  cases hsame
  exact halone

theorem outcome_consumeFrom_of_each {execute : Executor ρ} {callback : Callback ρ}
    {splits : List Split} {outcomes : List (Outcome ρ)} {k : Nat}
    (hlength : outcomes.length = splits.length)
    (h : ∀ i s o, splits[i]? = some s → outcomes[i]? = some o →
      (consume execute (callback (k + i)) s).outcome = .ok o) :
    (consumeFrom execute callback k splits).outcome = .ok outcomes := by
  induction splits generalizing k outcomes with
  | nil =>
      obtain rfl := List.eq_nil_of_length_eq_zero hlength
      rfl
  | cons s rest ih =>
      cases outcomes with
      | nil => contradiction
      | cons o others =>
          have hhead := h 0 s o rfl rfl
          have hrest := ih (k := k + 1) (Nat.succ.inj hlength) fun i t p ht hp => by
            have := h (i + 1) t p ht hp
            rwa [Nat.add_assoc, Nat.add_comm 1]
          exact Run.outcome_bind_eq_ok.mpr ⟨o, hhead,
            Run.outcome_bind_eq_ok.mpr ⟨others, hrest, rfl⟩⟩

theorem outcome_deliver_of_each {execute : Executor ρ} {callback : Callback ρ}
    {splits : List Split} {outcomes : List (Outcome ρ)} {workers : Int} (hworkers : 1 ≤ workers)
    (hlength : outcomes.length = splits.length)
    (h : ∀ i s o, splits[i]? = some s → outcomes[i]? = some o →
      (consume execute (callback i) s).outcome = .ok o) :
    (deliver execute callback workers splits).outcome = .ok outcomes := by
  rw [deliver, if_neg (by omega)]
  split
  · rename_i hnil
    rw [hnil] at hlength
    rw [List.eq_nil_of_length_eq_zero hlength]
    rfl
  · have hconsume := outcome_consumeFrom_of_each (k := 0) hlength fun i s o hs ho => by
      rw [Nat.zero_add]
      exact h i s o hs ho
    exact Run.outcome_bind_eq_ok.mpr ⟨_, hconsume, Run.outcome_bind_eq_ok.mpr ⟨(), rfl, rfl⟩⟩

theorem start_congr {execute execute' : Executor ρ} {s : Split}
    (h : ∀ p, s.partitionSet = some p → execute s.range p = execute' s.range p) :
    Cursor.start execute s = Cursor.start execute' s := by
  unfold Cursor.start
  split
  · rfl
  · rfl
  · rename_i p _ hset
    rw [h p hset]

theorem consume_congr {execute execute' : Executor ρ} {s : Split}
    (h : ∀ p, s.partitionSet = some p → execute s.range p = execute' s.range p)
    (take : Nat → ρ → Option Failure) : consume execute take s = consume execute' take s := by
  unfold consume
  rw [start_congr h]

/-- A position of two works that have the same split there and answer it alike. -/
structure Alike (w w' : Work ρ) (i : Nat) : Prop where
  split : ∃ s, w.splits[i]? = some s ∧ w'.splits[i]? = some s ∧
    ∀ p, s.partitionSet = some p → w.execute s.range p = w'.execute s.range p
  callback : w.callback i = w'.callback i

theorem Completed.eq_of_alike {w' : Work ρ} {outcomes outcomes' : List (Outcome ρ)}
    (hdone : Completed pool outcomes) (h : Reachable w pool)
    (hdone' : Completed pool' outcomes') (h' : Reachable w' pool') (halike : Alike w w' i) :
    outcomes'[i]? = outcomes[i]? ∧
      Worker.rowsOf (pool'.deedsAt i) = Worker.rowsOf (pool.deedsAt i) := by
  obtain ⟨s, hs, hs', hexecute⟩ := halike.split
  obtain ⟨o, ho, halone⟩ := hdone.outcome_of_splits h hs
  obtain ⟨o', ho', halone'⟩ := hdone'.outcome_of_splits h' hs'
  have hsame : o' = o := by
    have houtcome := halone'.outcome_eq
    rw [← halike.callback, ← consume_congr hexecute, halone.outcome_eq] at houtcome
    exact (Except.ok.inj houtcome).symm
  refine ⟨?_, ?_⟩
  · rw [ho, ho', hsame]
  · rw [halone.rows_eq, halone'.rows_eq, hsame]

/-- Outcomes in the order of the splits, as a delivery of one split after the other gives
them. Each split was begun once, and did what it does on its own. -/
structure Sequential (w : Work ρ) (pool : Pool ρ) (outcomes : List (Outcome ρ)) : Prop where
  outcome_eq : (deliver w.execute w.callback w.workers w.splits).outcome = .ok outcomes
  length_eq : outcomes.length = w.splits.length
  alone : ∀ i s, w.splits[i]? = some s →
    ∃ o, outcomes[i]? = some o ∧ Worker.Alone w.execute (w.callback i) s (pool.deedsAt i) o

theorem Completed.sequential {outcomes : List (Outcome ρ)} (hdone : Completed pool outcomes)
    (hworkers : 1 ≤ w.workers) (h : Reachable w pool) : Sequential w pool outcomes := by
  have hlength : outcomes.length = w.splits.length := by
    rw [← h.sound.length_eq, hdone, List.length_map]
  refine ⟨outcome_deliver_of_each hworkers hlength ?_, hlength, ?_⟩
  · intro i s o hs ho
    obtain ⟨o', ho', halone⟩ := hdone.outcome_of_splits h hs
    rw [ho] at ho'
    cases ho'
    exact halone.outcome_eq
  · exact fun i s hs => hdone.outcome_of_splits h hs

/-- In any order of steps, no more splits are under way than there may be, and the steps
come to an end. There the pool gives what a delivery of one split after the other gives, and
no split changes what becomes of another. -/
theorem sequential_of_reachable (hworkers : 1 ≤ w.workers) (h : Reachable w pool) :
    pool.running ≤ w.width ∧ pool.trace.length + left w pool ≤ left w (initial w) ∧
      ((∃ outcomes, Completed pool outcomes) ∨ ∃ pool', Step w pool pool') ∧
        ∀ outcomes, Completed pool outcomes → Sequential w pool outcomes ∧
          ∀ (w' : Work ρ) (pool' : Pool ρ) (outcomes' : List (Outcome ρ)) (i : Nat),
            Reachable w' pool' → Completed pool' outcomes' → Alike w w' i →
              outcomes'[i]? = outcomes[i]? ∧
                Worker.rowsOf (pool'.deedsAt i) = Worker.rowsOf (pool.deedsAt i) := by
  refine ⟨h.sound.running_le, length_trace_add_left_le h, completed_or_step hworkers h, ?_⟩
  intro outcomes hdone
  refine ⟨hdone.sequential hworkers h, ?_⟩
  intro w' pool' outcomes' i h' hdone' halike
  exact hdone.eq_of_alike h hdone' h' halike

end Steps

def turn? (w : Work ρ) (pool : Pool ρ) (i : Nat) : Option (Pool ρ) :=
  match w.splits[i]?, pool.workers[i]? with
  | some _, some .waiting =>
      if pool.workers.findIdx? Worker.isWaiting = some i ∧ pool.running < w.width then
        some (pool.record i [.began] .opening)
      else none
  | some s, some worker =>
      (worker.next w.execute (w.callback i) s).map fun (deeds, worker') =>
        pool.record i deeds worker'
  | _, _ => none

theorem step_of_turn? {w : Work ρ} {pool pool' : Pool ρ} {i : Nat}
    (h : turn? w pool i = some pool') : Step w pool pool' := by
  unfold turn? at h
  split at h
  · split at h
    · rename_i hturn
      cases h
      exact .start hturn.1 hturn.2
    · contradiction
  · rename_i s worker hnotWaiting hs hworker
    obtain ⟨⟨deeds, worker'⟩, hnext, rfl⟩ := Option.map_eq_some_iff.mp h
    have hrunning : worker.isRunning = true := by
      cases worker with
      | waiting => exact absurd rfl hnotWaiting
      | done o => contradiction
      | _ => rfl
    exact .act hs hworker hrunning hnext
  · contradiction

theorem reachable_of_turns {w : Work ρ} {pool pool' : Pool ρ} {turns : List Nat}
    (h : Reachable w pool) (hturns : turns.foldlM (turn? w) pool = some pool') :
    Reachable w pool' := by
  induction turns generalizing pool with
  | nil =>
      cases hturns
      exact h
  | cons i turns ih =>
      rw [List.foldlM_cons] at hturns
      obtain ⟨next, hnext, hrest⟩ := Option.bind_eq_some_iff.mp hturns
      exact ih (h.step (step_of_turn? hnext)) hrest

def mixedWork : Work Nat where
  execute range _ :=
    if range.start = [] then .fail (.foreign .system "offline")
    else pure (.iterator [.row 7] none .succeeds)
  callback _ _ _ := none
  splits := [⟨none, some "p", ⟨[], some [0x01]⟩⟩, ⟨none, some "p", ⟨[0x01], none⟩⟩]
  workers := 2

theorem sequential_interleaved :
    ∃ pool outcomes, [0, 1, 1, 0, 1, 0, 1, 1, 1, 1].foldlM (turn? mixedWork)
        (initial mixedWork) = some pool ∧ Completed pool outcomes ∧
      (deliver mixedWork.execute mixedWork.callback 2 mixedWork.splits).outcome = .ok outcomes ∧
        Worker.rowsOf (pool.deedsAt 1) = [7] := by
  have hturns : [0, 1, 1, 0, 1, 0, 1, 1, 1, 1].foldlM (turn? mixedWork) (initial mixedWork) =
      some ⟨[.unstarted ⟨none, some "p", ⟨[], some [0x01]⟩⟩ (.foreign .system "offline"),
        completed ⟨none, some "p", ⟨[0x01], none⟩⟩ [7]].map .done, _⟩ := rfl
  have hreachable := reachable_of_turns .initial hturns
  have hdone := (sequential_of_reachable (by decide) hreachable).2.2.2 _ rfl
  exact ⟨_, _, hturns, rfl, hdone.1.outcome_eq, rfl⟩

end Pool

end ScanPlan.Proofs.PooledDelivery
