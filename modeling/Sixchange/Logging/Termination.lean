import Sixchange.Logging.Delivery

namespace Sixchange.AsyncFileLogger

open SpscRing

variable {α : Type}

def Enqueue.rank : Enqueue α → ℕ
  | .push (.loadHead _) => 4
  | .push (.loadTail _ _) => 3
  | .push (.writeSlot _ _) => 2
  | .push (.storeHead _ _) => 1
  | .addDropped _ => 1

def popRank : Pop α → ℕ
  | .loadTail => 7
  | .loadHead _ => 6
  | .readSlot _ => 5
  | .storeTail _ _ => 4

def unsettled (pending : ℕ) : ℕ := if pending = 0 then 0 else 8 * pending + 6

/-- The steps that the worker may still need once stop is requested and `pending` records are in the queue. -/
def Worker.rank (pending : ℕ) : Worker α → ℕ
  | .exchange => unsettled pending + 5
  | .testStop => unsettled pending + 4
  | .testEmpty => unsettled pending + 3
  | .testEmptyHead _ => unsettled pending + 2
  | .batch _ call => 8 * pending + popRank call
  | .exchangeLast => 1
  | .returned => 0

theorem popRank_bounds (call : Pop α) : 4 ≤ popRank call ∧ popRank call ≤ 7 := by
  cases call <;> simp [popRank]

theorem unsettled_le (pending : ℕ) : unsettled pending ≤ 8 * pending + 6 := by
  unfold unsettled
  split_ifs
  · exact Nat.zero_le _
  · exact Nat.le_refl _

theorem Worker.rank_eq_zero {pending : ℕ} {worker : Worker α} (h : worker.rank pending = 0) : worker = .returned := by
  cases worker with
  | batch processed call =>
    have hpop := popRank_bounds call
    simp only [rank] at h
    omega
  | returned => rfl
  | _ => cases h

theorem Worker.rank_le (pending : ℕ) (worker : Worker α) : worker.rank pending ≤ 8 * pending + 11 := by
  have hle := unsettled_le pending
  cases worker with
  | batch processed call =>
    have hpop := popRank_bounds call
    simp only [rank]
    omega
  | _ =>
    simp only [rank]
    omega

namespace Threads

def producerRank (threads : Threads α) : ℕ :=
  (threads.producer.map Enqueue.rank).getD 0 + 5 * threads.calls.length

def pending (threads : Threads α) : ℕ := threads.accepted.length - (writtenRecords threads.lines).length

def workerRank (threads : Threads α) : ℕ := threads.worker.rank threads.pending

variable {threads : Threads α}

theorem producerRank_eq_zero (h : threads.producerRank = 0) : threads.producer = none ∧ threads.calls = [] := by
  unfold producerRank at h
  have hcalls : threads.calls = [] := List.eq_nil_of_length_eq_zero (by omega)
  cases hproducer : threads.producer with
  | none => exact ⟨rfl, hcalls⟩
  | some call =>
    rw [hproducer] at h
    rcases call with call | record
    · cases call <;> simp [Enqueue.rank] at h
    · simp [Enqueue.rank] at h

theorem producerRank_stepProducer (threads : Threads α) :
    threads.stepProducer.producerRank ≤ threads.producerRank - 1 := by
  unfold stepProducer
  cases hproducer : threads.producer with
  | none =>
    cases hcalls : threads.calls with
    | nil => simp [producerRank, hproducer, hcalls]
    | cons record calls =>
      simp [producerRank, hproducer, hcalls, Enqueue.rank]
      omega
  | some call =>
    have hrank : threads.producerRank = call.rank + 5 * threads.calls.length := by
      rw [producerRank, hproducer]
      rfl
    rw [hrank]
    rcases call with call | record
    · cases call with
      | loadTail value head =>
        simp only [enqueueRecord, tryPush]
        split_ifs <;> simp [producerRank, Enqueue.rank]
      | _ => simp [enqueueRecord, tryPush, producerRank, Enqueue.rank]
    · simp [enqueueRecord, producerRank, Enqueue.rank]

theorem producerRank_stepDestructor (threads : Threads α) :
    threads.stepDestructor.producerRank = threads.producerRank := by
  unfold stepDestructor
  split <;> rfl

theorem producerRank_stepWorker (threads : Threads α) : threads.stepWorker.producerRank = threads.producerRank := rfl

theorem producer_finishes (threads : Threads α) {schedule : List Thread}
    (henough : threads.producerRank ≤ schedule.count .producer) :
    (threads.interleave schedule).producer = none ∧ (threads.interleave schedule).calls = [] := by
  apply producerRank_eq_zero
  have hother : ∀ (threads : Threads α) thread, True → thread ≠ .producer →
      (threads.step thread).producerRank ≤ threads.producerRank := by
    intro threads thread _ hother
    cases thread with
    | producer => exact absurd rfl hother
    | destructor => exact Nat.le_of_eq (producerRank_stepDestructor threads)
    | worker => exact Nat.le_of_eq (producerRank_stepWorker threads)
  apply Interleaving.exhausted (I := fun _ => True) (fun _ _ h => h) hother _ trivial henough
  intro threads _
  exact producerRank_stepProducer threads

theorem workerRank_stepWorker (threads : Threads α) :
    threads.stepWorker.workerRank = (threads.logger.run threads.worker).2.1.rank
      (threads.pending - (writtenRecords (threads.logger.run threads.worker).2.2).length) := by
  have hpending : threads.stepWorker.pending =
      threads.pending - (writtenRecords (threads.logger.run threads.worker).2.2).length := by
    unfold pending stepWorker
    rw [writtenRecords_append, List.length_append, Nat.sub_add_eq]
  rw [workerRank, hpending]
  rfl

namespace Tracked

variable {records : List α}

theorem tail_eq_head_iff (h : Tracked records threads) :
    threads.logger.queue.tail = threads.logger.queue.head ↔ threads.pending = 0 := by
  have hle := h.channel.fifo.length_le
  rw [h.channel.tail_eq_head_iff sized, pending]
  omega

theorem pending_pos {processed tail : ℕ} {value : α} (h : Tracked records threads)
    (hworker : threads.worker = .batch processed (.storeTail tail value)) : 0 < threads.pending := by
  have hpop := h.channel.pop_ok (.storeTail tail value) (by rw [hworker]; rfl)
  obtain ⟨hlt, -⟩ := List.getElem?_eq_some_iff.mp hpop.2
  exact Nat.sub_pos_of_lt hlt

theorem workerRank_stepWorker_le (h : Tracked records threads) (hstop : threads.logger.stopRequested = true) :
    threads.stepWorker.workerRank ≤ threads.workerRank - 1 := by
  have hleaving := h.leaving
  have hempty := h.tail_eq_head_iff
  rw [workerRank_stepWorker, workerRank]
  cases hworker : threads.worker <;> rw [hworker] at hleaving <;> simp only [run]
  case testStop =>
    rw [if_pos hstop]
    exact Nat.le_refl _
  case testEmpty => exact Nat.le_refl _
  case testEmptyHead tail =>
    obtain ⟨-, rfl⟩ := hleaving
    split_ifs with htail
    · exact Nat.le_add_left 1 _
    · change 8 * threads.pending + 7 ≤ unsettled threads.pending + 1
      apply Nat.le_of_eq
      rw [unsettled, if_neg (mt hempty.mpr htail)]
  case batch processed call =>
    cases call with
    | loadTail => exact Nat.le_refl _
    | loadHead tail =>
      obtain rfl : tail = threads.logger.queue.tail := h.channel.pop_ok (.loadHead tail) (by rw [hworker]; rfl)
      simp only [tryPop]
      split_ifs with htail
      · rw [hempty.mp htail]
        exact Nat.le_refl _
      · exact Nat.le_refl _
    | readSlot tail => exact Nat.le_refl _
    | storeTail tail value =>
      -- the next pop or test starts with one record less
      have hpos := h.pending_pos hworker
      have hnext := Worker.rank_le (threads.pending - 1) (AsyncFileLogger.nextInBatch (processed + 1) : Worker α)
      change (AsyncFileLogger.nextInBatch (processed + 1) : Worker α).rank (threads.pending - 1) ≤
        8 * threads.pending + 4 - 1
      omega
  case exchange =>
    have hlines := written_droppedLines ([] : List (Line α)) threads.logger.droppedRecords
    rw [List.nil_append] at hlines
    rw [hlines.1]
    exact Nat.le_refl _
  case exchangeLast => exact Nat.zero_le _
  case returned => exact Nat.zero_le _

end Tracked

def Stopping (records : List α) (threads : Threads α) : Prop :=
  Tracked records threads ∧ threads.logger.stopRequested = true

theorem run_stopRequested (logger : AsyncFileLogger α) (worker : Worker α) :
    (logger.run worker).1.stopRequested = logger.stopRequested := by
  cases worker with
  | testStop =>
    simp only [run]
    split_ifs <;> rfl
  | testEmptyHead tail =>
    simp only [run]
    split_ifs <;> rfl
  | batch processed call =>
    cases call with
    | loadHead tail =>
      simp only [run, tryPop]
      split_ifs <;> rfl
    | _ => rfl
  | _ => rfl

theorem stepProducer_idle (h : threads.producer = none) (hcalls : threads.calls = []) :
    threads.stepProducer = threads := by
  rw [stepProducer, h, hcalls]

theorem stepDestructor_idle (h : threads.producer = none) (hcalls : threads.calls = []) :
    threads.stepDestructor.logger.stopRequested = true := by
  rw [stepDestructor, h, hcalls]

namespace Stopping

variable {records : List α}

theorem step (h : Stopping records threads) (hlt : records.length < word) (thread : Thread) :
    Stopping records (threads.step thread) := by
  obtain ⟨hcalls, hproducer⟩ := h.1.stopped h.2
  refine ⟨h.1.step hlt thread, ?_⟩
  cases thread with
  | producer =>
    change threads.stepProducer.logger.stopRequested = true
    rw [stepProducer_idle hproducer hcalls]
    exact h.2
  | destructor => exact stepDestructor_idle hproducer hcalls
  | worker => exact (run_stopRequested _ _).trans h.2

theorem workerRank_le (h : Stopping records threads) (thread : Thread) (hother : thread ≠ .worker) :
    (threads.step thread).workerRank ≤ threads.workerRank := by
  obtain ⟨hcalls, hproducer⟩ := h.1.stopped h.2
  cases thread with
  | producer =>
    apply Nat.le_of_eq
    exact congrArg workerRank (stepProducer_idle hproducer hcalls)
  | destructor =>
    change threads.stepDestructor.workerRank ≤ _
    rw [stepDestructor, hproducer, hcalls]
    exact Nat.le_refl _
  | worker => exact absurd rfl hother

theorem worker_returns (h : Stopping records threads) (hlt : records.length < word) {schedule : List Thread}
    (henough : threads.workerRank ≤ schedule.count .worker) : (threads.interleave schedule).worker = .returned :=
  Worker.rank_eq_zero (Interleaving.exhausted (fun _ thread h => h.step hlt thread)
    (fun _ thread h hother => h.workerRank_le thread hother)
    (fun _ h => h.1.workerRank_stepWorker_le h.2) h henough)

end Stopping

theorem Tracked.workerRank_le {records : List α} (h : Tracked records threads) :
    threads.workerRank ≤ 8 * records.length + 11 := by
  have hrank := Worker.rank_le threads.pending threads.worker
  have hcount := h.count
  unfold workerRank
  unfold pending at hrank ⊢
  omega

end Threads

theorem logger_returns (storage : ℕ → α) (records : List α) (hlt : records.length < word)
    (before after : List Thread) (hproducer : 5 * records.length ≤ before.count .producer)
    (hworker : 8 * records.length + 11 ≤ after.count .worker) :
    ((Threads.start storage records).interleave (before ++ .destructor :: after)).worker = .returned := by
  have hbefore := (Threads.Tracked.start storage records).interleave hlt before
  have hrank : (Threads.start storage records).producerRank = 5 * records.length := Nat.zero_add _
  obtain ⟨hidle, hcalls⟩ := Threads.producer_finishes (Threads.start storage records)
    (Nat.le_trans (Nat.le_of_eq hrank) hproducer)
  have hstopping : Threads.Stopping records
      (((Threads.start storage records).interleave before).step .destructor) :=
    ⟨hbefore.stepDestructor, Threads.stepDestructor_idle hidle hcalls⟩
  have hreturns := hstopping.worker_returns hlt (Nat.le_trans hstopping.1.workerRank_le hworker)
  unfold Threads.interleave at hreturns ⊢
  rw [List.foldl_append]
  exact hreturns

theorem logger_returns_two : ((Threads.start (fun _ => 0) [5, 6]).interleave
    (List.replicate 10 .producer ++ .destructor :: List.replicate 27 .worker)).worker = .returned :=
  logger_returns (fun _ => 0) [5, 6] (by decide) _ _ (by decide) (by decide)

end Sixchange.AsyncFileLogger
