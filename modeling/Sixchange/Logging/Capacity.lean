import Sixchange.Logging.Delivery

namespace Sixchange.AsyncFileLogger

open SpscRing

variable {α : Type}

namespace Threads

structure Spared (records : List α) (threads : Threads α) : Prop where
  tracked : Tracked records threads
  refused_eq : threads.refused = 0
  order : threads.accepted ++ (threads.inProgress ++ threads.calls) = records
  pushing : ∀ record, threads.producer ≠ some (.addDropped record)
  lines_eq : threads.lines = (writtenRecords threads.lines).map .record

namespace Spared

variable {records : List α} {threads : Threads α}

theorem start (storage : ℕ → α) (calls : List α) : Spared calls (.start storage calls) :=
  ⟨.start storage calls, rfl, rfl, fun _ h => absurd h (by rintro ⟨⟩), rfl⟩

theorem droppedRecords_eq (h : Spared records threads) : threads.logger.droppedRecords = 0 := by
  have hdropped := h.tracked.dropped
  rw [h.refused_eq] at hdropped
  exact (Nat.add_eq_zero_iff.mp hdropped).1

theorem not_full {call : Push α} (h : Spared records threads) (hfits : records.length ≤ queueCapacity)
    (hproducer : threads.producer = some (.push call)) :
    threads.accepted.length ≠ (writtenRecords threads.lines).length + queueCapacity := by
  have hcount := h.tracked.count
  have hone : threads.inProgress.length = 1 := by
    rw [inProgress, hproducer]
    rfl
  omega

theorem stepProducer (h : Spared records threads) (hfits : records.length ≤ queueCapacity) :
    Spared records threads.stepProducer := by
  have hlt : records.length < word := Nat.lt_of_le_of_lt hfits (by decide)
  have htracked := h.tracked.stepProducer hlt
  have horder := h.order
  unfold inProgress at horder
  unfold Threads.stepProducer at htracked ⊢
  cases hproducer : threads.producer with
  | none =>
    rw [hproducer] at horder
    cases hcalls : threads.calls with
    | nil => exact h
    | cons record calls =>
      rw [hproducer, hcalls] at htracked
      rw [hcalls] at horder
      exact ⟨htracked, h.refused_eq, horder, fun _ he => absurd he (by rintro ⟨⟩), h.lines_eq⟩
  | some call =>
    rw [hproducer] at htracked horder
    cases call with
    | addDropped record => exact absurd hproducer (h.pushing record)
    | push call =>
      have hchannel := h.tracked.channel
      rw [hproducer] at hchannel
      have hstep := hchannel.push_step sized
      have hroom := h.not_full hfits hproducer
      rcases hpush : tryPush queueCapacity threads.logger.queue call with ⟨queue, next | result⟩ <;>
        simp only [hpush, enqueueRecord] at hstep htracked ⊢
      · refine ⟨htracked, h.refused_eq, ?_, fun _ he => absurd he (by rintro ⟨⟩), h.lines_eq⟩
        have hvalue : next.value = call.value := hstep.2
        change threads.accepted ++ ([next.value] ++ threads.calls) = records
        rw [hvalue]
        exact horder
      · cases result
        · exact absurd hstep.2 hroom
        · refine ⟨htracked, h.refused_eq, ?_, fun _ he => absurd he (by rintro ⟨⟩), h.lines_eq⟩
          change (threads.accepted ++ [call.value]) ++ ([] ++ threads.calls) = records
          rw [List.append_assoc, List.nil_append]
          exact horder

theorem stepDestructor (h : Spared records threads) : Spared records threads.stepDestructor := by
  have htracked := h.tracked.stepDestructor
  unfold Threads.stepDestructor at htracked ⊢
  split at htracked
  · exact ⟨htracked, h.refused_eq, h.order, h.pushing, h.lines_eq⟩
  · exact h

theorem run_lines (logger : AsyncFileLogger α) (worker : Worker α) (hzero : logger.droppedRecords = 0) :
    (logger.run worker).2.2 = (writtenRecords (logger.run worker).2.2).map .record := by
  cases worker with
  | testStop =>
    simp only [run]
    split_ifs <;> rfl
  | testEmptyHead tail =>
    simp only [run]
    split_ifs <;> rfl
  | batch processed call =>
    cases call with
    | loadHead tail =>
      simp only [run, tryPop]
      split_ifs <;> rfl
    | _ => rfl
  | exchange =>
    simp only [run, hzero]
    rfl
  | exchangeLast =>
    simp only [run, hzero]
    rfl
  | _ => rfl

theorem stepWorker (h : Spared records threads) : Spared records threads.stepWorker := by
  refine ⟨h.tracked.stepWorker, h.refused_eq, h.order, h.pushing, ?_⟩
  have hlines := run_lines threads.logger threads.worker h.droppedRecords_eq
  unfold Threads.stepWorker
  rw [writtenRecords_append, List.map_append, ← h.lines_eq, ← hlines]

theorem step (h : Spared records threads) (hfits : records.length ≤ queueCapacity) (thread : Thread) :
    Spared records (threads.step thread) := by
  cases thread with
  | producer => exact h.stepProducer hfits
  | destructor => exact h.stepDestructor
  | worker => exact h.stepWorker

theorem interleave (h : Spared records threads) (hfits : records.length ≤ queueCapacity)
    (schedule : List Thread) : Spared records (threads.interleave schedule) :=
  Interleaving.invariant (fun _ thread h => h.step hfits thread) h schedule

theorem lines_prefix (h : Spared records threads) : threads.lines <+: records.map .record := by
  rw [h.lines_eq, ← h.order]
  exact (h.tracked.channel.fifo.trans (List.prefix_append _ _)).map _

theorem lines_of_returned (h : Spared records threads) (hreturned : threads.worker = .returned) :
    threads.lines = records.map .record := by
  have hleaving := h.tracked.leaving
  rw [hreturned] at hleaving
  obtain ⟨hstop, hwritten, -⟩ := hleaving
  obtain ⟨hcalls, hproducer⟩ := h.tracked.stopped hstop
  have horder := h.order
  rw [inProgress, hproducer, hcalls] at horder
  rw [h.lines_eq, hwritten, ← horder]
  exact congrArg _ (List.append_nil _).symm

end Spared

end Threads

theorem burst_written (storage : ℕ → α) (records : List α) (hfits : records.length ≤ queueCapacity)
    (schedule : List Thread) :
    ((Threads.start storage records).interleave schedule).lines <+: records.map .record ∧
      (((Threads.start storage records).interleave schedule).worker = .returned →
        ((Threads.start storage records).interleave schedule).lines = records.map .record) := by
  have hspared := (Threads.Spared.start storage records).interleave hfits schedule
  exact ⟨hspared.lines_prefix, hspared.lines_of_returned⟩

def sampleSchedule : List Thread := List.replicate 12 .producer ++ .destructor :: List.replicate 27 .worker

theorem burst_written_two :
    ((Threads.start (fun _ => 0) [5, 6]).interleave (List.replicate 12 .producer ++ List.replicate 9 .worker)).lines
        <+: [5, 6].map .record ∧
      ((Threads.start (fun _ => 0) [5, 6]).interleave sampleSchedule).lines = [5, 6].map .record := by
  have hfits : [5, 6].length ≤ queueCapacity := by decide
  have hreturned : ((Threads.start (fun _ => 0) [5, 6]).interleave sampleSchedule).worker = .returned := by
    decide +kernel
  exact ⟨(burst_written (fun _ => 0) [5, 6] hfits _).1, (burst_written (fun _ => 0) [5, 6] hfits _).2 hreturned⟩

end Sixchange.AsyncFileLogger
