import Sixchange.Logging.Channel
import Sixchange.Model.AsyncFileLogger
import Sixchange.Theory.Interleaving

namespace Sixchange.AsyncFileLogger

open SpscRing
open scoped List

variable {α : Type}

def writtenRecords (lines : List (Line α)) : List α :=
  lines.filterMap fun
    | .record record => some record
    | .dropped _ => none

def writtenDropped (lines : List (Line α)) : List ℕ :=
  lines.filterMap fun
    | .record _ => none
    | .dropped count => some count

theorem sized : Sized queueCapacity := ⟨14, by decide, rfl⟩

def Enqueue.pushCall : Enqueue α → Option (Push α)
  | .push call => some call
  | .addDropped _ => none

def Worker.popCall : Worker α → Option (Pop α)
  | .batch _ call => some call
  | _ => none

theorem writtenRecords_append (lines lines' : List (Line α)) :
    writtenRecords (lines ++ lines') = writtenRecords lines ++ writtenRecords lines' := List.filterMap_append

theorem writtenDropped_append (lines lines' : List (Line α)) :
    writtenDropped (lines ++ lines') = writtenDropped lines ++ writtenDropped lines' := List.filterMap_append

theorem written_droppedLines (lines : List (Line α)) (dropped : ℕ) :
    writtenRecords (lines ++ droppedLines dropped) = writtenRecords lines ∧
      (writtenDropped (lines ++ droppedLines dropped)).sum = dropped + (writtenDropped lines).sum := by
  rw [writtenRecords_append, writtenDropped_append, List.sum_append]
  unfold droppedLines
  split_ifs with h
  · rw [h]
    exact ⟨List.append_nil _, Nat.add_comm _ _⟩
  · exact ⟨List.append_nil _, Nat.add_comm _ _⟩

namespace Threads

def Leaving (threads : Threads α) : Worker α → Prop
  | .testEmpty => threads.logger.stopRequested = true
  | .testEmptyHead tail => threads.logger.stopRequested = true ∧ tail = threads.logger.queue.tail
  | .exchangeLast => threads.logger.stopRequested = true ∧ writtenRecords threads.lines = threads.accepted
  | .returned => threads.logger.stopRequested = true ∧ writtenRecords threads.lines = threads.accepted ∧
      threads.logger.droppedRecords = 0
  | _ => True

def inProgress (threads : Threads α) : List α := (threads.producer.map Enqueue.record).toList

structure Tracked (records : List α) (threads : Threads α) : Prop where
  channel : Channel queueCapacity 0 threads.logger.queue threads.accepted (writtenRecords threads.lines)
    (threads.producer.bind Enqueue.pushCall) threads.worker.popCall
  dropped : threads.logger.droppedRecords + (writtenDropped threads.lines).sum = threads.refused
  count : threads.accepted.length + threads.refused + threads.inProgress.length + threads.calls.length =
    records.length
  order : threads.accepted ++ (threads.inProgress ++ threads.calls) <+ records
  stopped : threads.logger.stopRequested = true → threads.calls = [] ∧ threads.producer = none
  leaving : threads.Leaving threads.worker

namespace Tracked

variable {records : List α} {threads : Threads α}

theorem start (storage : ℕ → α) (calls : List α) : Tracked calls (.start storage calls) where
  channel := .initial storage (by decide)
  dropped := rfl
  count := Nat.zero_add _
  order := List.Sublist.refl _
  stopped := by rintro ⟨⟩
  leaving := trivial

theorem running (h : Tracked records threads) (hbusy : threads.calls ≠ [] ∨ threads.producer ≠ none) :
    threads.logger.stopRequested = false := by
  rw [Bool.eq_false_iff]
  intro hstop
  obtain ⟨hcalls, hproducer⟩ := h.stopped hstop
  exact hbusy.elim (fun hne => hne hcalls) (fun hne => hne hproducer)

theorem leaving_of_running (h : Tracked records threads) (hrunning : threads.logger.stopRequested = false)
    (threads' : Threads α) : threads'.Leaving threads.worker := by
  have hstop : threads.logger.stopRequested ≠ true := Bool.eq_false_iff.mp hrunning
  have hleaving := h.leaving
  cases hw : threads.worker <;> rw [hw] at hleaving
  case testEmpty => exact absurd hleaving hstop
  case testEmptyHead => exact absurd hleaving.1 hstop
  case exchangeLast => exact absurd hleaving.1 hstop
  case returned => exact absurd hleaving.1 hstop
  all_goals trivial

theorem stepProducer (h : Tracked records threads) (htotal : records.length < word) :
    Tracked records threads.stepProducer := by
  have hchannel := h.channel
  have hcount := h.count
  have horder := h.order
  unfold inProgress at hcount horder
  unfold Threads.stepProducer
  cases hproducer : threads.producer with
  | none =>
    rw [hproducer] at hchannel hcount horder
    cases hcalls : threads.calls with
    | nil => exact h
    | cons record calls =>
      rw [hcalls] at hcount horder
      have hrunning := h.running (.inl (by simp [hcalls]))
      refine ⟨hchannel.begin_push record, h.dropped, ?_, horder, ?_, h.leaving_of_running hrunning _⟩
      · simp [inProgress] at hcount ⊢
        omega
      · intro hstop
        rw [hrunning] at hstop
        cases hstop
  | some call =>
    rw [hproducer] at hchannel hcount horder
    have hrunning := h.running (.inr (by simp [hproducer]))
    have hidle : ∀ p : Prop, threads.logger.stopRequested = true → p := by
      intro p hstop
      rw [hrunning] at hstop
      cases hstop
    have hleaving := h.leaving_of_running hrunning
    have hone : threads.accepted.length + threads.refused + 1 + threads.calls.length = records.length := hcount
    cases call with
    | push call =>
      have hstep := hchannel.push_step sized
      rcases hpush : tryPush queueCapacity threads.logger.queue call with ⟨queue, next | result⟩ <;>
        simp only [hpush, enqueueRecord] at hstep ⊢
      · refine ⟨hstep.1, h.dropped, hone, ?_, hidle _, hleaving _⟩
        have hvalue : next.value = call.value := hstep.2
        change threads.accepted ++ ([next.value] ++ threads.calls) <+ records
        rw [hvalue]
        exact horder
      · cases result
        · exact ⟨hstep.1, h.dropped, hone, horder, hidle _, hleaving _⟩
        · refine ⟨hstep, h.dropped, ?_, ?_, hidle _, hleaving _⟩
          · change (threads.accepted ++ [call.value]).length + threads.refused + 0 + threads.calls.length = _
            rw [List.length_append, List.length_singleton]
            omega
          · change (threads.accepted ++ [call.value]) ++ ([] ++ threads.calls) <+ records
            rw [List.append_assoc, List.nil_append]
            exact horder
    | addDropped record =>
      have hdropped := h.dropped
      have hsmall : wrapAdd threads.logger.droppedRecords 1 = threads.logger.droppedRecords + 1 := by
        apply wrapAdd_small
        omega
      simp only [enqueueRecord, hsmall]
      refine ⟨hchannel, ?_, ?_, ?_, hidle _, hleaving _⟩
      · change threads.logger.droppedRecords + 1 + (writtenDropped threads.lines).sum = threads.refused + 1
        omega
      · change threads.accepted.length + (threads.refused + 1) + 0 + threads.calls.length = _
        omega
      · exact ((List.sublist_cons_self record threads.calls).append_left _).trans horder

theorem stepDestructor (h : Tracked records threads) : Tracked records threads.stepDestructor := by
  unfold Threads.stepDestructor
  split
  · next hproducer hcalls =>
    refine ⟨h.channel, h.dropped, h.count, h.order, fun _ => ⟨hcalls, hproducer⟩, ?_⟩
    have hleaving := h.leaving
    cases hw : threads.worker <;> rw [hw] at hleaving
    case testEmpty => rfl
    case testEmptyHead => exact ⟨rfl, hleaving.2⟩
    case exchangeLast => exact ⟨rfl, hleaving.2⟩
    case returned => exact ⟨rfl, hleaving.2⟩
    all_goals trivial
  · exact h

theorem nextInBatch (h : Tracked records threads) {queue : SpscRing α} {lines : List (Line α)}
    (hchannel : Channel queueCapacity 0 queue threads.accepted (writtenRecords lines)
      (threads.producer.bind Enqueue.pushCall) none)
    (hlines : writtenDropped lines = writtenDropped threads.lines) (processed : ℕ) :
    Tracked records { threads with
      logger := { threads.logger with queue }, worker := AsyncFileLogger.nextInBatch processed, lines } := by
  unfold AsyncFileLogger.nextInBatch
  split_ifs
  · exact ⟨hchannel.begin_pop, hlines ▸ h.dropped, h.count, h.order, h.stopped, trivial⟩
  · exact ⟨hchannel, hlines ▸ h.dropped, h.count, h.order, h.stopped, trivial⟩

theorem stepWorker (h : Tracked records threads) : Tracked records threads.stepWorker := by
  have hchannel := h.channel
  have hleaving := h.leaving
  unfold Threads.stepWorker
  cases hworker : threads.worker <;> rw [hworker] at hchannel hleaving <;> simp only [run]
  case testStop =>
    split_ifs with hstop <;> simp only [List.append_nil]
    · exact ⟨hchannel, h.dropped, h.count, h.order, h.stopped, hstop⟩
    · exact h.nextInBatch hchannel rfl 0
  case testEmpty =>
    simp only [List.append_nil]
    exact ⟨hchannel, h.dropped, h.count, h.order, h.stopped, hleaving, rfl⟩
  case testEmptyHead tail =>
    obtain ⟨hstop, rfl⟩ := hleaving
    split_ifs with hempty <;> simp only [List.append_nil]
    · refine ⟨hchannel, h.dropped, h.count, h.order, h.stopped, hstop, ?_⟩
      exact hchannel.fifo.eq_of_length ((hchannel.tail_eq_head_iff sized).mp hempty).symm
    · exact h.nextInBatch hchannel rfl 0
  case batch processed call =>
    have hstep := hchannel.pop_step sized
    rcases hpop : tryPop queueCapacity threads.logger.queue call with ⟨queue, next | result⟩ <;>
      simp only [hpop, List.append_nil] at hstep ⊢
    · exact ⟨hstep, h.dropped, h.count, h.order, h.stopped, trivial⟩
    · cases result with
      | none =>
        simp only [List.append_nil]
        exact ⟨hstep.1, h.dropped, h.count, h.order, h.stopped, trivial⟩
      | some record =>
        apply h.nextInBatch
        · rw [writtenRecords_append]
          exact hstep
        · rw [writtenDropped_append]
          exact List.append_nil _
  case exchange =>
    have hlines := written_droppedLines threads.lines threads.logger.droppedRecords
    refine ⟨hlines.1.symm ▸ hchannel, ?_, h.count, h.order, h.stopped, trivial⟩
    rw [hlines.2, Nat.zero_add, h.dropped]
  case exchangeLast =>
    have hlines := written_droppedLines threads.lines threads.logger.droppedRecords
    refine ⟨hlines.1.symm ▸ hchannel, ?_, h.count, h.order, h.stopped, hleaving.1, hlines.1.trans hleaving.2, rfl⟩
    rw [hlines.2, Nat.zero_add, h.dropped]
  case returned =>
    simp only [List.append_nil]
    exact ⟨hchannel, h.dropped, h.count, h.order, h.stopped, hleaving⟩

theorem step (h : Tracked records threads) (htotal : records.length < word) (thread : Thread) :
    Tracked records (threads.step thread) := by
  cases thread with
  | producer => exact h.stepProducer htotal
  | destructor => exact h.stepDestructor
  | worker => exact h.stepWorker

theorem interleave (h : Tracked records threads) (htotal : records.length < word) (schedule : List Thread) :
    Tracked records (threads.interleave schedule) :=
  Interleaving.invariant (fun _ thread h => h.step htotal thread) h schedule

end Tracked

end Threads

structure Delivered (threads : Threads α) (records : List α) : Prop where
  written : writtenRecords threads.lines = threads.accepted
  dropped : (writtenDropped threads.lines).sum = threads.refused
  in_order : threads.accepted <+ records
  answered : threads.accepted.length + threads.refused = records.length

theorem logger_delivers (storage : ℕ → α) (records : List α) (hlt : records.length < word) (schedule : List Thread)
    (hreturned : ((Threads.start storage records).interleave schedule).worker = .returned) :
    Delivered ((Threads.start storage records).interleave schedule) records := by
  have htracked := (Threads.Tracked.start storage records).interleave hlt schedule
  have hleaving := htracked.leaving
  rw [hreturned] at hleaving
  obtain ⟨hstop, hwritten, hzero⟩ := hleaving
  obtain ⟨hcalls, hproducer⟩ := htracked.stopped hstop
  have hdropped := htracked.dropped
  have hcount := htracked.count
  rw [hcalls, Threads.inProgress, hproducer] at hcount
  exact ⟨hwritten, by omega, (List.sublist_append_left _ _).trans htracked.order, hcount⟩

theorem logger_delivers_two :
    Delivered ((Threads.start (fun _ => 0) [5, 6]).interleave (List.replicate 7 .producer ++
      List.replicate 3 .worker ++ List.replicate 3 .producer ++ .destructor :: List.replicate 25 .worker)) [5, 6] :=
  logger_delivers (fun _ => 0) [5, 6] (by decide) _ (by decide +kernel)

end Sixchange.AsyncFileLogger
