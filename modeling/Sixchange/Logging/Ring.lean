import Sixchange.Logging.Channel
import Sixchange.Theory.Interleaving

namespace Sixchange.SpscRing

variable {α : Type} {capacity counter : ℕ}

namespace Threads

structure BoundedFifo (capacity : ℕ) (threads : Threads α) : Prop where
  fifo : threads.popped <+: threads.pushed
  held_eq : wrapSub threads.ring.head threads.ring.tail = threads.pushed.length - threads.popped.length
  held_le : threads.pushed.length - threads.popped.length ≤ capacity
  stored : ∀ i < threads.pushed.length - threads.popped.length, threads.pushed[threads.popped.length + i]? =
    some (threads.ring.storage (wrapAdd threads.ring.tail i &&& mask capacity))
  disjoint : ∀ value head tail, threads.producer = some (.writeSlot value head) →
    threads.consumer = some (.readSlot tail) → head &&& mask capacity ≠ tail &&& mask capacity
  full : ∀ call, threads.producer = some call → (tryPush capacity threads.ring call).2 = .inr false →
    (∃ value head, call = .loadTail value head) ∧ threads.pushed.length - threads.popped.length = capacity
  empty : ∀ call, threads.consumer = some call → (tryPop capacity threads.ring call).2 = .inr none →
    (∃ tail, call = .loadHead tail) ∧ threads.pushed = threads.popped

def Linked (capacity counter : ℕ) (threads : Threads α) : Prop :=
  Channel capacity counter threads.ring threads.pushed threads.popped threads.producer threads.consumer

theorem Linked.stepProducer (hsize : Sized capacity) {threads : Threads α} (h : Linked capacity counter threads) :
    Linked capacity counter (threads.stepProducer capacity) := by
  unfold Linked at h
  unfold Threads.stepProducer
  cases hproducer : threads.producer with
  | none =>
    rw [hproducer] at h
    cases threads.calls with
    | nil =>
      unfold Linked
      rwa [hproducer]
    | cons value calls => exact h.begin_push value
  | some call =>
    rw [hproducer] at h
    have hstep := h.push_step hsize
    rcases hpush : tryPush capacity threads.ring call with ⟨ring, next | result⟩ <;> simp only [hpush] at hstep ⊢
    · exact hstep.1
    · cases result
      · exact hstep.1
      · exact hstep

theorem Linked.stepConsumer (hsize : Sized capacity) {threads : Threads α} (h : Linked capacity counter threads) :
    Linked capacity counter (threads.stepConsumer capacity) := by
  unfold Linked at h
  unfold Threads.stepConsumer
  cases hconsumer : threads.consumer with
  | none =>
    rw [hconsumer] at h
    exact h.begin_pop
  | some call =>
    rw [hconsumer] at h
    have hstep := h.pop_step hsize
    rcases hpop : tryPop capacity threads.ring call with ⟨ring, next | result⟩ <;> simp only [hpop] at hstep ⊢
    · exact hstep
    · cases result
      · exact hstep.1
      · exact hstep

theorem Linked.step (hsize : Sized capacity) {threads : Threads α} (h : Linked capacity counter threads)
    (thread : Thread) : Linked capacity counter (threads.step capacity thread) := by
  cases thread with
  | producer => exact h.stepProducer hsize
  | consumer => exact h.stepConsumer hsize

theorem Linked.interleave (hsize : Sized capacity) {threads : Threads α} (h : Linked capacity counter threads)
    (schedule : List Thread) : Linked capacity counter (threads.interleave capacity schedule) :=
  Interleaving.invariant (fun _ thread h => h.step hsize thread) h schedule

theorem Linked.start (storage : ℕ → α) (hcounter : counter < word) (calls : List α) :
    Linked capacity counter (.start storage counter calls) := Channel.initial storage hcounter

theorem Linked.boundedFifo (hsize : Sized capacity) {threads : Threads α} (h : Linked capacity counter threads) :
    BoundedFifo capacity threads := by
  unfold Linked at h
  have hle := h.held_le
  refine ⟨h.fifo, h.held_eq hsize, by omega, ?_, ?_, ?_, ?_⟩
  · intro i hi
    rw [h.tail_eq, wrapAdd_mod, hsize.slot_eq, Nat.add_assoc]
    exact h.cells _ (Nat.le_add_right _ _) (by omega)
  · intro value head tail hproducer hconsumer
    rw [hproducer, hconsumer] at h
    exact h.disjoint hsize
  · intro call hproducer hfalse
    rw [hproducer] at h
    have hstep := h.push_step hsize
    cases call with
    | loadTail value head =>
      refine ⟨⟨value, head, rfl⟩, ?_⟩
      rcases hpush : tryPush capacity threads.ring (.loadTail value head) with ⟨ring, result⟩
      rw [hpush] at hstep hfalse
      obtain rfl : result = .inr false := hfalse
      have hfull := hstep.2
      omega
    | _ => cases hfalse
  · intro call hconsumer hnone
    rw [hconsumer] at h
    have hstep := h.pop_step hsize
    cases call with
    | loadHead tail =>
      refine ⟨⟨tail, rfl⟩, ?_⟩
      rcases hpop : tryPop capacity threads.ring (.loadHead tail) with ⟨ring, result⟩
      rw [hpop] at hstep hnone
      obtain rfl : result = .inr none := hnone
      exact hstep.2
    | _ => cases hnone

end Threads

theorem bounded_fifo (hsize : Sized capacity) (hcounter : counter < word) (storage : ℕ → α) (calls : List α)
    (schedule : List Thread) :
    ((Threads.start storage counter calls).interleave capacity schedule).BoundedFifo capacity :=
  ((Threads.Linked.start storage hcounter calls).interleave hsize schedule).boundedFifo hsize

theorem bounded_fifo_wrapping :
    ((Threads.start (fun _ => 0) (word - 1) [5, 6, 7]).interleave 2 (List.replicate 9 .producer ++
      List.replicate 9 .consumer)).BoundedFifo 2 :=
  bounded_fifo ⟨1, by decide, rfl⟩ (by decide) (fun _ => 0) [5, 6, 7] _

end Sixchange.SpscRing
