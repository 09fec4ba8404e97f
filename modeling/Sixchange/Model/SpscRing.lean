import Sixchange.Model.Core

namespace Sixchange

structure SpscRing (α : Type) where
  storage : ℕ → α
  head : ℕ
  tail : ℕ

namespace SpscRing

variable {α : Type}

/-- A call of `try_push`, named by what it does next: one load, slot access or store. -/
inductive Push (α : Type)
  | loadHead (value : α)
  | loadTail (value : α) (head : ℕ)
  | writeSlot (value : α) (head : ℕ)
  | storeHead (value : α) (head : ℕ)
  deriving DecidableEq, Repr

def Push.value : Push α → α
  | .loadHead value => value
  | .loadTail value _ => value
  | .writeSlot value _ => value
  | .storeHead value _ => value

inductive Pop (α : Type)
  | loadTail
  | loadHead (tail : ℕ)
  | readSlot (tail : ℕ)
  | storeTail (tail : ℕ) (value : α)
  deriving DecidableEq, Repr

variable (capacity : ℕ) (ring : SpscRing α)

def mask : ℕ := capacity - 1

/-- One step of `try_push`: what is left of the call, or what it returns. -/
def tryPush : Push α → SpscRing α × (Push α ⊕ Bool)
  | .loadHead value => (ring, .inl (.loadTail value ring.head))
  | .loadTail value head =>
    if capacity ≤ wrapSub head ring.tail then (ring, .inr false) else (ring, .inl (.writeSlot value head))
  | .writeSlot value head =>
    ({ ring with storage := Function.update ring.storage (head &&& mask capacity) value },
      .inl (.storeHead value head))
  | .storeHead _ head => ({ ring with head := wrapAdd head 1 }, .inr true)

def tryPop : Pop α → SpscRing α × (Pop α ⊕ Option α)
  | .loadTail => (ring, .inl (.loadHead ring.tail))
  | .loadHead tail => if tail = ring.head then (ring, .inr none) else (ring, .inl (.readSlot tail))
  | .readSlot tail => (ring, .inl (.storeTail tail (ring.storage (tail &&& mask capacity))))
  | .storeTail tail value => ({ ring with tail := wrapAdd tail 1 }, .inr (some value))

/-- One producer, which calls `try_push` with each of `calls`, and one consumer, which calls `try_pop`
over and over. The values of the calls that have returned true are kept in order. -/
structure Threads (α : Type) where
  ring : SpscRing α
  calls : List α
  producer : Option (Push α)
  consumer : Option (Pop α)
  pushed : List α
  popped : List α

inductive Thread
  | producer
  | consumer
  deriving DecidableEq, Repr

namespace Threads

def start (storage : ℕ → α) (counter : ℕ) (calls : List α) : Threads α where
  ring := { storage, head := counter, tail := counter }
  calls := calls
  producer := none
  consumer := none
  pushed := []
  popped := []

variable (threads : Threads α)

def stepProducer : Threads α :=
  match threads.producer, threads.calls with
  | none, [] => threads
  | none, value :: calls => { threads with calls, producer := some (.loadHead value) }
  | some call, _ =>
    match tryPush capacity threads.ring call with
    | (ring, .inl call) => { threads with ring, producer := some call }
    | (ring, .inr true) => { threads with ring, producer := none, pushed := threads.pushed ++ [call.value] }
    | (ring, .inr false) => { threads with ring, producer := none }

def stepConsumer : Threads α :=
  match threads.consumer with
  | none => { threads with consumer := some .loadTail }
  | some call =>
    match tryPop capacity threads.ring call with
    | (ring, .inl call) => { threads with ring, consumer := some call }
    | (ring, .inr (some value)) =>
      { threads with ring, consumer := none, popped := threads.popped ++ [value] }
    | (ring, .inr none) => { threads with ring, consumer := none }

def step : Thread → Threads α
  | .producer => threads.stepProducer capacity
  | .consumer => threads.stepConsumer capacity

def interleave (schedule : List Thread) : Threads α := schedule.foldl (step capacity) threads

end Threads

end SpscRing

end Sixchange
