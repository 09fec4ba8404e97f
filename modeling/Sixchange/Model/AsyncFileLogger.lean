import Sixchange.Model.SpscRing

namespace Sixchange

open SpscRing

structure AsyncFileLogger (α : Type) where
  queue : SpscRing α
  droppedRecords : ℕ
  stopRequested : Bool

namespace AsyncFileLogger

variable {α : Type}

def queueCapacity : ℕ := 16384

def batchSize : ℕ := 1024

/-- A call of `enqueue_record`, named by what it does next. -/
inductive Enqueue (α : Type)
  | push (call : Push α)
  | addDropped (record : α)
  deriving DecidableEq, Repr

def Enqueue.record : Enqueue α → α
  | .push call => call.value
  | .addDropped record => record

/-- The worker, named in the same way: the tests of the loop of `run`, its batch, and the exchanges. The
operands of `empty` are loaded from left to right; only the worker stores to the first. -/
inductive Worker (α : Type)
  | testStop
  | testEmpty
  | testEmptyHead (tail : ℕ)
  | batch (processed : ℕ) (call : Pop α)
  | exchange
  | exchangeLast
  | returned
  deriving DecidableEq, Repr

inductive Line (α : Type)
  | record (record : α)
  | dropped (count : ℕ)
  deriving DecidableEq, Repr

variable (logger : AsyncFileLogger α)

def enqueueRecord : Enqueue α → AsyncFileLogger α × (Enqueue α ⊕ Bool)
  | .push call =>
    match tryPush queueCapacity logger.queue call with
    | (queue, .inl call) => ({ logger with queue }, .inl (.push call))
    | (queue, .inr true) => ({ logger with queue }, .inr true)
    | (queue, .inr false) => ({ logger with queue }, .inl (.addDropped call.value))
  | .addDropped _ => ({ logger with droppedRecords := wrapAdd logger.droppedRecords 1 }, .inr false)

def nextInBatch (processed : ℕ) : Worker α :=
  if processed < batchSize then .batch processed .loadTail else .exchange

def droppedLines (dropped : ℕ) : List (Line α) := if dropped = 0 then [] else [.dropped dropped]

def run : Worker α → AsyncFileLogger α × Worker α × List (Line α)
  | .testStop => if logger.stopRequested then (logger, .testEmpty, []) else (logger, nextInBatch 0, [])
  | .testEmpty => (logger, .testEmptyHead logger.queue.tail, [])
  | .testEmptyHead tail =>
    if tail = logger.queue.head then (logger, .exchangeLast, []) else (logger, nextInBatch 0, [])
  | .batch processed call =>
    match tryPop queueCapacity logger.queue call with
    | (queue, .inl call) => ({ logger with queue }, .batch processed call, [])
    | (queue, .inr (some record)) => ({ logger with queue }, nextInBatch (processed + 1), [.record record])
    | (queue, .inr none) => ({ logger with queue }, .exchange, [])
  | .exchange => ({ logger with droppedRecords := 0 }, .testStop, droppedLines logger.droppedRecords)
  | .exchangeLast => ({ logger with droppedRecords := 0 }, .returned, droppedLines logger.droppedRecords)
  | .returned => (logger, .returned, [])

/-- The thread that calls `enqueue_record` with each of `calls` and then the destructor, and the worker.
The records of the calls that have returned true are kept in order, and the others counted. -/
structure Threads (α : Type) where
  logger : AsyncFileLogger α
  calls : List α
  producer : Option (Enqueue α)
  worker : Worker α
  accepted : List α
  refused : ℕ
  lines : List (Line α)

inductive Thread
  | producer
  | destructor
  | worker
  deriving DecidableEq, Repr

namespace Threads

def start (storage : ℕ → α) (calls : List α) : Threads α where
  logger := { queue := { storage, head := 0, tail := 0 }, droppedRecords := 0, stopRequested := false }
  calls := calls
  producer := none
  worker := .testStop
  accepted := []
  refused := 0
  lines := []

variable (threads : Threads α)

def stepProducer : Threads α :=
  match threads.producer, threads.calls with
  | none, [] => threads
  | none, record :: calls => { threads with calls, producer := some (.push (.loadHead record)) }
  | some call, _ =>
    match threads.logger.enqueueRecord call with
    | (logger, .inl call) => { threads with logger, producer := some call }
    | (logger, .inr true) =>
      { threads with logger, producer := none, accepted := threads.accepted ++ [call.record] }
    | (logger, .inr false) => { threads with logger, producer := none, refused := threads.refused + 1 }

/-- The destructor runs once every call has returned. -/
def stepDestructor : Threads α :=
  match threads.producer, threads.calls with
  | none, [] => { threads with logger := { threads.logger with stopRequested := true } }
  | _, _ => threads

def stepWorker : Threads α :=
  let (logger, worker, lines) := threads.logger.run threads.worker
  { threads with logger, worker, lines := threads.lines ++ lines }

def step : Thread → Threads α
  | .producer => threads.stepProducer
  | .destructor => threads.stepDestructor
  | .worker => threads.stepWorker

def interleave (schedule : List Thread) : Threads α := schedule.foldl step threads

end Threads

end AsyncFileLogger

end Sixchange
