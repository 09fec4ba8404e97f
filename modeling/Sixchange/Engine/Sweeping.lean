import Sixchange.Book.SweepLoop
import Sixchange.Engine.Runs

namespace Sixchange

open OrderBook

theorem BookInv.admit_inv {book book' : OrderBook} {queues : Side → List Slot} (h : BookInv book queues [])
    {command : NewOrderCommand} {orderId : ℕ} {order : Slot}
    (hallowed : book.admitOrder command orderId = (book', .ok order)) : BookInv book' queues [order] := by
  cases hadmitted : admitError book.symbolId book.config (book.heldIds (heldSlots queues [])) orderId command with
  | none =>
    obtain ⟨book₁, x, he, hinv, -⟩ := h.admit_ok hadmitted
    obtain ⟨rfl, hx⟩ := Prod.mk.inj (he.symm.trans hallowed)
    obtain rfl := Except.ok.inj hx
    exact hinv
  | some reason =>
    obtain ⟨book₁, he, -⟩ := h.admit_error hadmitted
    cases (Prod.mk.inj (he.symm.trans hallowed)).2

theorem sweep_exact {symbolId : ℕ} {config : OrderBookConfig} {engine : MatchingEngine}
    (h : Fresh symbolId config engine) (commands : List EngineCommand) :
    ∃ final events, engine.run commands = .ok (final, events) ∧
      ∀ command orderId book order, final.orderBook.admitOrder command orderId = (book, .ok order) →
        ∃ book' executions, book.matchOrder order = .ok (book', executions) ∧
          SweepExact book (book.order order).side.opposite order book' executions := by
  obtain ⟨final, queues, market, events, hrun, -, hr, -⟩ := h.run commands
  refine ⟨final, events, hrun, fun command orderId book order hallowed => ?_⟩
  exact (hr.inv.admit_inv hallowed).sweepExact

def sampleCommand : NewOrderCommand where
  seq := 2
  price := 90
  quantity := 14
  clientOrderId := 8
  clientId := 1
  symbolId := 0
  side := .sell
  orderType := .limit
  tif := .gfd

theorem sweep_exact_default : ∃ engine, Fresh 0 defaultOrderBookConfig engine ∧
    ∃ final events book order book' executions, engine.run [sampleBuy] = .ok (final, events) ∧
      final.orderBook.admitOrder sampleCommand 2 = (book, .ok order) ∧
      book.matchOrder order = .ok (book', executions) ∧
      SweepExact book (book.order order).side.opposite order book' executions := by
  obtain ⟨engine, h⟩ := Fresh.default 0
  obtain ⟨final, events, hrun, hsweeps⟩ := sweep_exact h [sampleBuy]
  obtain ⟨final', queues, market, events', hrun', htrace, hr, -⟩ := h.run [sampleBuy]
  obtain ⟨rfl, rfl⟩ := Prod.mk.inj (Except.ok.inj (hrun.symm.trans hrun'))
  have hadmissible : admitError 0 defaultOrderBookConfig market.ids 2 sampleCommand = none := by
    obtain ⟨rfl, -⟩ := Prod.mk.inj htrace
    decide
  rw [← hr.symbolId_eq, ← hr.config_eq, ← hr.ids_eq] at hadmissible
  obtain ⟨book, order, hallowed, -⟩ := hr.inv.admit_ok hadmissible
  obtain ⟨book', executions, hmatch, hexact⟩ := hsweeps sampleCommand 2 book order hallowed
  exact ⟨engine, h, final, events, book, order, book', executions, hrun, hallowed, hmatch, hexact⟩

end Sixchange
