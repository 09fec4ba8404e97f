import Sixchange.Engine.Depth
import Sixchange.Market.BestExecution

namespace Sixchange

open OrderBook

def OrderBook.offers (book : OrderBook) (command : NewOrderCommand) : List RestingOrder :=
  (book.linkedSlots command.side.opposite).map fun slot => (book.order slot).view

theorem best_execution {symbolId : ℕ} {config : OrderBookConfig} {engine : MatchingEngine}
    (h : Fresh symbolId config engine) (commands : List EngineCommand) :
    ∃ final events, engine.run commands = .ok (final, events) ∧
      ∀ command, final.Accepts symbolId config command →
        ∃ next executions, final.process (.newOrder command) = .ok (next, executions) ∧
          BestExecution command (final.orderBook.offers command) executions := by
  obtain ⟨final, queues, market, events, hrun, -, hr, hs, -⟩ := h.run commands
  refine ⟨final, events, hrun, fun command haccepts => ?_⟩
  obtain ⟨next, -, hprocess, -⟩ := hr.process (.newOrder command)
  have hevents : (market.process symbolId config (.newOrder command)).2 = market.acceptEvents command := by
    rw [Market.process, Market.submit, (hr.accepts_iff command).mp haccepts]
  have hids : market.ids.Nodup := by
    rw [← hr.ids_eq]
    exact hr.inv.heldIds_nodup
  have hoffers : (market.book command.side.opposite).Perm (final.orderBook.offers command) := by
    rw [← hr.book]
    exact ((hr.inv.linkedSlots_perm _).map _).symm
  rw [hevents] at hprocess
  exact ⟨next, _, hprocess, (Market.acceptEvents_best hs hids command).perm hoffers⟩

def sampleBids : List EngineCommand :=
  [.newOrder (sampleOrder .buy 100 10), .newOrder (sampleOrder .buy 99 5)]

theorem best_execution_default : ∃ engine, Fresh 0 defaultOrderBookConfig engine ∧
    ∃ final events next executions, engine.run sampleBids = .ok (final, events) ∧
      final.process (.newOrder (sampleOrder .sell 90 12)) = .ok (next, executions) ∧
      BestExecution (sampleOrder .sell 90 12) (final.orderBook.offers (sampleOrder .sell 90 12)) executions ∧
      volume executions = 12 ∧ cost .buy executions = -(10 * 100 + 2 * 99) := by
  obtain ⟨engine, h⟩ := Fresh.default 0
  obtain ⟨final, events, hrun, hbest⟩ := best_execution h sampleBids
  obtain ⟨queues, hr⟩ := h.refines hrun
  obtain ⟨next, executions, hprocess, hexecuted⟩ := hbest _ ((hr.accepts_iff (sampleOrder .sell 90 12)).mpr (by decide))
  obtain ⟨next', -, hprocess', -⟩ := hr.process (.newOrder (sampleOrder .sell 90 12))
  obtain ⟨-, rfl⟩ := Prod.mk.inj (Except.ok.inj (hprocess.symm.trans hprocess'))
  exact ⟨engine, h, final, events, next, _, hrun, hprocess, hexecuted, by decide +kernel, by decide +kernel⟩

end Sixchange
