import Sixchange.Engine.Runs
import Sixchange.Market.Replica

namespace Sixchange

open OrderBook

def OrderBook.levelEntries (book : OrderBook) (side : Side) (index : ℕ) : List (ℕ × ℕ) :=
  (book.levelQueue side index).map fun slot =>
    ((book.order slot).orderId, (book.order slot).remainingQuantity)

theorem Refines.levelEntries_eq {symbolId : ℕ} {config : OrderBookConfig} {engine : MatchingEngine}
    {market : Market} {queues : Side → List Slot} (h : Refines symbolId config engine market queues)
    (sd : Side) (p : ℕ) : engine.orderBook.levelEntries sd p = queuesOf market.book sd p := by
  unfold levelEntries queuesOf
  rw [h.inv.levelQueue_eq, ← h.book]
  simp only [OrderBook.views, List.filter_map, List.map_map]
  rfl

theorem market_keeps_replica {symbolId : ℕ} {config : OrderBookConfig} {market : Market}
    {events : List (List EngineEvent)} {commands : List EngineCommand}
    (htrace : Transducer.trace (Market.process symbolId config) .empty commands = (market, events))
    (haccepted : market.accepted < word) : Replica.empty.replay events.flatten = queuesOf market.book := by
  have hreplica := Market.observes Replica.replay (R := fun market replica => replica = queuesOf market.book)
    (fun market replica c hs hn hr _ => by
      rw [hr]
      exact Market.replay_process hs hn c) rfl htrace haccepted
  rw [← hreplica, Replica.replay, List.foldl_flatten]
  rfl

theorem events_rebuild_book {symbolId : ℕ} {config : OrderBookConfig} {engine : MatchingEngine}
    (h : Fresh symbolId config engine) (commands : List EngineCommand) :
    ∃ final events, engine.run commands = .ok (final, events) ∧
      (acceptedCount events < word →
        Replica.empty.replay events.flatten = final.orderBook.levelEntries) := by
  obtain ⟨final, queues, market, events, hrun, htrace, hr, -, haccepted, -⟩ := h.run commands
  refine ⟨final, events, hrun, fun hlt => ?_⟩
  rw [market_keeps_replica htrace (haccepted.trans_lt hlt)]
  funext sd p
  exact (hr.levelEntries_eq sd p).symm

theorem events_rebuild_book_default : ∃ engine, Fresh 0 defaultOrderBookConfig engine ∧
    ∃ final events, engine.run [sampleBuy, sampleSell] = .ok (final, events) ∧
      Replica.empty.replay events.flatten = final.orderBook.levelEntries := by
  obtain ⟨engine, h⟩ := Fresh.default 0
  obtain ⟨final, events, hrun, hbook⟩ := events_rebuild_book h [sampleBuy, sampleSell]
  exact ⟨engine, h, final, events, hrun, hbook ((h.acceptedCount_le hrun).trans_lt (by decide))⟩

end Sixchange
