import Sixchange.Engine.Runs
import Sixchange.Market.Conservation

namespace Sixchange

open Account OrderBook
open scoped List

def OrderBook.restingQuantity (book : OrderBook) (orderId : ℕ) : ℕ :=
  (((book.linkedSlots .buy ++ book.linkedSlots .sell).filter fun slot => (book.order slot).orderId = orderId).map
    fun slot => (book.order slot).remainingQuantity).sum

theorem Refines.restingQuantity_eq {symbolId : ℕ} {config : OrderBookConfig} {engine : MatchingEngine}
    {market : Market} {queues : Side → List Slot} (h : Refines symbolId config engine market queues)
    (orderId : ℕ) : engine.orderBook.restingQuantity orderId = openQuantity orderId market.resting := by
  have hperm := ((h.inv.linkedSlots_perm .buy).append (h.inv.linkedSlots_perm .sell)).map
    (fun slot => (engine.orderBook.order slot).view)
  have hresting : (queues .buy ++ queues .sell).map (fun slot => (engine.orderBook.order slot).view) =
      market.resting := by
    rw [List.map_append, Market.resting, ← h.book]
    rfl
  rw [← hresting, ← openQuantity_perm hperm]
  unfold restingQuantity openQuantity
  rw [List.filter_map, List.map_map]
  rfl

theorem Audited.process {symbolId : ℕ} {config : OrderBookConfig} {market : Market} {log : List EngineEvent}
    (h : Audited log market.account) (hs : market.Sound config) (hn : market.Numbered) (c : EngineCommand)
    (hlt : (market.process symbolId config c).1.accepted < word) :
    Audited (log ++ (market.process symbolId config c).2) (market.process symbolId config c).1.account := by
  constructor
  · intro id
    rw [postings_append]
    exact (h.posted id).append (Market.posted_process hs hn c hlt id)
  · intro event hevent
    rcases List.mem_append.mp hevent with hevent | hevent
    · exact h.distinct event hevent
    · exact Market.traded_ne hn c ((Market.accepted_le market c).trans_lt hlt) hevent

theorem Audited.empty : Audited [] Market.empty.account := by
  constructor
  · intro id
    have hnone : Market.empty.account id = none := if_neg (fun h => Nat.not_succ_le_zero 0 (h.1.trans h.2))
    rw [hnone]
    exact .nil
  · intro event hevent
    cases hevent

theorem market_audited {symbolId : ℕ} {config : OrderBookConfig} {market : Market}
    {events : List (List EngineEvent)} {commands : List EngineCommand}
    (htrace : Transducer.trace (Market.process symbolId config) .empty commands = (market, events))
    (haccepted : market.accepted < word) : Audited events.flatten market.account := by
  have haudited := Market.observes (· ++ ·) (R := fun market log => Audited log market.account)
    (fun market log c hs hn hr hlt => hr.process hs hn c hlt) .empty htrace haccepted
  rwa [List.foldl_append_eq_append, List.map_id', List.nil_append] at haudited

theorem quantity_conserved {symbolId : ℕ} {config : OrderBookConfig} {engine : MatchingEngine}
    (h : Fresh symbolId config engine) (commands : List EngineCommand) :
    ∃ final events, engine.run commands = .ok (final, events) ∧
      (acceptedCount events < word → Conserved events.flatten final.orderBook.restingQuantity) := by
  obtain ⟨final, queues, market, events, hrun, htrace, hr, -, haccepted, -⟩ := h.run commands
  refine ⟨final, events, hrun, fun hlt => ?_⟩
  apply (market_audited htrace (haccepted.trans_lt hlt)).conserved
  intro id r hr'
  unfold Market.account at hr'
  split_ifs at hr'
  rw [hr.restingQuantity_eq]
  exact Option.some.inj hr'

theorem quantity_conserved_default : ∃ engine, Fresh 0 defaultOrderBookConfig engine ∧
    ∃ final events, engine.run [sampleBuy, sampleSell] = .ok (final, events) ∧
      Conserved events.flatten final.orderBook.restingQuantity := by
  obtain ⟨engine, h⟩ := Fresh.default 0
  obtain ⟨final, events, hrun, hconserved⟩ := quantity_conserved h [sampleBuy, sampleSell]
  exact ⟨engine, h, final, events, hrun, hconserved ((h.acceptedCount_le hrun).trans_lt (by decide))⟩

end Sixchange
