import Sixchange.Engine.Conservation
import Sixchange.Engine.Reference
import Sixchange.Market.Protocol

namespace Sixchange

structure EventProtocol (commands : List EngineCommand) (events : List (List EngineEvent))
    (final : MatchingEngine) : Prop where
  answered : List.Forall₂ Answered commands events
  drops : ∀ earlier event later, events.flatten = earlier ++ .tradeExecuted event :: later →
    lastRemaining event.aggressingOrderId earlier =
        some (event.quantity + event.aggressingRemainingQuantity) ∧
      lastRemaining event.restingOrderId earlier =
        some (event.quantity + event.restingRemainingQuantity)
  remaining : ∀ id, final.orderBook.restingQuantity id = (lastRemaining id events.flatten).getD 0
  accepted_ids : acceptedIds events.flatten = List.range' 1 (acceptedCount events)
  trade_ids : tradeIds events.flatten = List.range' 1 (tradeCount events)
  execution_count : final.executionCount = tradeCount events

theorem market_counted {symbolId : ℕ} {config : OrderBookConfig} {market : Market}
    {events : List (List EngineEvent)} {commands : List EngineCommand}
    (htrace : Transducer.trace (Market.process symbolId config) .empty commands = (market, events))
    (haccepted : market.accepted < word) (htrades : market.trades < word) :
    Market.Counted market events.flatten := by
  let B (market : Market) : Prop := market.accepted < word ∧ market.trades < word
  have hback : ∀ market c, B (market.process symbolId config c).1 → B market := fun market c h =>
    ⟨(Market.accepted_le market c).trans_lt h.1, (trades_le market c).trans_lt h.2⟩
  have hend : B (Transducer.trace (Market.process symbolId config) .empty commands).1 := by
    rw [htrace]
    exact ⟨haccepted, htrades⟩
  have hcounted : Market.Counted (Transducer.trace (Market.process symbolId config) .empty commands).1
      ((Transducer.trace (Market.process symbolId config) .empty commands).2.foldl (· ++ ·) []) :=
    Transducer.trace_observes_within hback (fun market log c h hlt => h.process c hlt.1 hlt.2) ⟨rfl, rfl⟩
      commands hend
  rwa [htrace, List.foldl_append_eq_append, List.map_id', List.nil_append] at hcounted

theorem event_protocol {symbolId : ℕ} {config : OrderBookConfig} {engine : MatchingEngine}
    (h : Fresh symbolId config engine) (commands : List EngineCommand) :
    ∃ final events, engine.run commands = .ok (final, events) ∧
      (acceptedCount events < word → tradeCount events < word → EventProtocol commands events final) := by
  obtain ⟨final, queues, market, events, hrun, htrace, hr, -, haccepted, htrades, hn⟩ := h.run commands
  refine ⟨final, events, hrun, fun ha ht => ?_⟩
  have hnumbered := hn ha
  rw [← haccepted] at ha
  rw [← htrades] at ht
  have haudited := market_audited htrace ha
  have hcounted := market_counted htrace ha ht
  have hanswered : List.Forall₂ Answered commands
      (Transducer.trace (Market.process symbolId config) .empty commands).2 :=
    Transducer.trace_answers (fun market c (hs : market.Sound config) =>
      ⟨hs.process c, Market.answered_process hs c⟩) .empty commands
  rw [htrace] at hanswered
  constructor
  · exact hanswered
  · exact fun earlier event later hlog => haudited.drops hlog
  · intro id
    rw [lastRemaining_eq (haudited.posted id), hr.restingQuantity_eq, Market.account]
    split_ifs with hrange
    · rfl
    · exact hnumbered.openQuantity_eq_zero hrange
  · rw [← haccepted]
    exact hcounted.accepted
  · rw [← htrades]
    exact hcounted.trades
  · rw [MatchingEngine.executionCount, hr.executionCount_eq, Nat.mod_eq_of_lt ht, htrades]

theorem event_protocol_default : ∃ engine, Fresh 0 defaultOrderBookConfig engine ∧
    ∃ final events, engine.run [sampleBuy, sampleSell] = .ok (final, events) ∧
      EventProtocol [sampleBuy, sampleSell] events final := by
  obtain ⟨engine, h⟩ := Fresh.default 0
  obtain ⟨final, events, hrun, hprotocol⟩ := event_protocol h [sampleBuy, sampleSell]
  refine ⟨engine, h, final, events, hrun, hprotocol ((h.acceptedCount_le hrun).trans_lt (by decide)) ?_⟩
  rw [h.events_eq hrun]
  decide

end Sixchange
