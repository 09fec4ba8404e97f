import Sixchange.Engine.Audit
import Sixchange.Engine.EventProtocol
import Sixchange.Market.Overtaking
import Sixchange.Market.Turnover

namespace Sixchange

open Auditor

theorem no_overtaking {symbolId : ℕ} {config : OrderBookConfig} {engine : MatchingEngine}
    (h : Fresh symbolId config engine) (commands : List EngineCommand) :
    ∃ final events, engine.run commands = .ok (final, events) ∧ (acceptedCount events < word →
      ∀ before trade after, events.flatten = before ++ .tradeExecuted trade :: after →
        ∀ first : OrderRestedEvent, .orderRested first ∈ before → first.side = trade.aggressingSide.opposite →
          (first.side.better first.price trade.price ∨ first.price = trade.price ∧
            ∃ second : OrderRestedEvent, second.orderId = trade.restingOrderId ∧
              [.orderRested first, .orderRested second].Sublist before) →
          first.orderId ∈ departedIds before) := by
  obtain ⟨final, queues, market, events, hrun, htrace, -, -, haccepted, htrades, -⟩ := h.run commands
  refine ⟨final, events, hrun, fun hlt before trade after hsplit first hfirst hside hahead => ?_⟩
  have hmarket : market.accepted < word := haccepted.trans_lt hlt
  have hcovered : market.TradesCovered := by
    have hrun : (Transducer.trace (Market.process symbolId config) .empty commands).1.TradesCovered :=
      Transducer.trace_invariant (fun _ c hm => hm.process c) .empty commands
    rwa [htrace] at hrun
  have hids := (market_counted htrace hmarket (hcovered.trades_le.trans_lt hmarket)).accepted
  have hpath := market_passes_audit htrace hmarket
  rw [hsplit] at hpath hids
  obtain ⟨auditor, hbefore, htail⟩ := hpath.split
  cases htail with
  | cons htrade htail =>
    refine not_passed_over (recorded_of_passes hbefore ?_) htrade hfirst hside hahead
    apply List.Nodup.sublist ((List.sublist_append_left before _).filterMap EngineEvent.acceptedId)
    exact hids ▸ List.nodup_range'

def sampleBefore : List EngineEvent :=
  let first := sampleOrder .buy 100 10
  let second := sampleOrder .buy 100 5
  let third := sampleOrder .sell 90 12
  [accepted first 1, rested first 1 10, accepted second 2, rested second 2 5, accepted third 3,
    traded third 3 1 { resting := incoming first 1, quantity := 10, aggressingRemaining := 2, restingRemaining := 0 }]

theorem no_overtaking_default : ∃ engine, Fresh 0 defaultOrderBookConfig engine ∧
    ∃ final events trade, engine.run sampleSweep = .ok (final, events) ∧
      events.flatten = sampleBefore ++ [.tradeExecuted trade] ∧ trade.restingOrderId = 2 ∧
      1 ∈ departedIds sampleBefore := by
  obtain ⟨engine, h⟩ := Fresh.default 0
  obtain ⟨final, events, hrun, hpriority⟩ := no_overtaking h sampleSweep
  have hlt : acceptedCount events < word := (h.acceptedCount_le hrun).trans_lt (by decide)
  have hsplit : events.flatten = sampleBefore ++ [traded (sampleOrder .sell 90 12) 3 2
      { resting := incoming (sampleOrder .buy 100 5) 2, quantity := 2, aggressingRemaining := 0
        restingRemaining := 3 }] := by
    rw [h.events_eq hrun]
    decide +kernel
  have hfirst : rested (sampleOrder .buy 100 10) 1 10 ∈ sampleBefore := by decide
  have horder : [rested (sampleOrder .buy 100 10) 1 10, rested (sampleOrder .buy 100 5) 2 5].Sublist sampleBefore := by
    decide
  have hdeparted := hpriority hlt _ _ _ hsplit _ hfirst rfl (.inr ⟨rfl, _, rfl, horder⟩)
  exact ⟨engine, h, final, events, _, hrun, hsplit, rfl, hdeparted⟩

end Sixchange
