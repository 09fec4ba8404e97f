import Sixchange.Engine.Runs
import Sixchange.Market.Exchange

namespace Sixchange

theorem trades_le {symbolId : ℕ} {config : OrderBookConfig} (market : Market) (c : EngineCommand) :
    market.trades ≤ (market.process symbolId config c).1.trades := by
  rw [Market.countP_trades]
  exact Nat.le_add_right _ _

theorem market_follows_exchange {symbolId : ℕ} {config : OrderBookConfig} {market : Market}
    {events : List (List EngineEvent)} {commands : List EngineCommand}
    (htrace : Transducer.trace (Market.process symbolId config) .empty commands = (market, events))
    (haccepted : market.accepted < word) (htrades : market.trades < word) :
    events = (Transducer.trace (Exchange.process symbolId config) .empty commands).2 := by
  let R (market : Market) (exchange : Exchange) : Prop :=
    market.Sound config ∧ market.Numbered ∧ Arrivals market exchange
  let B (market : Market) : Prop := market.accepted < word ∧ market.trades < word
  have hback : ∀ market c, B (market.process symbolId config c).1 → B market := fun market c h =>
    ⟨(Market.accepted_le market c).trans_lt h.1, (trades_le market c).trans_lt h.2⟩
  have hstep : ∀ market exchange c, R market exchange → B (market.process symbolId config c).1 →
      (market.process symbolId config c).2 = (exchange.process symbolId config c).2 ∧
        R (market.process symbolId config c).1 (exchange.process symbolId config c).1 := by
    rintro market exchange c ⟨hs, hn, ha⟩ ⟨haccepted, htrades⟩
    obtain ⟨hevents, ha'⟩ := ha.process hn c haccepted htrades
    exact ⟨hevents, hs.process c, hn.process hs c haccepted, ha'⟩
  have hstart : R .empty .empty := ⟨.empty, .empty, .empty⟩
  have hend : B (Transducer.trace (Market.process symbolId config) .empty commands).1 := by
    rw [htrace]
    exact ⟨haccepted, htrades⟩
  have hevents := (Transducer.trace_simulates_within hback hstep hstart commands hend).1
  rwa [htrace] at hevents

theorem refines_reference {symbolId : ℕ} {config : OrderBookConfig} {engine : MatchingEngine}
    (h : Fresh symbolId config engine) (commands : List EngineCommand) :
    ∃ final events, engine.run commands = .ok (final, events) ∧
      (acceptedCount events < word → tradeCount events < word →
        events = (Transducer.trace (Exchange.process symbolId config) .empty commands).2) := by
  obtain ⟨final, queues, market, events, hrun, htrace, -, -, haccepted, htrades, -⟩ := h.run commands
  refine ⟨final, events, hrun, fun ha ht => ?_⟩
  exact market_follows_exchange htrace (haccepted.trans_lt ha) (htrades.trans_lt ht)

theorem refines_reference_default : ∃ engine, Fresh 0 defaultOrderBookConfig engine ∧
    ∃ final events, engine.run [sampleBuy, sampleSell] = .ok (final, events) ∧
      events = (Transducer.trace (Exchange.process 0 defaultOrderBookConfig) .empty
        [sampleBuy, sampleSell]).2 := by
  obtain ⟨engine, h⟩ := Fresh.default 0
  obtain ⟨final, events, hrun, hevents⟩ := refines_reference h [sampleBuy, sampleSell]
  refine ⟨engine, h, final, events, hrun, hevents ((h.acceptedCount_le hrun).trans_lt (by decide)) ?_⟩
  rw [h.events_eq hrun]
  decide

end Sixchange
