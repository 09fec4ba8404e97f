import Sixchange.Engine.Runs

namespace Sixchange

open OrderBook

namespace Refines

variable {symbolId : ℕ} {config : OrderBookConfig} {engine : MatchingEngine} {market : Market}
  {queues : Side → List Slot}

theorem best_eq (h : Refines symbolId config engine market queues) (sd : Side) :
    (engine.orderBook.sides sd).best = (market.book sd).head?.map RestingOrder.price := by
  simp only [h.inv.best sd, ← h.book, OrderBook.views, List.head?_map, Option.map_map]
  rfl

end Refines

structure BestPricesExact (config : OrderBookConfig) (book : OrderBook) : Prop where
  no_bid : book.bestBid = none ↔ ∀ p < config.priceLevelCount, (book.level .buy p).empty = true
  bid : ∀ best, book.bestBid = some best → best < config.priceLevelCount ∧
    (book.level .buy best).empty = false ∧
    ∀ p < config.priceLevelCount, (book.level .buy p).empty = false → p ≤ best
  no_ask : book.bestAsk = none ↔ ∀ p < config.priceLevelCount, (book.level .sell p).empty = true
  ask : ∀ best, book.bestAsk = some best → best < config.priceLevelCount ∧
    (book.level .sell best).empty = false ∧
    ∀ p < config.priceLevelCount, (book.level .sell p).empty = false → best ≤ p
  uncrossed : ∀ bid ask, book.bestBid = some bid → book.bestAsk = some ask → bid < ask

theorem best_prices_exact {symbolId : ℕ} {config : OrderBookConfig} {engine : MatchingEngine}
    (h : Fresh symbolId config engine) (commands : List EngineCommand) :
    ∃ final events, engine.run commands = .ok (final, events) ∧ BestPricesExact config final.orderBook := by
  obtain ⟨final, queues, market, events, hrun, -, hr, hs, -⟩ := h.run commands
  rw [← hr.config_eq]
  refine ⟨final, events, hrun, hr.inv.best_eq_none_iff .buy, ?_, hr.inv.best_eq_none_iff .sell, ?_, ?_⟩
  · intro best hbest
    obtain ⟨hlt, hne, hall⟩ := hr.inv.best_eq_some hbest
    exact ⟨hlt, hne, fun p _ hp => Nat.le_of_not_lt (hall p hp)⟩
  · intro best hbest
    obtain ⟨hlt, hne, hall⟩ := hr.inv.best_eq_some hbest
    exact ⟨hlt, hne, fun p _ hp => Nat.le_of_not_lt (hall p hp)⟩
  · intro bid ask hbid hask
    rw [bestBid, hr.best_eq, Option.map_eq_some_iff] at hbid
    rw [bestAsk, hr.best_eq, Option.map_eq_some_iff] at hask
    obtain ⟨b, hb, rfl⟩ := hbid
    obtain ⟨a, ha, rfl⟩ := hask
    have huncrossed := hs.uncrossed .buy b (List.mem_of_head? hb) a (List.mem_of_head? ha)
    exact Nat.lt_of_not_le (of_decide_eq_false huncrossed)

theorem best_prices_exact_default : ∃ engine, Fresh 0 defaultOrderBookConfig engine ∧
    ∃ final events, engine.run [sampleBuy, sampleSell] = .ok (final, events) ∧
      BestPricesExact defaultOrderBookConfig final.orderBook := by
  obtain ⟨engine, h⟩ := Fresh.default 0
  exact ⟨engine, h, best_prices_exact h _⟩

end Sixchange
