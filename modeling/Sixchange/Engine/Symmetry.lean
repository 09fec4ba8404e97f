import Sixchange.Engine.BestPrices
import Sixchange.Market.Relabelling

namespace Sixchange

open OrderBook

structure RelabelledBook {priceLevelCount : ℕ} (ρ : Relabelling priceLevelCount) (book book' : OrderBook) :
    Prop where
  best : ∀ sd, (book'.sides (ρ.side sd)).best = (book.sides sd).best.map ρ.price
  levelOrders : ∀ sd p, book'.levelOrders (ρ.side sd) (ρ.price p) = (book.levelOrders sd p).map ρ.order

theorem relabelled_run {symbolId : ℕ} {config : OrderBookConfig} {engine : MatchingEngine}
    (h : Fresh symbolId config engine) (ρ : Relabelling config.priceLevelCount) (commands : List EngineCommand) :
    ∃ final events final', engine.run commands = .ok (final, events) ∧
      engine.run (commands.map ρ.command) = .ok (final', events.map (List.map ρ.event)) ∧
      RelabelledBook ρ final.orderBook final'.orderBook := by
  obtain ⟨final, queues, market, events, hrun, htrace, hr, hs, -⟩ := h.run commands
  obtain ⟨final', queues', market', events', hrun', htrace', hr', -⟩ := h.run (commands.map ρ.command)
  let R (market market' : Market) : Prop := market.Sound config ∧ market.ids.Nodup ∧ ρ.Relates market market'
  have hstep : ∀ market market' c, R market market' →
      (market'.process symbolId config (ρ.command c)).2 = (market.process symbolId config c).2.map ρ.event ∧
        R (market.process symbolId config c).1 (market'.process symbolId config (ρ.command c)).1 := by
    rintro market market' c ⟨hs, hd, hm⟩
    obtain ⟨hevents, hm'⟩ := hm.process hs hd c
    exact ⟨hevents, hs.process c, Market.ids_nodup_process hd c, hm'⟩
  have hstart : R .empty .empty := ⟨.empty, List.nodup_nil, .empty⟩
  have hrelated := Transducer.trace_map hstep hstart commands
  rw [htrace, htrace'] at hrelated
  obtain ⟨rfl, -, -, hm⟩ := hrelated
  refine ⟨final, events, final', hrun, hrun', fun sd => ?_, fun sd p => ?_⟩
  · rw [hr'.best_eq, hr.best_eq, hm.book, List.head?_map, Option.map_map, Option.map_map]
    rfl
  · rw [hr'.levelOrders_eq, hr.levelOrders_eq, hm.book, List.filter_map]
    congr 1
    apply List.filter_congr
    intro r hr
    simp only [Function.comp_apply, decide_eq_decide]
    exact ρ.price_eq_iff (hs.price_lt sd r hr) p

def mirrorPrice (priceLevelCount price : ℕ) : ℕ :=
  if price < priceLevelCount then priceLevelCount - 1 - price else price

def mirror (priceLevelCount : ℕ) : Relabelling priceLevelCount where
  side := Side.opposite
  price := mirrorPrice priceLevelCount
  owner := id
  seq := id
  side_opposite _ := rfl
  price_lt p := by
    unfold mirrorPrice
    split_ifs <;> omega
  better_iff sd p q hp hq := by
    rw [mirrorPrice, mirrorPrice, if_pos hp, if_pos hq]
    cases sd <;> simp only [Side.opposite, Side.better] <;> omega
  owner_injective := Function.injective_id

theorem mirrored_run {symbolId : ℕ} {config : OrderBookConfig} {engine : MatchingEngine}
    (h : Fresh symbolId config engine) (commands : List EngineCommand) :
    ∃ final events final', engine.run commands = .ok (final, events) ∧
      engine.run (commands.map (mirror config.priceLevelCount).command) =
        .ok (final', events.map (List.map (mirror config.priceLevelCount).event)) ∧
      final'.orderBook.bestBid = final.orderBook.bestAsk.map (config.priceLevelCount - 1 - ·) ∧
      final'.orderBook.bestAsk = final.orderBook.bestBid.map (config.priceLevelCount - 1 - ·) := by
  obtain ⟨final, events, final', hrun, hrun', hbook⟩ := relabelled_run h (mirror config.priceLevelCount) commands
  obtain ⟨_, _, hexact, hbest⟩ := best_prices_exact h commands
  obtain ⟨rfl, -⟩ := Prod.mk.inj (Except.ok.inj (hrun.symm.trans hexact))
  refine ⟨final, events, final', hrun, hrun', (hbook.best .sell).trans ?_, (hbook.best .buy).trans ?_⟩
  · apply Option.map_congr
    intro best hask
    exact if_pos (hbest.ask best hask).1
  · apply Option.map_congr
    intro best hbid
    exact if_pos (hbest.bid best hbid).1

theorem mirrored_run_default : ∃ engine, Fresh 0 defaultOrderBookConfig engine ∧
    ∃ final events final', engine.run [sampleBuy, sampleSell] = .ok (final, events) ∧
      engine.run ([sampleBuy, sampleSell].map (mirror 100000).command) =
        .ok (final', events.map (List.map (mirror 100000).event)) ∧
      final'.orderBook.bestBid = final.orderBook.bestAsk.map (100000 - 1 - ·) ∧
      final'.orderBook.bestAsk = final.orderBook.bestBid.map (100000 - 1 - ·) := by
  obtain ⟨engine, h⟩ := Fresh.default 0
  exact ⟨engine, h, mirrored_run h _⟩

def renameOwners (priceLevelCount : ℕ) (owner : ℕ × ℕ → ℕ × ℕ) (howner : Function.Injective owner)
    (seq : ℕ → ℕ) :
    Relabelling priceLevelCount where
  side := id
  price := id
  owner := owner
  seq := seq
  side_opposite _ := rfl
  price_lt _ := Iff.rfl
  better_iff _ _ _ _ _ := Iff.rfl
  owner_injective := howner

theorem renamed_run {symbolId : ℕ} {config : OrderBookConfig} {engine : MatchingEngine}
    (h : Fresh symbolId config engine) (owner : ℕ × ℕ → ℕ × ℕ) (howner : Function.Injective owner)
    (seq : ℕ → ℕ)
    (commands : List EngineCommand) :
    ∃ final events final', engine.run commands = .ok (final, events) ∧
      engine.run (commands.map (renameOwners config.priceLevelCount owner howner seq).command) =
        .ok (final', events.map (List.map (renameOwners config.priceLevelCount owner howner seq).event)) ∧
      ∀ side index, final'.orderBook.levelOrders side index =
        (final.orderBook.levelOrders side index).map (renameOwners config.priceLevelCount owner howner seq).order := by
  obtain ⟨final, events, final', hrun, hrun', hbook⟩ :=
    relabelled_run h (renameOwners config.priceLevelCount owner howner seq) commands
  exact ⟨final, events, final', hrun, hrun', hbook.levelOrders⟩

theorem renamed_run_default : ∃ engine, Fresh 0 defaultOrderBookConfig engine ∧
    ∃ final events final', engine.run [sampleBuy, sampleSell] = .ok (final, events) ∧
      engine.run ([sampleBuy, sampleSell].map (renameOwners 100000 Prod.swap Prod.swap_injective (· + 1)).command) =
        .ok (final', events.map (List.map (renameOwners 100000 Prod.swap Prod.swap_injective (· + 1)).event)) ∧
      ∀ side index, final'.orderBook.levelOrders side index =
        (final.orderBook.levelOrders side index).map
          (renameOwners 100000 Prod.swap Prod.swap_injective (· + 1)).order := by
  obtain ⟨engine, h⟩ := Fresh.default 0
  exact ⟨engine, h, renamed_run h _ _ _ _⟩

end Sixchange
