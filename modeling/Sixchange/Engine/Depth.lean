import Sixchange.Engine.Capacity
import Sixchange.Market.Depth

namespace Sixchange

open OrderBook
open scoped List

namespace OrderBook

variable (book : OrderBook)

def depth (side : Side) (index : ℕ) : ℕ := ((book.levelOrders side index).map RestingOrder.remainingQuantity).sum

def DepthExact : Prop := ∀ side index, (book.level side index).totalQuantity = book.depth side index

def crossingDepth (command : NewOrderCommand) : ℕ :=
  quantityWhere (fun r => command.side.opposite.crosses command.price r.price)
    ((book.linkedSlots command.side.opposite).map fun slot => (book.order slot).view)

end OrderBook

structure MatchingEngine.Accepts (symbolId : ℕ) (config : OrderBookConfig) (engine : MatchingEngine)
    (command : NewOrderCommand) : Prop where
  admissible : Admissible symbolId config command
  room : engine.orderBook.restingCount ≠ config.maxActiveOrders
  id_free : engine.orderBook.ordersById.find engine.orderBook.bucket engine.nextOrderId = none

def MatchingEngine.RestFits (symbolId : ℕ) (config : OrderBookConfig) (engine : MatchingEngine) :
    EngineCommand → Prop
  | .newOrder command => engine.Accepts symbolId config command →
      engine.orderBook.depth command.side command.price +
        (command.quantity - engine.orderBook.crossingDepth command) < word
  | _ => True

namespace Refines

variable {symbolId : ℕ} {config : OrderBookConfig} {engine : MatchingEngine} {market : Market}
  {queues : Side → List Slot}

theorem depth_eq (h : Refines symbolId config engine market queues) (sd : Side) (p : ℕ) :
    engine.orderBook.depth sd p = market.depth sd p := by
  rw [OrderBook.depth, h.levelOrders_eq]
  rfl

theorem crossingDepth_eq (h : Refines symbolId config engine market queues) (command : NewOrderCommand) :
    engine.orderBook.crossingDepth command = market.crossing command := by
  rw [crossingDepth, quantityWhere_perm ((h.inv.linkedSlots_perm _).map _), Market.crossing, ← h.book]
  rfl

theorem totalQuantity_eq (h : Refines symbolId config engine market queues) (sd : Side) (p : ℕ) :
    (engine.orderBook.level sd p).totalQuantity = engine.orderBook.depth sd p % word := by
  rw [level, (h.inv.side sd).total, OrderBook.depth, levelOrders, h.inv.levelQueue_eq, List.map_map]
  rfl

theorem depthExact_iff (h : Refines symbolId config engine market queues) :
    engine.orderBook.DepthExact ↔ market.DepthFits := by
  refine forall₂_congr fun sd p => ?_
  rw [h.totalQuantity_eq, h.depth_eq]
  exact Nat.mod_eq_iff_lt (by decide)

theorem accepts_iff (h : Refines symbolId config engine market queues) (command : NewOrderCommand) :
    engine.Accepts symbolId config command ↔ market.refusal symbolId config command = none := by
  have hfree : engine.orderBook.ordersById.find engine.orderBook.bucket engine.nextOrderId = none ↔
      market.nextId ∉ market.ids := by
    rw [← h.nextOrderId_eq, ← h.ids_eq]
    refine ⟨fun hnone hid => ?_, h.inv.find_none⟩
    obtain ⟨s, hs, he⟩ := List.mem_map.mp hid
    rw [(h.inv.find_iff _).mpr ⟨hs, he⟩] at hnone
    cases hnone
  rw [Market.refusal_none, admitError_none]
  constructor
  · rintro ⟨⟨htype, htif, hsymbol, hquantity, hprice⟩, hroom, hid⟩
    exact ⟨htype, htif, hsymbol, hquantity, hprice, h.restingCount_eq ▸ hroom, hfree.mp hid⟩
  · rintro ⟨htype, htif, hsymbol, hquantity, hprice, hroom, hid⟩
    exact ⟨⟨htype, htif, hsymbol, hquantity, hprice⟩, h.restingCount_eq ▸ hroom, hfree.mpr hid⟩

theorem restFits_iff (h : Refines symbolId config engine market queues) (c : EngineCommand) :
    engine.RestFits symbolId config c ↔ market.RestFits symbolId config c := by
  cases c with
  | newOrder command =>
    dsimp only [MatchingEngine.RestFits, Market.RestFits]
    rw [h.accepts_iff, h.depth_eq, h.crossingDepth_eq]
  | _ => exact Iff.rfl

end Refines

theorem depth_exact_iff {symbolId : ℕ} {config : OrderBookConfig} {engine : MatchingEngine}
    (h : Fresh symbolId config engine) (commands : List EngineCommand) :
    Transducer.Throughout MatchingEngine.process (fun engine => engine.orderBook.DepthExact) engine commands ↔
      Transducer.StepsFit MatchingEngine.process (MatchingEngine.RestFits symbolId config) engine commands := by
  have hr := Refines.create h.fits h.created
  apply Transducer.throughout_iff (I := fun engine => ∃ market queues, Refines symbolId config engine market queues ∧
    market.Sound config ∧ market.DepthFits)
  · rintro engine ⟨market, queues, hr, -, hfits⟩
    exact hr.depthExact_iff.mpr hfits
  · rintro engine c ⟨market, queues, hr, hs, hfits⟩
    obtain ⟨engine', queues', hstep, hr'⟩ := hr.process c
    have hiff := @Market.depthFits_process symbolId config market hs hfits c
    refine ⟨engine', _, hstep, fun hrest => ?_, fun hexact => ?_⟩
    · exact ⟨_, queues', hr', hs.process c, hiff.mpr ((hr.restFits_iff c).mp hrest)⟩
    · exact (hr.restFits_iff c).mpr (hiff.mp (hr'.depthExact_iff.mp hexact))
  · exact ⟨.empty, _, hr, .empty, fun sd p => show 0 < word by decide⟩

theorem depth_exact_iff_default : ∃ engine, Fresh 0 defaultOrderBookConfig engine ∧
    (Transducer.Throughout MatchingEngine.process (fun engine => engine.orderBook.DepthExact) engine
        [sampleBuy, sampleSell] ↔
      Transducer.StepsFit MatchingEngine.process (MatchingEngine.RestFits 0 defaultOrderBookConfig) engine
        [sampleBuy, sampleSell]) := by
  obtain ⟨engine, h⟩ := Fresh.default 0
  exact ⟨engine, h, depth_exact_iff h [sampleBuy, sampleSell]⟩

def largestBuy : EngineCommand := .newOrder {
  seq := 1, price := 100, quantity := 18446744073709551615, clientOrderId := 7, clientId := 1, symbolId := 0
  side := .buy, orderType := .limit, tif := .gfd }

theorem depth_wraps : ∃ engine, Fresh 0 defaultOrderBookConfig engine ∧
    ∃ final events, engine.run [largestBuy, largestBuy] = .ok (final, events) ∧
      (final.orderBook.level .buy 100).totalQuantity = 18446744073709551614 ∧
      final.orderBook.depth .buy 100 = 36893488147419103230 ∧
      ¬ Transducer.Throughout MatchingEngine.process (fun engine => engine.orderBook.DepthExact) engine
        [largestBuy, largestBuy] := by
  obtain ⟨engine, h⟩ := Fresh.default 0
  obtain ⟨final, queues, market, events, hrun, htrace, hr, -⟩ := h.run [largestBuy, largestBuy]
  have hdepth : final.orderBook.depth .buy 100 = 36893488147419103230 := by
    rw [hr.depth_eq, show market = _ from congrArg Prod.fst htrace.symm]
    decide +kernel
  have htotal : (final.orderBook.level .buy 100).totalQuantity = 18446744073709551614 := by
    rw [hr.totalQuantity_eq, hdepth]
    decide
  refine ⟨engine, h, final, events, hrun, htotal, hdepth, fun hexact => ?_⟩
  obtain ⟨final', events', hrun', hgood⟩ := hexact _ (List.prefix_refl _)
  obtain ⟨rfl, -⟩ := Prod.mk.inj (Except.ok.inj (hrun'.symm.trans hrun))
  have hlevel := hgood .buy 100
  rw [htotal, hdepth] at hlevel
  cases hlevel

end Sixchange
