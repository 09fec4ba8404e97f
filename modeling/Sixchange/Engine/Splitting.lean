import Sixchange.Engine.BestPrices
import Sixchange.Engine.Depth
import Sixchange.Engine.Sweeping
import Sixchange.Market.Splitting

namespace Sixchange

open OrderBook

def EngineEvent.takes (orderId : ℕ) : EngineEvent → ℕ
  | .tradeExecuted event => if event.restingOrderId = orderId then event.quantity else 0
  | _ => 0

def quantityTaken (orderId : ℕ) (events : List EngineEvent) : ℕ := (events.map (EngineEvent.takes orderId)).sum

structure FillsAlike (command : NewOrderCommand) (before once twice : OrderBook)
    (onceEvents twiceEvents : List EngineEvent) : Prop where
  taken : ∀ orderId, quantityTaken orderId twiceEvents = quantityTaken orderId onceEvents
  opposite : ∀ index, twice.levelOrders command.side.opposite index = once.levelOrders command.side.opposite index
  rested : ∃ tail tail', once.levelOrders command.side command.price =
      before.levelOrders command.side command.price ++ tail ∧
    twice.levelOrders command.side command.price = before.levelOrders command.side command.price ++ tail' ∧
    (tail'.map RestingOrder.remainingQuantity).sum = (tail.map RestingOrder.remainingQuantity).sum
  bestBid : twice.bestBid = once.bestBid
  bestAsk : twice.bestAsk = once.bestAsk

/-- The id that the next order gets is still that of an order in the book, the ids having wrapped. -/
def MatchingEngine.IdTaken (engine : MatchingEngine) : Prop := engine.orderBook.Rests engine.nextOrderId

section Taken

variable {orderId : ℕ}

theorem quantityTaken_append (events events' : List EngineEvent) :
    quantityTaken orderId (events ++ events') = quantityTaken orderId events + quantityTaken orderId events' := by
  rw [quantityTaken, List.map_append, List.sum_append]
  rfl

theorem quantityTaken_rejection (command : EngineCommand) (reason : RejectReason) :
    quantityTaken orderId [rejection command reason] = 0 := rfl

theorem quantityTaken_tradeEvents (command : NewOrderCommand) (aggressingOrderId trades : ℕ) (fills : List Fill) :
    quantityTaken orderId (tradeEvents command aggressingOrderId trades fills) = takenFrom orderId fills := by
  induction fills generalizing trades with
  | nil => rfl
  | cons fill fills ih =>
    rw [tradeEvents, quantityTaken, List.map_cons, List.sum_cons, takenFrom_cons, ← ih (trades + 1)]
    rfl

theorem quantityTaken_acceptEvents (market : Market) (command : NewOrderCommand) :
    quantityTaken orderId (market.acceptEvents command) = takenFrom orderId (market.swept command).fills := by
  have hrested : quantityTaken orderId (if 0 < (market.swept command).unfilled then
      [rested command market.nextId (market.swept command).unfilled] else []) = 0 := by
    split_ifs <;> rfl
  rw [Market.acceptEvents, ← List.singleton_append, quantityTaken_append, quantityTaken_append, hrested,
    quantityTaken_tradeEvents, Nat.add_zero]
  exact Nat.zero_add _

end Taken

namespace Refines

variable {symbolId : ℕ} {config : OrderBookConfig} {final once twice : MatchingEngine} {market : Market}
  {queues onceQueues twiceQueues : Side → List Slot} {whole first second : NewOrderCommand}

theorem idTaken_iff (h : Refines symbolId config final market queues) :
    final.IdTaken ↔ market.nextId ∈ market.ids := by
  rw [MatchingEngine.IdTaken, h.shows.rests_iff, h.nextOrderId_eq]

theorem fillsAlike_refused (h : Refines symbolId config final market queues)
    (honce : Refines symbolId config once market onceQueues)
    (htwice : Refines symbolId config twice market twiceQueues) {onceEvents twiceEvents : List EngineEvent}
    (hevents : ∀ orderId, quantityTaken orderId twiceEvents = quantityTaken orderId onceEvents) :
    FillsAlike whole final.orderBook once.orderBook twice.orderBook onceEvents twiceEvents := by
  refine ⟨hevents, fun index => ?_, ⟨[], [], ?_, ?_, rfl⟩, ?_, ?_⟩
  · rw [htwice.levelOrders_eq, honce.levelOrders_eq]
  · rw [honce.levelOrders_eq, h.levelOrders_eq, List.append_nil]
  · rw [htwice.levelOrders_eq, h.levelOrders_eq, List.append_nil]
  · exact (htwice.best_eq .buy).trans (honce.best_eq .buy).symm
  · exact (htwice.best_eq .sell).trans (honce.best_eq .sell).symm

theorem fillsAlike_accepted (h : Refines symbolId config final market queues) (hs : market.Sound config)
    (hsplit : Splits whole first second) (hprice : whole.price < config.priceLevelCount)
    (honce : Refines symbolId config once (market.accept whole) onceQueues)
    (htwice : Refines symbolId config twice ((market.accept first).accept second) twiceQueues) :
    FillsAlike whole final.orderBook once.orderBook twice.orderBook (market.acceptEvents whole)
      (market.acceptEvents first ++ (market.accept first).acceptEvents second) := by
  obtain ⟨-, hunfilled, htaken⟩ := Market.swept_parts hsplit market
  have hbest := Market.best_parts hsplit market
  refine ⟨fun orderId => ?_, fun index => ?_, ⟨market.remainder whole,
    market.remainder first ++ (market.accept first).remainder second, ?_, ?_, ?_⟩, ?_, ?_⟩
  · rw [quantityTaken_append, quantityTaken_acceptEvents, quantityTaken_acceptEvents, quantityTaken_acceptEvents,
      htaken]
  · rw [htwice.levelOrders_eq, honce.levelOrders_eq, Market.opposite_parts hsplit market]
  · rw [honce.levelOrders_eq, h.levelOrders_eq]
    exact Market.level_accept hs rfl
  · rw [htwice.levelOrders_eq, h.levelOrders_eq]
    exact Market.level_parts hsplit hs hprice
  · rw [List.map_append, List.sum_append, Market.remainder_sum, Market.remainder_sum, Market.remainder_sum, hunfilled]
  · exact ((htwice.best_eq .buy).trans (hbest .buy)).trans (honce.best_eq .buy).symm
  · exact ((htwice.best_eq .sell).trans (hbest .sell)).trans (honce.best_eq .sell).symm

theorem not_fillsAlike (h : Refines symbolId config final market queues) (hs : market.Sound config)
    (hsplit : Splits whole first second) (hprice : whole.price < config.priceLevelCount)
    (honce : Refines symbolId config once (market.accept whole) onceQueues)
    (htwice : Refines symbolId config twice (market.accept first) twiceQueues) (reason : RejectReason) :
    ¬ FillsAlike whole final.orderBook once.orderBook twice.orderBook (market.acceptEvents whole)
      (market.acceptEvents first ++ [rejection (.newOrder second) reason]) := by
  rintro ⟨hsame, -, ⟨tail, tail', htail, htail', hsum⟩, -, -⟩
  obtain ⟨-, hunfilled, htaken⟩ := Market.swept_parts hsplit market
  have hnone : ((market.accept first).swept second).fills = [] := by
    apply no_fills_of_taken ((Market.sound_first hsplit hs hprice).quantity _)
    intro orderId
    have hid := hsame orderId
    rw [quantityTaken_append, quantityTaken_acceptEvents, quantityTaken_acceptEvents, quantityTaken_rejection,
      htaken] at hid
    change takenFrom orderId ((market.accept first).swept second).fills = 0
    omega
  have hleft : ((market.accept first).swept second).unfilled = second.quantity :=
    congrArg Swept.unfilled (sweep_of_no_fills hnone)
  have honceTail : tail = market.remainder whole := by
    rw [honce.levelOrders_eq, h.levelOrders_eq] at htail
    exact (List.append_cancel_left ((Market.level_accept hs rfl).symm.trans htail)).symm
  have htwiceTail : tail' = market.remainder first := by
    rw [htwice.levelOrders_eq, h.levelOrders_eq] at htail'
    exact (List.append_cancel_left ((Market.level_accept hs hsplit.first_terms).symm.trans htail')).symm
  have hpos := hsplit.second_pos
  rw [honceTail, htwiceTail, Market.remainder_sum, Market.remainder_sum] at hsum
  omega

theorem accepted (h : Refines symbolId config final market queues)
    (hrefusal : market.refusal symbolId config whole = none) : ∃ engine queues',
      final.process (.newOrder whole) = .ok (engine, market.acceptEvents whole) ∧
      Refines symbolId config engine (market.accept whole) queues' := by
  obtain ⟨engine, queues', hrun, hr⟩ := h.submit_admitted hrefusal
  rw [Market.submit, hrefusal] at hrun hr
  exact ⟨engine, queues', hrun, hr⟩

theorem refused (h : Refines symbolId config final market queues) {reason : RejectReason}
    (hrefusal : market.refusal symbolId config whole = some reason) : ∃ engine,
      final.process (.newOrder whole) = .ok (engine, [rejection (.newOrder whole) reason]) ∧
      Refines symbolId config engine market queues := by
  obtain ⟨engine, hrun, hr, -⟩ := h.submit_refused hrefusal
  exact ⟨engine, hrun, hr⟩

theorem fillsAlike_iff (h : Refines symbolId config final market queues) (hs : market.Sound config)
    (hsplit : Splits whole first second) (hroom : 2 ≤ final.orderBook.room) :
    ∃ once onceEvents partway firstEvents twice secondEvents,
      final.process (.newOrder whole) = .ok (once, onceEvents) ∧
      final.process (.newOrder first) = .ok (partway, firstEvents) ∧
      partway.process (.newOrder second) = .ok (twice, secondEvents) ∧
      (FillsAlike whole final.orderBook once.orderBook twice.orderBook onceEvents (firstEvents ++ secondEvents) ↔
        (final.Accepts symbolId config whole → ¬ partway.IdTaken)) := by
  cases hrefusal : market.refusal symbolId config whole with
  | some reason =>
    obtain ⟨once, hrunOnce, honce⟩ := h.refused hrefusal
    obtain ⟨partway, hrunFirst, hpartway⟩ := h.refused ((Market.refusal_first hsplit market).trans hrefusal)
    obtain ⟨twice, hrunSecond, htwice⟩ := hpartway.refused ((Market.refusal_second hsplit market).trans hrefusal)
    refine ⟨once, _, partway, _, twice, _, hrunOnce, hrunFirst, hrunSecond, iff_of_true ?_ fun haccepts => ?_⟩
    · exact h.fillsAlike_refused honce htwice fun _ => rfl
    · rw [h.accepts_iff, hrefusal] at haccepts
      exact absurd haccepts (Option.some_ne_none reason)
  | none =>
    obtain ⟨htype, htif, hadmitted⟩ := Market.refusal_none.mp hrefusal
    obtain ⟨hsymbol, hquantity, hprice, -, -⟩ := admitError_none.mp hadmitted
    have hadmissible : Admissible symbolId config whole := ⟨htype, htif, hsymbol, hquantity, hprice⟩
    obtain ⟨once, onceQueues, hrunOnce, honce⟩ := h.accepted hrefusal
    obtain ⟨partway, partwayQueues, hrunFirst, hpartway⟩ :=
      h.accepted ((Market.refusal_first hsplit market).trans hrefusal)
    have hfree : (market.accept first).ids.length ≠ config.maxActiveOrders := by
      have hlength := Market.accept_ids_length market first
      have hcount := h.shows.room_eq
      omega
    cases hsecond : (market.accept first).refusal symbolId config second with
    | none =>
      obtain ⟨twice, twiceQueues, hrunSecond, htwice⟩ := hpartway.accepted hsecond
      refine ⟨once, _, partway, _, twice, _, hrunOnce, hrunFirst, hrunSecond, iff_of_true ?_ fun _ => ?_⟩
      · exact h.fillsAlike_accepted hs hsplit hprice honce htwice
      · rw [hpartway.idTaken_iff]
        exact (admitError_none.mp (Market.refusal_none.mp hsecond).2.2).2.2.2.2
    | some reason =>
      obtain ⟨twice, hrunSecond, htwice⟩ := hpartway.refused hsecond
      refine ⟨once, _, partway, _, twice, _, hrunOnce, hrunFirst, hrunSecond, iff_of_false ?_ fun hfresh => ?_⟩
      · exact h.not_fillsAlike hs hsplit hprice honce htwice reason
      · have hnext := hfresh ((h.accepts_iff whole).mpr hrefusal)
        rw [hpartway.idTaken_iff] at hnext
        -- with a slot and an id left, nothing is in the way of the second part
        rw [Market.refusal_second hsplit, hadmissible.refusal hnext, if_neg hfree] at hsecond
        cases hsecond

end Refines

theorem split_alike_iff {symbolId : ℕ} {config : OrderBookConfig} {engine : MatchingEngine}
    (h : Fresh symbolId config engine) (commands : List EngineCommand) {whole first second : NewOrderCommand}
    (hsplit : Splits whole first second) :
    ∃ final events, engine.run commands = .ok (final, events) ∧
      (2 ≤ final.orderBook.room → ∃ once onceEvents partway firstEvents twice secondEvents,
        final.process (.newOrder whole) = .ok (once, onceEvents) ∧
        final.process (.newOrder first) = .ok (partway, firstEvents) ∧
        partway.process (.newOrder second) = .ok (twice, secondEvents) ∧
        (FillsAlike whole final.orderBook once.orderBook twice.orderBook onceEvents (firstEvents ++ secondEvents) ↔
          (final.Accepts symbolId config whole → ¬ partway.IdTaken))) := by
  obtain ⟨final, queues, market, events, hrun, -, hr, hs, -⟩ := h.run commands
  exact ⟨final, events, hrun, hr.fillsAlike_iff hs hsplit⟩

theorem split_alike_iff_default : ∃ engine, Fresh 0 defaultOrderBookConfig engine ∧
    ∃ final events, engine.run [sampleBuy] = .ok (final, events) ∧
      ∃ once onceEvents partway firstEvents twice secondEvents,
        final.process (.newOrder sampleCommand) = .ok (once, onceEvents) ∧
        final.process (.newOrder { sampleCommand with quantity := 6 }) = .ok (partway, firstEvents) ∧
        partway.process (.newOrder { sampleCommand with quantity := 8, clientOrderId := 9 }) =
          .ok (twice, secondEvents) ∧
        (FillsAlike sampleCommand final.orderBook once.orderBook twice.orderBook onceEvents
            (firstEvents ++ secondEvents) ↔
          (final.Accepts 0 defaultOrderBookConfig sampleCommand → ¬ partway.IdTaken)) := by
  obtain ⟨engine, h⟩ := Fresh.default 0
  have hsplit : Splits sampleCommand { sampleCommand with quantity := 6 }
      { sampleCommand with quantity := 8, clientOrderId := 9 } := by
    constructor <;> decide
  obtain ⟨final, events, hrun, halike⟩ := split_alike_iff h [sampleBuy] hsplit
  obtain ⟨final', queues, market, events', hrun', htrace, hr, -⟩ := h.run [sampleBuy]
  obtain ⟨rfl, rfl⟩ := Prod.mk.inj (Except.ok.inj (hrun.symm.trans hrun'))
  refine ⟨engine, h, final, events, hrun, halike ?_⟩
  have hroom := hr.shows.room_eq
  have hcount : market.ids.length = 1 := by
    rw [show market = _ from congrArg Prod.fst htrace.symm]
    rfl
  have hslots : defaultOrderBookConfig.maxActiveOrders = 262144 := rfl
  omega

def churnOrder (side : Side) : NewOrderCommand where
  seq := 2
  price := 200
  quantity := 1
  clientOrderId := 8
  clientId := 1
  symbolId := 0
  side := side
  orderType := .limit
  tif := .gfd

def churn : List EngineCommand := [.newOrder (churnOrder .sell), .newOrder (churnOrder .buy)]

/-- The first order of all rests while all the other ids are used up. -/
def idsUsedUp : List EngineCommand := sampleBuy :: (List.replicate 9223372036854775807 churn).flatten

def churned (pairs : ℕ) : Market where
  book
    | .buy => [⟨1, 7, 1, .buy, 100, 10⟩]
    | .sell => []
  accepted := 2 * pairs + 1
  trades := pairs

theorem Market.eq_of_book {market market' : Market} (hbook : ∀ sd, market.book sd = market'.book sd)
    (haccepted : market.accepted = market'.accepted) (htrades : market.trades = market'.trades) :
    market = market' := by
  cases market
  cases market'
  obtain rfl := funext hbook
  obtain rfl := haccepted
  obtain rfl := htrades
  rfl

theorem churnOrder_admissible (side : Side) : Admissible 0 defaultOrderBookConfig (churnOrder side) :=
  ⟨rfl, rfl, rfl, Nat.one_ne_zero, by change 200 < 100000; omega⟩

theorem churned_next (pairs : ℕ) (h : 2 * pairs + 3 < word) :
    (Transducer.trace (Market.process 0 defaultOrderBookConfig) (churned pairs) churn).1 = churned (pairs + 1) := by
  have hsell : (churned pairs).refusal 0 defaultOrderBookConfig (churnOrder .sell) = none := by
    rw [(churnOrder_admissible .sell).refusal]
    · rfl
    · rw [Market.nextId, Nat.mod_eq_of_lt (by dsimp only [churned]; omega)]
      change 2 * pairs + 1 + 1 ∉ [1]
      simp
  have hbuy : ((churned pairs).accept (churnOrder .sell)).refusal 0 defaultOrderBookConfig (churnOrder .buy) =
      none := by
    rw [(churnOrder_admissible .buy).refusal]
    · rfl
    · rw [Market.nextId, Nat.mod_eq_of_lt (by dsimp only [Market.accept, churned]; omega)]
      change 2 * pairs + 1 + 1 + 1 ∉ [1, (2 * pairs + 1 + 1) % word]
      rw [Nat.mod_eq_of_lt (by omega)]
      simp
  simp only [churn, Transducer.trace_cons, Transducer.trace_nil, Market.process, Market.submit, hsell, hbuy]
  apply Market.eq_of_book
  · intro sd
    cases sd <;> rfl
  · rfl
  · rfl

theorem churned_run (pairs earlier : ℕ) (h : 2 * (earlier + pairs) + 1 < word) :
    (Transducer.trace (Market.process 0 defaultOrderBookConfig) (churned earlier)
      (List.replicate pairs churn).flatten).1 = churned (earlier + pairs) := by
  induction pairs generalizing earlier with
  | zero => rfl
  | succ pairs ih =>
    have hadd : earlier + (pairs + 1) = earlier + 1 + pairs := by omega
    rw [List.replicate_succ, List.flatten_cons, hadd, ← ih (earlier + 1) (by omega), ← churned_next earlier (by omega)]
    rfl

theorem churned_start (pairs : ℕ) (h : 2 * pairs + 1 < word) :
    (Transducer.trace (Market.process 0 defaultOrderBookConfig) .empty
      (sampleBuy :: (List.replicate pairs churn).flatten)).1 = churned pairs := by
  have hstart : (Market.process 0 defaultOrderBookConfig .empty sampleBuy).1 = churned 0 := by
    apply Market.eq_of_book
    · intro sd
      cases sd <;> rfl
    · rfl
    · rfl
  have hrun := churned_run pairs 0 (by omega)
  rw [Nat.zero_add, ← hstart] at hrun
  exact hrun

theorem split_second_refused : ∃ engine, Fresh 0 defaultOrderBookConfig engine ∧
    ∃ final events once onceEvents partway firstEvents twice secondEvents,
      engine.run idsUsedUp = .ok (final, events) ∧ 2 ≤ final.orderBook.room ∧
      final.process (.newOrder { churnOrder .buy with quantity := 2 }) = .ok (once, onceEvents) ∧
      final.process (.newOrder (churnOrder .buy)) = .ok (partway, firstEvents) ∧
      partway.process (.newOrder (churnOrder .buy)) = .ok (twice, secondEvents) ∧
      ¬ FillsAlike { churnOrder .buy with quantity := 2 } final.orderBook once.orderBook twice.orderBook onceEvents
        (firstEvents ++ secondEvents) := by
  obtain ⟨engine, h⟩ := Fresh.default 0
  obtain ⟨final, queues, market, events, hrun, htrace, hr, hs, -⟩ := h.run idsUsedUp
  obtain rfl : market = churned 9223372036854775807 := by
    have hchurned := churned_start 9223372036854775807 (by decide)
    exact (congrArg Prod.fst htrace).symm.trans hchurned
  have hsplit : Splits { churnOrder .buy with quantity := 2 } (churnOrder .buy) (churnOrder .buy) := by
    constructor <;> decide
  have hroom : 2 ≤ final.orderBook.room := by
    have hcount : final.orderBook.room + 1 = 262144 := hr.shows.room_eq
    omega
  obtain ⟨once, onceEvents, partway, firstEvents, twice, secondEvents, honce, hfirst, hsecond, hiff⟩ :=
    hr.fillsAlike_iff hs hsplit hroom
  have hadmitted : (churned 9223372036854775807).refusal 0 defaultOrderBookConfig (churnOrder .buy) = none := by decide
  obtain ⟨partway', queues', hfirst', hr'⟩ := hr.accepted hadmitted
  obtain ⟨rfl, rfl⟩ := Prod.mk.inj (Except.ok.inj (hfirst.symm.trans hfirst'))
  refine ⟨engine, h, final, events, once, onceEvents, partway, _, twice, secondEvents, hrun, hroom, honce, hfirst,
    hsecond, fun halike => hiff.mp halike ?_ ?_⟩
  · exact (hr.accepts_iff _).mpr (by decide)
  · exact hr'.idTaken_iff.mpr (by decide)

end Sixchange
