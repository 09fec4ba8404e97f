import Sixchange.Engine.EventReplica
import Sixchange.Engine.BestPrices

namespace Sixchange

open OrderBook

structure Roomier (config config' : OrderBookConfig) : Prop where
  active : config.maxActiveOrders ≤ config'.maxActiveOrders
  levels : config.priceLevelCount ≤ config'.priceLevelCount

def Unlimited (config config' : OrderBookConfig) : EngineEvent → Prop
  | .commandRejected event =>
    (event.reason = .capacityExhausted → config.maxActiveOrders = config'.maxActiveOrders) ∧
      (event.reason = .invalidPrice → config.priceLevelCount = config'.priceLevelCount)
  | _ => True

namespace Market

variable {symbolId : ℕ} {config config' : OrderBookConfig} {market : Market}

def Fits (config : OrderBookConfig) (market : Market) : Prop := market.ids.length ≤ config.maxActiveOrders

theorem Fits.process (h : market.Fits config) (c : EngineCommand) :
    (market.process symbolId config c).1.Fits config := by
  rcases process_cases symbolId config market c with ⟨reason, he⟩ | ⟨command, -, hrefusal, he⟩ |
    ⟨command, order, -, -, -, -, -, he⟩ <;> rw [he]
  · exact h
  · have hfree := (admitError_none.mp (refusal_none.mp hrefusal).2.2).2.2.2.1
    have hlen := accept_ids_length market command
    unfold Fits at h ⊢
    dsimp only
    omega
  · exact (remove_ids market command.orderId).length_le.trans h

theorem refusal_roomier (hroomier : Roomier config config') (h : market.Fits config) {command : NewOrderCommand}
    (hfull : market.refusal symbolId config command = some .capacityExhausted →
      config.maxActiveOrders = config'.maxActiveOrders)
    (hprice : market.refusal symbolId config command = some .invalidPrice →
      config.priceLevelCount = config'.priceLevelCount) :
    market.refusal symbolId config' command = market.refusal symbolId config command := by
  obtain ⟨hactive, hlevels⟩ := hroomier
  unfold Fits at h
  unfold refusal admitError at hfull hprice ⊢
  split_ifs at hfull hprice ⊢ <;> simp at hfull hprice <;> first | rfl | omega

theorem process_roomier (hroomier : Roomier config config') (h : market.Fits config) {c : EngineCommand}
    (hunlimited : ∀ event ∈ (market.process symbolId config c).2, Unlimited config config' event) :
    market.process symbolId config' c = market.process symbolId config c := by
  cases c with
  | newOrder command =>
    have hrefused : ∀ reason, market.refusal symbolId config command = some reason →
        Unlimited config config' (rejection (.newOrder command) reason) := by
      intro reason hreason
      apply hunlimited
      rw [process, submit, hreason]
      exact List.mem_singleton_self _
    have hrefusal := refusal_roomier hroomier h (fun hfull => (hrefused _ hfull).1 rfl) fun hprice =>
      (hrefused _ hprice).2 rfl
    simp only [process, submit, hrefusal]
  | cancelOrder command => rfl
  | replaceOrder command => rfl

theorem trace_roomier (hroomier : Roomier config config') (h : market.Fits config) {commands : List EngineCommand}
    (hunlimited : ∀ event ∈ (Transducer.trace (Market.process symbolId config) market commands).2.flatten,
      Unlimited config config' event) :
    Transducer.trace (Market.process symbolId config') market commands =
      Transducer.trace (Market.process symbolId config) market commands := by
  induction commands generalizing market with
  | nil => rfl
  | cons c commands ih =>
    rw [Transducer.trace_cons, List.flatten_cons] at hunlimited
    have hstep := process_roomier hroomier h fun event hevent => hunlimited event (List.mem_append_left _ hevent)
    have hrest := ih (h.process c) fun event hevent => hunlimited event (List.mem_append_right _ hevent)
    rw [Transducer.trace_cons, Transducer.trace_cons, hstep, hrest]

end Market

theorem larger_book_agrees {symbolId : ℕ} {config config' : OrderBookConfig} {engine engine' : MatchingEngine}
    (h : Fresh symbolId config engine) (h' : Fresh symbolId config' engine') (hroomier : Roomier config config')
    (commands : List EngineCommand) :
    ∃ final events, engine.run commands = .ok (final, events) ∧
      ((∀ event ∈ events.flatten, Unlimited config config' event) →
        ∃ final', engine'.run commands = .ok (final', events) ∧
          final'.orderBook.levelEntries = final.orderBook.levelEntries ∧
          final'.orderBook.bestBid = final.orderBook.bestBid ∧ final'.orderBook.bestAsk = final.orderBook.bestAsk) := by
  obtain ⟨final, queues, market, events, hrun, htrace, hr, -⟩ := h.run commands
  obtain ⟨final', queues', market', events', hrun', htrace', hr', -⟩ := h'.run commands
  refine ⟨final, events, hrun, fun hunlimited => ?_⟩
  have hempty : Market.empty.Fits config := Nat.zero_le _
  have hsame : Transducer.trace (Market.process symbolId config') .empty commands =
      Transducer.trace (Market.process symbolId config) .empty commands := by
    apply Market.trace_roomier hroomier hempty
    rwa [htrace]
  rw [htrace', htrace] at hsame
  obtain ⟨rfl, rfl⟩ := Prod.mk.inj hsame
  refine ⟨final', hrun', ?_, ?_, ?_⟩
  · funext sd p
    rw [hr.levelEntries_eq, hr'.levelEntries_eq]
  · rw [bestBid, bestBid, hr.best_eq, hr'.best_eq]
  · rw [bestAsk, bestAsk, hr.best_eq, hr'.best_eq]

def smallOrderBookConfig : OrderBookConfig :=
  { maxActiveOrders := 4, priceLevelCount := 200, orderLookupCapacity := 8 }

theorem Fresh.small (symbolId : ℕ) : ∃ engine, Fresh symbolId smallOrderBookConfig engine := by
  have hsome : (MatchingEngine.create symbolId smallOrderBookConfig).isSome = true := rfl
  obtain ⟨engine, hengine⟩ := Option.isSome_iff_exists.mp hsome
  exact ⟨engine, by decide, hengine⟩

theorem larger_book_agrees_small : ∃ engine engine', Fresh 0 smallOrderBookConfig engine ∧
    Fresh 0 defaultOrderBookConfig engine' ∧
    ∃ final final' events, engine.run sampleSweep = .ok (final, events) ∧
      engine'.run sampleSweep = .ok (final', events) ∧
      final'.orderBook.levelEntries = final.orderBook.levelEntries ∧
      final'.orderBook.bestBid = final.orderBook.bestBid ∧ final'.orderBook.bestAsk = final.orderBook.bestAsk := by
  obtain ⟨engine, h⟩ := Fresh.small 0
  obtain ⟨engine', h'⟩ := Fresh.default 0
  have hroomier : Roomier smallOrderBookConfig defaultOrderBookConfig := ⟨by decide, by decide⟩
  obtain ⟨final, events, hrun, hagrees⟩ := larger_book_agrees h h' hroomier sampleSweep
  have hnone : events.flatten.filter EngineEvent.isRejection = [] := by
    rw [h.events_eq hrun]
    decide +kernel
  have hunlimited : ∀ event ∈ events.flatten, Unlimited smallOrderBookConfig defaultOrderBookConfig event := by
    intro event hevent
    cases event with
    | commandRejected rejected => exact absurd rfl (List.filter_eq_nil_iff.mp hnone _ hevent)
    | _ => trivial
  obtain ⟨final', hrun', hbook⟩ := hagrees hunlimited
  exact ⟨engine, engine', h, h', final, final', events, hrun, hrun', hbook⟩

end Sixchange
