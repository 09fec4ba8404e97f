import Sixchange.Book.Walks
import Sixchange.Engine.Refinement
import Sixchange.Market.Steps

namespace Sixchange

open OrderBook

theorem Refines.levelOrders_eq {symbolId : ℕ} {config : OrderBookConfig} {engine : MatchingEngine}
    {market : Market} {queues : Side → List Slot} (h : Refines symbolId config engine market queues)
    (sd : Side) (p : ℕ) : engine.orderBook.levelOrders sd p = (market.book sd).filter (·.price = p) := by
  rw [h.inv.levelOrders_eq, ← h.book]

def EngineEvent.isAccepted : EngineEvent → Bool
  | .orderAccepted _ => true
  | _ => false

def EngineEvent.isTrade : EngineEvent → Bool
  | .tradeExecuted _ => true
  | _ => false

def EngineEvent.isRejection : EngineEvent → Bool
  | .commandRejected _ => true
  | _ => false

def acceptedCount (events : List (List EngineEvent)) : ℕ := events.flatten.countP EngineEvent.isAccepted

def tradeCount (events : List (List EngineEvent)) : ℕ := events.flatten.countP EngineEvent.isTrade

/-- A new engine; its configuration has passed the checks of the constructors. -/
structure Fresh (symbolId : ℕ) (config : OrderBookConfig) (engine : MatchingEngine) : Prop where
  fits : config.orderLookupCapacity < word
  created : MatchingEngine.create symbolId config = some engine

namespace Market

variable {symbolId : ℕ} {config : OrderBookConfig} {market : Market}

theorem countP_tradeEvents (p : EngineEvent → Bool) (command : NewOrderCommand) (orderId trades : ℕ)
    (fills : List Fill) {b : Bool} (hp : ∀ event, p (.tradeExecuted event) = b) :
    (tradeEvents command orderId trades fills).countP p = if b then fills.length else 0 := by
  induction fills generalizing trades with
  | nil => cases b <;> rfl
  | cons fill fills ih =>
    rw [tradeEvents, List.countP_cons, ih, traded, hp]
    cases b <;> simp

theorem countP_acceptEvents (market : Market) (command : NewOrderCommand) {p : EngineEvent → Bool} {b : Bool}
    (htrade : ∀ event, p (.tradeExecuted event) = b) (hrested : ∀ event, p (.orderRested event) = false) :
    (market.acceptEvents command).countP p =
      (if b then (market.swept command).fills.length else 0) +
        if p (Sixchange.accepted command market.nextId) then 1 else 0 := by
  rw [acceptEvents, List.countP_cons, List.countP_append, countP_tradeEvents p command _ _ _ htrade]
  have hlast : (if 0 < (market.swept command).unfilled then
      [rested command market.nextId (market.swept command).unfilled] else []).countP p = 0 := by
    split_ifs <;> simp [rested, hrested]
  rw [hlast, Nat.add_zero]

theorem countP_accepted (symbolId : ℕ) (config : OrderBookConfig) (market : Market)
    (c : EngineCommand) :
    (market.process symbolId config c).1.accepted =
      market.accepted + (market.process symbolId config c).2.countP EngineEvent.isAccepted := by
  rcases process_cases symbolId config market c with ⟨reason, he⟩ | ⟨command, -, hrefusal, he⟩ |
    ⟨command, order, -, -, -, -, -, he⟩ <;> rw [he]
  · rfl
  · rw [countP_acceptEvents _ _ (b := false) (fun _ => rfl) (fun _ => rfl)]
    rfl
  · rfl

theorem countP_trades (symbolId : ℕ) (config : OrderBookConfig) (market : Market)
    (c : EngineCommand) :
    (market.process symbolId config c).1.trades =
      market.trades + (market.process symbolId config c).2.countP EngineEvent.isTrade := by
  rcases process_cases symbolId config market c with ⟨reason, he⟩ | ⟨command, -, hrefusal, he⟩ |
    ⟨command, order, -, -, -, -, -, he⟩ <;> rw [he]
  · rfl
  · rw [countP_acceptEvents _ _ (b := true) (fun _ => rfl) (fun _ => rfl)]
    rfl
  · rfl

theorem not_mem_acceptEvents {command : NewOrderCommand} {event : CommandRejectedEvent} :
    .commandRejected event ∉ market.acceptEvents command := by
  have hcount := countP_acceptEvents market command (p := EngineEvent.isRejection) (b := false) (fun _ => rfl)
    (fun _ => rfl)
  exact fun hm => List.countP_eq_zero.mp hcount _ hm rfl

theorem eq_rejection {c : EngineCommand} {event : CommandRejectedEvent}
    (h : .commandRejected event ∈ (market.process symbolId config c).2) :
    (market.process symbolId config c).2 = [.commandRejected event] := by
  rcases process_cases symbolId config market c with ⟨reason, he⟩ | ⟨command, -, -, he⟩ |
    ⟨command, order, -, -, -, -, -, he⟩ <;> rw [he] at h ⊢
  · rw [List.mem_singleton.mp h]
  · exact absurd h not_mem_acceptEvents
  · cases List.mem_singleton.mp h

theorem countP_accepted_le (symbolId : ℕ) (config : OrderBookConfig) (market : Market)
    (c : EngineCommand) :
    (market.process symbolId config c).2.countP EngineEvent.isAccepted ≤ 1 := by
  rcases process_cases symbolId config market c with ⟨reason, he⟩ | ⟨command, -, hrefusal, he⟩ |
    ⟨command, order, -, -, -, -, -, he⟩ <;> rw [he]
  · exact Nat.zero_le 1
  · rw [countP_acceptEvents _ _ (b := false) (fun _ => rfl) (fun _ => rfl)]
    exact Nat.le_refl 1
  · exact Nat.zero_le 1

theorem countP_run_le (market : Market) (commands : List EngineCommand) :
    acceptedCount (Transducer.trace (Market.process symbolId config) market commands).2 ≤ commands.length := by
  induction commands generalizing market with
  | nil => exact Nat.le_refl 0
  | cons c commands ih =>
    have hstep := countP_accepted_le symbolId config market c
    have hrest := ih (market.process symbolId config c).1
    simp only [acceptedCount] at hrest
    simp only [acceptedCount, Transducer.trace_cons, List.flatten_cons, List.countP_append, List.length_cons]
    omega

theorem countP_run {count : Market → ℕ} {p : EngineEvent → Bool}
    (hstep : ∀ (market : Market) c, count (market.process symbolId config c).1 =
      count market + (market.process symbolId config c).2.countP p) (market : Market)
    (commands : List EngineCommand) :
    count (Transducer.trace (Market.process symbolId config) market commands).1 =
      count market + (Transducer.trace (Market.process symbolId config) market commands).2.flatten.countP p := by
  induction commands generalizing market with
  | nil => rfl
  | cons c commands ih =>
    simp only [Transducer.trace_cons, List.flatten_cons, List.countP_append, ih, hstep]
    omega

theorem observes {γ : Type} (see : γ → List EngineEvent → γ) {R : Market → γ → Prop} {observer : γ}
    {events : List (List EngineEvent)} {commands : List EngineCommand}
    (hstep : ∀ (market : Market) g c, market.Sound config → market.Numbered → R market g →
      (market.process symbolId config c).1.accepted < word →
      R (market.process symbolId config c).1 (see g (market.process symbolId config c).2))
    (hstart : R .empty observer)
    (htrace : Transducer.trace (Market.process symbolId config) .empty commands = (market, events))
    (haccepted : market.accepted < word) : R market (events.foldl see observer) := by
  let I (market : Market) (g : γ) : Prop := market.Sound config ∧ market.Numbered ∧ R market g
  let B (market : Market) : Prop := market.accepted < word
  have hback : ∀ market c, B (market.process symbolId config c).1 → B market := fun market c =>
    (accepted_le market c).trans_lt
  have hkeep : ∀ market g c, I market g → B (market.process symbolId config c).1 →
      I (market.process symbolId config c).1 (see g (market.process symbolId config c).2) := by
    rintro market g c ⟨hs, hn, hr⟩ hlt
    exact ⟨hs.process c, hn.process hs c hlt, hstep market g c hs hn hr hlt⟩
  have hend : B (Transducer.trace (Market.process symbolId config) .empty commands).1 := by
    rw [htrace]
    exact haccepted
  have hobserved := Transducer.trace_observes_within hback hkeep ⟨.empty, .empty, hstart⟩ commands hend
  rw [htrace] at hobserved
  exact hobserved.2.2

end Market

/-- Runs of the engine from its fresh state are those of the market, so that they never fail. -/
theorem Fresh.run {symbolId : ℕ} {config : OrderBookConfig} {engine : MatchingEngine}
    (h : Fresh symbolId config engine) (commands : List EngineCommand) :
    ∃ final queues market events, engine.run commands = .ok (final, events) ∧
      Transducer.trace (Market.process symbolId config) .empty commands = (market, events) ∧
      Refines symbolId config final market queues ∧ market.Sound config ∧
      market.accepted = acceptedCount events ∧ market.trades = tradeCount events ∧
      (acceptedCount events < word → market.Numbered) := by
  obtain ⟨final, queues, hrun, hrefines⟩ := (Refines.create h.fits h.created).run commands
  have hsound : (Transducer.trace (Market.process symbolId config) .empty commands).1.Sound config :=
    Transducer.trace_invariant (I := Market.Sound config) (fun m c hm => hm.process c) .empty commands
  have haccepted := Market.countP_run (Market.countP_accepted symbolId config) .empty commands
  have htrades := Market.countP_run (Market.countP_trades symbolId config) .empty commands
  have hnumbered : (Transducer.trace (Market.process symbolId config) .empty commands).1.accepted < word →
      (Transducer.trace (Market.process symbolId config) .empty commands).1.Numbered := fun hlt =>
    (Transducer.trace_invariant_within (I := fun m => m.Sound config ∧ m.Numbered)
      (B := fun m => m.accepted < word) (fun m c => (Market.accepted_le m c).trans_lt)
      (fun m c hm hlt => ⟨hm.1.process c, hm.2.process hm.1 c hlt⟩) ⟨.empty, .empty⟩ commands hlt).2
  have hcount : (Market.empty.accepted, Market.empty.trades) = (0, 0) := rfl
  simp only [Prod.mk.injEq] at hcount
  rw [hcount.1, Nat.zero_add] at haccepted
  rw [hcount.2, Nat.zero_add] at htrades
  exact ⟨final, queues, _, _, hrun, rfl, hrefines, hsound, haccepted, htrades,
    fun hlt => hnumbered (haccepted.trans_lt hlt)⟩

section Events

variable {symbolId : ℕ} {config : OrderBookConfig} {engine final : MatchingEngine}
  {commands : List EngineCommand} {events : List (List EngineEvent)}

theorem Fresh.events_eq (h : Fresh symbolId config engine) (hrun : engine.run commands = .ok (final, events)) :
    events = (Transducer.trace (Market.process symbolId config) .empty commands).2 := by
  obtain ⟨final', queues, market, events', hrun', htrace, -⟩ := h.run commands
  obtain ⟨-, rfl⟩ := Prod.mk.inj (Except.ok.inj (hrun.symm.trans hrun'))
  exact (congrArg Prod.snd htrace).symm

theorem Fresh.refines (h : Fresh symbolId config engine) (hrun : engine.run commands = .ok (final, events)) :
    ∃ queues, Refines symbolId config final (Transducer.trace (Market.process symbolId config) .empty commands).1
      queues := by
  obtain ⟨final', queues, market, events', hrun', htrace, hr, -⟩ := h.run commands
  obtain ⟨rfl, -⟩ := Prod.mk.inj (Except.ok.inj (hrun.symm.trans hrun'))
  rw [htrace]
  exact ⟨queues, hr⟩

theorem Fresh.acceptedCount_le (h : Fresh symbolId config engine)
    (hrun : engine.run commands = .ok (final, events)) : acceptedCount events ≤ commands.length := by
  rw [h.events_eq hrun]
  exact Market.countP_run_le .empty commands

end Events

theorem Fresh.default (symbolId : ℕ) : ∃ engine, Fresh symbolId defaultOrderBookConfig engine := by
  have hsome : (MatchingEngine.create symbolId defaultOrderBookConfig).isSome = true := rfl
  obtain ⟨engine, hengine⟩ := Option.isSome_iff_exists.mp hsome
  exact ⟨engine, by decide, hengine⟩

def sampleBuy : EngineCommand := .newOrder {
  seq := 1, price := 100, quantity := 10, clientOrderId := 7, clientId := 1, symbolId := 0
  side := .buy, orderType := .limit, tif := .gfd }

def sampleSell : EngineCommand := .newOrder {
  seq := 2, price := 90, quantity := 4, clientOrderId := 8, clientId := 1, symbolId := 0
  side := .sell, orderType := .limit, tif := .gfd }

def sampleOrder (side : Side) (price quantity : ℕ) : NewOrderCommand :=
  { seq := 3, price, quantity, clientOrderId := 9, clientId := 1, symbolId := 0, side, orderType := .limit
    tif := .gfd }

def sampleSweep : List EngineCommand :=
  [.newOrder (sampleOrder .buy 100 10), .newOrder (sampleOrder .buy 100 5), .newOrder (sampleOrder .sell 90 12)]

end Sixchange
