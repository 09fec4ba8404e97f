import Sixchange.Book.Requests
import Sixchange.Model.MatchingEngine

namespace Sixchange

open OrderBook

structure Refines (symbolId : ℕ) (config : OrderBookConfig) (engine : MatchingEngine) (market : Market)
    (queues : Side → List Slot) : Prop where
  inv : BookInv engine.orderBook queues []
  book : (fun sd => engine.orderBook.views (queues sd)) = market.book
  symbolId_eq : engine.orderBook.symbolId = symbolId
  config_eq : engine.orderBook.config = config
  nextOrderId_eq : engine.nextOrderId = market.nextId
  nextTradeId_eq : engine.nextTradeId = (market.trades + 1) % word
  executionCount_eq : engine.orderBook.executionCount = market.trades % word

theorem wrapAdd_one_mod (n : ℕ) : wrapAdd (n % word) 1 = (n + 1) % word := wrapAdd_mod n 1

theorem foldl_wrapAdd {α : Type} (l : List α) (n : ℕ) :
    l.foldl (fun n _ => wrapAdd n 1) (n % word) = (n + l.length) % word := by
  induction l generalizing n with
  | nil => rfl
  | cons a l ih =>
    rw [List.foldl_cons, wrapAdd_one_mod, ih, List.length_cons]
    congr 1
    omega

theorem trace_onMatch (command : NewOrderCommand) (orderId : ℕ) (engine : MatchingEngine) {n : ℕ}
    (hn : engine.nextTradeId = (n + 1) % word) (fills : List Fill) :
    Transducer.trace MatchingEngine.onMatch engine (fills.map (executionOf (admitted command orderId))) =
      ({ engine with nextTradeId := (n + fills.length + 1) % word }, tradeEvents command orderId n fills) := by
  induction fills generalizing engine n with
  | nil => simp [tradeEvents, ← hn]
  | cons fill fills ih =>
    let execution := executionOf (admitted command orderId) fill
    have hnext : (engine.onMatch execution).1.nextTradeId = (n + 1 + 1) % word := by
      change wrapAdd engine.nextTradeId 1 = _
      rw [hn, wrapAdd_one_mod]
    have hevent : (engine.onMatch execution).2 = traded command orderId ((n + 1) % word) fill := by
      rw [← hn]
      rfl
    have hlen : n + 1 + fills.length + 1 = n + (fills.length + 1) + 1 := by omega
    rw [List.map_cons, Transducer.trace_cons, ih _ hnext, hevent, hlen]
    rfl

namespace Refines

variable {symbolId : ℕ} {config : OrderBookConfig} {engine : MatchingEngine} {market : Market}
  {queues : Side → List Slot}

theorem shows (h : Refines symbolId config engine market queues) :
    Shows symbolId config engine.orderBook market queues :=
  ⟨h.inv, h.book, h.symbolId_eq, h.config_eq⟩

theorem ids_eq (h : Refines symbolId config engine market queues) :
    engine.orderBook.heldIds (heldSlots queues []) = market.ids := h.shows.ids_eq

theorem submit_refused (h : Refines symbolId config engine market queues) {command : NewOrderCommand}
    {reason : RejectReason} (hrefusal : market.refusal symbolId config command = some reason) :
    ∃ engine', engine.processNewOrder command = .ok (engine', [rejection (.newOrder command) reason]) ∧
      Refines symbolId config engine' market queues ∧ (market.nextId ∉ market.ids → engine' = engine) := by
  rw [Market.refusal] at hrefusal
  rw [MatchingEngine.processNewOrder]
  split_ifs at hrefusal ⊢ with htype htif
  · obtain rfl := Option.some.inj hrefusal
    exact ⟨engine, rfl, h, fun _ => rfl⟩
  · obtain rfl := Option.some.inj hrefusal
    exact ⟨engine, rfl, h, fun _ => rfl⟩
  · obtain ⟨book', hadmitted, hshows, -, hrest, hsame⟩ := h.shows.admit_refused hrefusal
    rw [← h.nextOrderId_eq] at hadmitted hsame
    dsimp only
    rw [hadmitted]
    refine ⟨{ engine with orderBook := book' }, rfl, ?_, fun hid => by rw [hsame (h.nextOrderId_eq ▸ hid)]⟩
    exact ⟨hshows.inv, hshows.views_eq, hshows.symbolId_eq, hshows.config_eq, h.nextOrderId_eq, h.nextTradeId_eq,
      (congrArg OrderBook.executionCount hrest).trans h.executionCount_eq⟩

theorem submit_admitted (h : Refines symbolId config engine market queues) {command : NewOrderCommand}
    (hrefusal : market.refusal symbolId config command = none) :
    ∃ engine' queues', engine.processNewOrder command = .ok (engine', (market.submit symbolId config command).2) ∧
      Refines symbolId config engine' (market.submit symbolId config command).1 queues' := by
  rw [Market.submit, hrefusal]
  dsimp only
  rw [Market.refusal] at hrefusal
  split_ifs at hrefusal with htype htif
  obtain ⟨book₁, x, book₂, queues₂, hadmitted, hexecute, hshows, hcount⟩ := h.shows.submit hrefusal
  rw [← h.nextOrderId_eq] at hadmitted
  -- the trade ids do not depend on the book, so the events can be numbered after the sweep
  have htrace := trace_onMatch command market.nextId
    { engine with orderBook := book₂, nextOrderId := wrapAdd engine.nextOrderId 1 } h.nextTradeId_eq
    (market.swept command).fills
  refine ⟨{ orderBook := book₂, nextOrderId := wrapAdd engine.nextOrderId 1
            nextTradeId := (market.trades + (market.swept command).fills.length + 1) % word }, queues₂, ?_,
    ⟨hshows.inv, hshows.views_eq, hshows.symbolId_eq, hshows.config_eq, ?_, rfl, ?_⟩⟩
  · rw [MatchingEngine.processNewOrder, if_neg htype, if_neg htif]
    dsimp only
    rw [hadmitted]
    dsimp only
    rw [hexecute, ok_bind]
    dsimp only
    rw [htrace, h.nextOrderId_eq]
    simp only [decide_eq_true_eq]
    rfl
  · dsimp only
    rw [h.nextOrderId_eq, Market.nextId, wrapAdd_one_mod]
    rfl
  · rw [hcount, h.executionCount_eq, foldl_wrapAdd]
    rfl

theorem submit (h : Refines symbolId config engine market queues) (command : NewOrderCommand) :
    ∃ engine' queues', engine.processNewOrder command = .ok (engine', (market.submit symbolId config command).2) ∧
      Refines symbolId config engine' (market.submit symbolId config command).1 queues' := by
  cases hrefusal : market.refusal symbolId config command with
  | some reason =>
    obtain ⟨engine', hrun, hrefines, -⟩ := h.submit_refused hrefusal
    rw [Market.submit, hrefusal]
    exact ⟨engine', queues, hrun, hrefines⟩
  | none => exact h.submit_admitted hrefusal

theorem withdraw_refused (h : Refines symbolId config engine market queues) {command : CancelOrderCommand}
    {reason : RejectReason} (hrefused : market.findOwned symbolId command = .error reason) :
    engine.processCancelOrder command = (engine, [rejection (.cancelOrder command) reason]) := by
  rw [MatchingEngine.processCancelOrder, h.shows.cancel_refused hrefused]
  rfl

theorem withdraw_owned (h : Refines symbolId config engine market queues) {command : CancelOrderCommand}
    {order : RestingOrder} (howned : market.findOwned symbolId command = .ok order) :
    ∃ queues', (engine.processCancelOrder command).2 = [withdrawn command.seq symbolId order] ∧
      Refines symbolId config (engine.processCancelOrder command).1 (market.remove command.orderId) queues' := by
  obtain ⟨book', queues', hcancel, hshows, hcount⟩ := h.shows.cancel_owned howned
  rw [MatchingEngine.processCancelOrder, hcancel]
  exact ⟨queues', rfl, ⟨hshows.inv, hshows.views_eq, hshows.symbolId_eq, hshows.config_eq, h.nextOrderId_eq,
    h.nextTradeId_eq, hcount.trans h.executionCount_eq⟩⟩

theorem withdraw (h : Refines symbolId config engine market queues) (command : CancelOrderCommand) :
    ∃ queues', (engine.processCancelOrder command).2 = (market.withdraw symbolId command).2 ∧
      Refines symbolId config (engine.processCancelOrder command).1 (market.withdraw symbolId command).1
        queues' := by
  rw [Market.withdraw_eq]
  cases howned : market.findOwned symbolId command with
  | error reason =>
    rw [h.withdraw_refused howned]
    exact ⟨queues, rfl, h⟩
  | ok order => exact h.withdraw_owned howned

theorem process (h : Refines symbolId config engine market queues) (command : EngineCommand) :
    ∃ engine' queues', engine.process command = .ok (engine', (market.process symbolId config command).2) ∧
      Refines symbolId config engine' (market.process symbolId config command).1 queues' := by
  cases command with
  | newOrder command => exact h.submit command
  | cancelOrder command =>
    obtain ⟨queues', hout, hrefines⟩ := h.withdraw command
    exact ⟨_, queues', by rw [MatchingEngine.process, Market.process, ← hout], hrefines⟩
  | replaceOrder command => exact ⟨engine, queues, rfl, h⟩

theorem process_rejected (h : Refines symbolId config engine market queues) (hfresh : market.nextId ∉ market.ids)
    {command : EngineCommand} {event : CommandRejectedEvent}
    (hrejected : (market.process symbolId config command).2 = [.commandRejected event]) :
    engine.process command = .ok (engine, [.commandRejected event]) := by
  cases command with
  | newOrder command =>
    rw [Market.process, Market.submit] at hrejected
    cases hrefusal : market.refusal symbolId config command with
    | some reason =>
      obtain ⟨engine', hrun, -, hsame⟩ := h.submit_refused hrefusal
      rw [hrefusal] at hrejected
      rw [MatchingEngine.process, hrun, hsame hfresh, ← hrejected]
    | none =>
      rw [hrefusal] at hrejected
      cases hrejected
  | cancelOrder command =>
    rw [Market.process, Market.withdraw_eq] at hrejected
    cases howned : market.findOwned symbolId command with
    | error reason =>
      rw [howned] at hrejected
      rw [MatchingEngine.process, h.withdraw_refused howned, ← hrejected]
    | ok order =>
      rw [howned] at hrejected
      cases hrejected
  | replaceOrder command =>
    rw [← hrejected]
    rfl

theorem create (hlt : config.orderLookupCapacity < word)
    (hnew : MatchingEngine.create symbolId config = some engine) :
    Refines symbolId config engine .empty (fun _ => []) := by
  obtain ⟨book, hbook, rfl⟩ := Option.map_eq_some_iff.mp hnew
  obtain ⟨hinv, hsymbol, hconfig, hcount⟩ := BookInv.create hlt hbook
  exact ⟨hinv, rfl, hsymbol, hconfig, rfl, rfl, hcount⟩

theorem run (h : Refines symbolId config engine market queues) (commands : List EngineCommand) :
    ∃ engine' queues', engine.run commands =
        .ok (engine', (Transducer.trace (Market.process symbolId config) market commands).2) ∧
      Refines symbolId config engine' (Transducer.trace (Market.process symbolId config) market commands).1
        queues' := by
  let R (engine : MatchingEngine) (market : Market) : Prop := ∃ queues, Refines symbolId config engine market queues
  have hstep : ∀ engine market command, R engine market → ∃ engine',
      engine.process command = .ok (engine', (market.process symbolId config command).2) ∧
        R engine' (market.process symbolId config command).1 := by
    rintro engine market command ⟨queues, h⟩
    obtain ⟨engine', queues', hrun, h'⟩ := h.process command
    exact ⟨engine', hrun, queues', h'⟩
  have hstart : R engine market := ⟨queues, h⟩
  obtain ⟨engine', hrun, queues', h'⟩ := Transducer.run_simulates hstep hstart commands
  exact ⟨engine', queues', hrun, h'⟩

end Refines

end Sixchange
