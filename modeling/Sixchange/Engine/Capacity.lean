import Sixchange.Engine.Runs

namespace Sixchange

open OrderBook
open scoped List

def OrderBook.restingCount (book : OrderBook) : ℕ :=
  (book.linkedSlots .buy).length + (book.linkedSlots .sell).length

structure Admissible (symbolId : ℕ) (config : OrderBookConfig) (command : NewOrderCommand) : Prop where
  orderType_eq : command.orderType = .limit
  tif_eq : command.tif = .gfd
  symbolId_eq : command.symbolId = symbolId
  quantity_ne : command.quantity ≠ 0
  price_lt : command.price < config.priceLevelCount

structure CapacityExact (symbolId : ℕ) (config : OrderBookConfig) (engine : MatchingEngine) : Prop where
  rejected_iff : ∀ command, Admissible symbolId config command → ∃ next events,
    engine.process (.newOrder command) = .ok (next, events) ∧
      ((∃ event, .commandRejected event ∈ events) ↔
        engine.orderBook.restingCount = config.maxActiveOrders) ∧
      ∀ event, .commandRejected event ∈ events → event.reason = .capacityExhausted
  inserted : ∀ x pool, engine.orderBook.orders.allocate = (some x, pool) →
    (engine.orderBook.ordersById.insert engine.orderBook.bucket engine.nextOrderId x).1 = .inserted
  /-- No assertion fails, those on the erasures of `execute` and of the matching loops among them. -/
  no_fault : ∀ command, ∃ next events, engine.process command = .ok (next, events)
  erased : ∀ command, (engine.orderBook.cancel command).2 ≠ .error .matchingEngineError

theorem Admissible.refusal {symbolId : ℕ} {config : OrderBookConfig} {market : Market}
    {command : NewOrderCommand} (hc : Admissible symbolId config command)
    (hfresh : market.nextId ∉ market.ids) :
    market.refusal symbolId config command =
      if market.ids.length = config.maxActiveOrders then some .capacityExhausted else none := by
  rw [Market.refusal, admitError, if_neg (not_not.mpr hc.orderType_eq), if_neg (not_not.mpr hc.tif_eq),
    if_neg (not_not.mpr hc.symbolId_eq), if_neg hc.quantity_ne, if_neg (Nat.not_le_of_lt hc.price_lt),
    if_neg hfresh]

namespace Refines

variable {symbolId : ℕ} {config : OrderBookConfig} {engine : MatchingEngine} {market : Market}
  {queues : Side → List Slot}

theorem restingCount_eq (h : Refines symbolId config engine market queues) :
    engine.orderBook.restingCount = market.ids.length := by
  rw [← h.ids_eq, BookInv.heldIds_length, restingCount, (h.inv.linkedSlots_perm .buy).length_eq,
    (h.inv.linkedSlots_perm .sell).length_eq]
  simp only [heldSlots, List.length_append, List.length_nil, Nat.add_zero]

theorem capacityExact (h : Refines symbolId config engine market queues) (hn : market.Numbered)
    (hlt : market.accepted < word) : CapacityExact symbolId config engine := by
  constructor
  · intro command hc
    obtain ⟨next, queues', hrun, -⟩ := h.process (.newOrder command)
    refine ⟨next, _, hrun, ?_⟩
    rw [h.restingCount_eq, Market.process, Market.submit, hc.refusal (hn.nextId_fresh hlt)]
    split_ifs with hfull
    · refine ⟨iff_of_true ⟨_, List.mem_singleton_self _⟩ hfull, ?_⟩
      intro event hevent
      obtain rfl := EngineEvent.commandRejected.inj (List.mem_singleton.mp hevent)
      rfl
    · refine ⟨iff_of_false ?_ hfull, ?_⟩
      · rintro ⟨event, hevent⟩
        exact Market.not_mem_acceptEvents hevent
      · exact fun event hevent => absurd hevent Market.not_mem_acceptEvents
  · intro x pool halloc
    obtain ⟨free, hpool⟩ := h.inv.pool
    have hspec := hpool.allocate_spec
    rw [halloc] at hspec
    have hid : engine.nextOrderId ∉ engine.orderBook.heldIds (heldSlots queues []) := by
      rw [h.ids_eq, h.nextOrderId_eq]
      exact hn.nextId_fresh hlt
    have hroom : (lookupEntries engine.orderBook.orders.orders (heldSlots queues [])).length <
        engine.orderBook.ordersById.capacity := by
      have := hspec.1
      have := h.inv.capacity_eq
      have := h.inv.lookup_ge
      rw [lookupEntries, List.length_map]
      omega
    obtain ⟨ordersById, hinsert, -⟩ := h.inv.lookup.insert_fresh x (by rwa [BookInv.heldIds_eq]) hroom
    rw [hinsert]
  · intro command
    obtain ⟨next, queues', hrun, -⟩ := h.process command
    exact ⟨next, _, hrun⟩
  · exact h.inv.cancel_erases

end Refines

theorem capacity_exact {symbolId : ℕ} {config : OrderBookConfig} {engine : MatchingEngine}
    (h : Fresh symbolId config engine) (commands : List EngineCommand) :
    ∃ final events, engine.run commands = .ok (final, events) ∧
      (acceptedCount events < word → CapacityExact symbolId config final) := by
  obtain ⟨final, queues, market, events, hrun, -, hr, -, haccepted, -, hn⟩ := h.run commands
  exact ⟨final, events, hrun, fun hlt => hr.capacityExact (hn hlt) (haccepted.trans_lt hlt)⟩

theorem capacity_exact_default : ∃ engine, Fresh 0 defaultOrderBookConfig engine ∧
    ∃ final events, engine.run [sampleBuy, sampleSell] = .ok (final, events) ∧
      CapacityExact 0 defaultOrderBookConfig final := by
  obtain ⟨engine, h⟩ := Fresh.default 0
  obtain ⟨final, events, hrun, hexact⟩ := capacity_exact h [sampleBuy, sampleSell]
  exact ⟨engine, h, final, events, hrun, hexact ((h.acceptedCount_le hrun).trans_lt (by decide))⟩

end Sixchange
