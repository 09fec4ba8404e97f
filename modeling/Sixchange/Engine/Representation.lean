import Sixchange.Engine.Runs

namespace Sixchange

open LinkedQueue OrderBook
open scoped List

structure LevelWellFormed (book : OrderBook) (side : Side) (index : ℕ) : Prop where
  price_eq : (book.level side index).price = index
  queue : Queue (nextOf book.orders.orders) (prevOf book.orders.orders) (book.level side index).head
    (book.level side index).tail (book.levelQueue side index)
  head_iff_tail : (book.level side index).head = none ↔ (book.level side index).tail = none
  prev_head : ∀ s, (book.level side index).head = some s → (book.order s).prev = none
  next_tail : ∀ s, (book.level side index).tail = some s → (book.order s).next = none
  inverse : ∀ s ∈ book.levelQueue side index, ∀ t ∈ book.levelQueue side index,
    (book.order s).next = some t ↔ (book.order t).prev = some s
  acyclic : (book.levelQueue side index).Nodup
  orders : ∀ s ∈ book.levelQueue side index, (book.order s).price = index ∧ (book.order s).side = side ∧
    (book.order s).symbolId = book.symbolId ∧ (book.order s).active = true ∧
    0 < (book.order s).remainingQuantity
  increasing : ((book.levelQueue side index).map (fun s => (book.order s).orderId)).Pairwise (· < ·)

structure WellFormed (config : OrderBookConfig) (book : OrderBook) : Prop where
  levels : ∀ sd, ∀ p < config.priceLevelCount, LevelWellFormed book sd p
  slots : book.linkedSlots .buy ++ book.linkedSlots .sell ++ book.freeSlots ~ List.range book.orders.size
  size_le : book.orders.size ≤ book.orders.capacity
  free : Chain (nextOf book.orders.orders) book.freeSlots ∧ book.orders.freeHead = book.freeSlots.head?
  lookup : FixedOrderMap.pairs book.ordersById.capacity book.ordersById.entries ~
    (book.linkedSlots .buy ++ book.linkedSlots .sell).map (fun s => ((book.order s).orderId, s))
  find : ∀ orderId s, book.ordersById.find book.bucket orderId = some s ↔
    (s ∈ book.linkedSlots .buy ∨ s ∈ book.linkedSlots .sell) ∧ (book.order s).orderId = orderId
  activeOrders : ∀ sd, (book.sides sd).activeOrders = (book.linkedSlots sd).length

namespace Refines

variable {symbolId : ℕ} {config : OrderBookConfig} {engine : MatchingEngine} {market : Market}
  {queues : Side → List Slot}

theorem held_perm (h : Refines symbolId config engine market queues) :
    heldSlots queues [] ~ engine.orderBook.linkedSlots .buy ++ engine.orderBook.linkedSlots .sell := by
  rw [heldSlots, List.append_nil]
  exact (h.inv.linkedSlots_perm .buy).symm.append (h.inv.linkedSlots_perm .sell).symm

theorem level_wellFormed (h : Refines symbolId config engine market queues) (hn : market.Numbered)
    (sd : Side) (p : ℕ) : LevelWellFormed engine.orderBook sd p := by
  have hqueue := (h.inv.side sd).queue p
  rw [← h.inv.levelQueue_eq sd p] at hqueue
  have hmem : ∀ s ∈ engine.orderBook.levelQueue sd p, s ∈ queues sd ∧ (engine.orderBook.order s).price = p := by
    intro s hs
    rw [h.inv.levelQueue_eq] at hs
    exact mem_atPrice.mp hs
  refine ⟨(h.inv.side sd).price_eq p, hqueue, hqueue.head_eq_none_iff, fun s hs => ?_, fun s hs => ?_,
    fun s hs t ht => hqueue.next_iff_prev hs ht, hqueue.nodup, fun s hs => ?_, ?_⟩
  · exact (hs ▸ hqueue).prev_head
  · exact (hs ▸ hqueue).next_tail
  · obtain ⟨hq, hp⟩ := hmem s hs
    have hplaced := (h.inv.side sd).placed s hq
    exact ⟨hp, (h.inv.side sd).side_eq s hq, hplaced.symbolId_eq, hplaced.active, h.inv.quantity sd s hq⟩
  · have hinc := hn.increasing sd
    rw [← h.book] at hinc
    have hslots := List.pairwise_map.mp hinc
    rw [List.pairwise_map, h.inv.levelQueue_eq]
    refine (List.Pairwise.imp_of_mem ?_ (hslots.sublist List.filter_sublist))
    intro s t hs ht hlt
    exact hlt ((mem_atPrice.mp hs).2.trans (mem_atPrice.mp ht).2.symm)

theorem wellFormed (h : Refines symbolId config engine market queues) (hn : market.Numbered) :
    WellFormed config engine.orderBook := by
  have hpool := h.inv.freeSlots_spec
  refine ⟨fun sd p _ => h.level_wellFormed hn sd p, (h.held_perm.append_right _).symm.trans hpool.slots,
    hpool.size_le, ⟨hpool.freeChain, hpool.freeHead_eq⟩, h.inv.lookup.perm.trans (h.held_perm.map _), ?_, ?_⟩
  · intro orderId s
    rw [h.inv.find_iff, h.held_perm.mem_iff, List.mem_append]
  · intro sd
    rw [h.inv.activeOrders, (h.inv.linkedSlots_perm sd).length_eq]

end Refines

theorem representation_invariant {symbolId : ℕ} {config : OrderBookConfig} {engine : MatchingEngine}
    (h : Fresh symbolId config engine) (commands : List EngineCommand) :
    ∃ final events, engine.run commands = .ok (final, events) ∧
      (acceptedCount events < word → WellFormed config final.orderBook) := by
  obtain ⟨final, queues, market, events, hrun, -, hr, -, -, -, hn⟩ := h.run commands
  exact ⟨final, events, hrun, fun hlt => hr.wellFormed (hn hlt)⟩

theorem representation_invariant_default : ∃ engine, Fresh 0 defaultOrderBookConfig engine ∧
    ∃ final events, engine.run [sampleBuy, sampleSell] = .ok (final, events) ∧
      WellFormed defaultOrderBookConfig final.orderBook := by
  obtain ⟨engine, h⟩ := Fresh.default 0
  obtain ⟨final, events, hrun, hwf⟩ := representation_invariant h [sampleBuy, sampleSell]
  exact ⟨engine, h, final, events, hrun, hwf ((h.acceptedCount_le hrun).trans_lt (by decide))⟩

end Sixchange
