import Sixchange.Book.Matching
import Sixchange.Map.FiniteMap
import Sixchange.Market.Market

namespace Sixchange

open LinkedQueue PriorityList OrderBook
open scoped List

def admitted (command : NewOrderCommand) (orderId : ℕ) : Order where
  orderId := orderId
  clientOrderId := command.clientOrderId
  clientId := command.clientId
  symbolId := command.symbolId
  side := command.side
  price := command.price
  remainingQuantity := command.quantity
  seq := command.seq
  active := true

namespace OrderBook

def heldIds (book : OrderBook) (held : List Slot) : List ℕ := held.map (fun s => (book.order s).orderId)

end OrderBook

namespace BookInv

variable {book : OrderBook} {queues : Side → List Slot} {pending : List Slot}

theorem create {symbolId : ℕ} {config : OrderBookConfig} (hlt : config.orderLookupCapacity < word)
    (hnew : OrderBook.create symbolId config = some book) :
    BookInv book (fun _ => []) [] ∧ book.symbolId = symbolId ∧ book.config = config ∧ book.executionCount = 0 := by
  rw [OrderBook.create] at hnew
  split at hnew
  · cases hnew
  · next m hm =>
    split at hnew
    · cases hnew
    · next hvalid =>
      obtain rfl := Option.some.inj hnew
      push Not at hvalid
      obtain ⟨hrep, hcap, -⟩ := FixedOrderMap.create_represents hlt hm (FixedOrderMap.create_mixBucket_lt hm)
      refine ⟨⟨⟨fun sd => SideInv.empty _ _ _ sd, fun sd => rfl, fun sd => rfl, by simp, ⟨[], PoolInv.create _⟩,
        hrep, rfl, ?_⟩, by simp⟩, rfl, rfl, rfl⟩
      rw [hcap]
      exact hvalid.2.2.1

theorem pending_perm (h : BookInv book queues pending) {pending' : List Slot} (hp : pending ~ pending') :
    BookInv book queues pending' := ⟨h.toBookCore.pending_perm hp, h.quantity⟩

theorem heldIds_eq (book : OrderBook) (held : List Slot) :
    (lookupEntries book.orders.orders held).map Prod.fst = book.heldIds held := by
  simp [lookupEntries, heldIds, order]

theorem heldIds_nodup (h : BookInv book queues pending) : (book.heldIds (heldSlots queues pending)).Nodup :=
  heldIds_eq book (heldSlots queues pending) ▸ h.lookup.keys

theorem views_ids (book : OrderBook) (q : List Slot) :
    (book.views q).map RestingOrder.orderId = book.heldIds q := by
  rw [OrderBook.views, heldIds, List.map_map]
  rfl

theorem admit_allocated (h : BookInv book queues pending) {command : NewOrderCommand} (orderId : ℕ)
    (hsymbol : command.symbolId = book.symbolId) (hquantity : command.quantity ≠ 0)
    (hprice : command.price < book.config.priceLevelCount)
    (hcapacity : (heldSlots queues pending).length ≠ book.config.maxActiveOrders) :
    ∃ pool x free, PoolInv pool (x :: heldSlots queues pending) free ∧ x ∉ heldSlots queues pending ∧
      pool.capacity = book.orders.capacity ∧ (pool.orders x).data = admitted command orderId ∧
      (∀ s, s ≠ x → pool.orders s = book.order s) ∧
      book.admitOrder command orderId = match book.ordersById.insert book.bucket orderId x with
        | (.inserted, ordersById) => ({ book with orders := pool, ordersById }, .ok x)
        | (.duplicateKey, ordersById) =>
          ({ book with orders := pool.release x, ordersById }, .error .matchingEngineError)
        | (.full, ordersById) =>
          ({ book with orders := pool.release x, ordersById }, .error .capacityExhausted) := by
  obtain ⟨free, hpool⟩ := h.pool
  have hspec := hpool.allocate_spec
  let write (o : Order) : Order := { admitted command orderId with prev := o.prev, next := o.next }
  rw [admitOrder, if_neg (by simp [hsymbol]), if_neg hquantity, if_neg (by omega)]
  rcases halloc : book.orders.allocate with ⟨_ | x, pool⟩
  · rw [halloc] at hspec
    exact absurd (hspec.2.trans h.capacity_eq) hcapacity
  · rw [halloc] at hspec
    obtain ⟨-, hx, hcap, hframe, free', hpool'⟩ := hspec
    refine ⟨{ pool with orders := modify pool.orders x write }, x, free', hpool'.write (fun s hs => ?_), hx,
      hcap, ?_, fun s hs => ?_, rfl⟩
    · rw [modify_of_ne]
      rintro rfl
      exact hpool'.not_free (by simp) hs
    · dsimp only
      rw [modify_self]
      rfl
    · dsimp only
      rw [modify_of_ne _ hs]
      exact hframe s hs

theorem heldIds_length (book : OrderBook) (held : List Slot) : (book.heldIds held).length = held.length :=
  List.length_map _

theorem admit_ok (h : BookInv book queues pending) {command : NewOrderCommand} {orderId : ℕ}
    (hadmitted : admitError book.symbolId book.config (book.heldIds (heldSlots queues pending)) orderId command =
      none) :
    ∃ book' x, book.admitOrder command orderId = (book', .ok x) ∧ BookInv book' queues (x :: pending) ∧
      x ∉ heldSlots queues pending ∧
      (book'.order x).data = admitted command orderId ∧
      (∀ s, s ≠ x → book'.order s = book.order s) ∧
      book'.symbolId = book.symbolId ∧ book'.config = book.config ∧
      book'.executionCount = book.executionCount := by
  obtain ⟨hsymbol, hquantity, hprice, hlen, hid⟩ := admitError_none.mp hadmitted
  rw [heldIds_length] at hlen
  obtain ⟨pool, x, free, hpool, hx, hcap, hdata, hframe, heq⟩ :=
    h.admit_allocated orderId hsymbol hquantity hprice hlen
  have hlt : (lookupEntries book.orders.orders (heldSlots queues pending)).length <
      book.ordersById.capacity := by
    have := h.held_length_le
    have := h.lookup_ge
    rw [lookupEntries, List.length_map]
    omega
  obtain ⟨ordersById, hinsert, hrep, hcap', hmask⟩ := h.lookup.insert_fresh x
    (by rwa [heldIds_eq]) hlt
  rw [hinsert] at heq
  have hne : ∀ s ∈ heldSlots queues pending, s ≠ x := fun s hs => ne_of_mem_of_not_mem hs hx
  refine ⟨_, x, heq, ?_, hx, hdata, hframe, rfl, rfl, rfl⟩
  have hqueued : ∀ sd, ∀ s ∈ queues sd, pool.orders s = book.order s :=
    fun sd s hs => hframe s (hne s (mem_heldSlots.mpr (Or.inl ⟨sd, hs⟩)))
  refine h.of_data (h.frame rfl rfl rfl hqueued ?_ ⟨free, hpool.of_perm heldSlots_cons.symm⟩ ?_ hcap hcap')
    (fun sd s hs => ⟨hs, congrArg Order.data (hqueued sd s hs)⟩)
  · intro s hs
    rcases List.mem_cons.mp hs with rfl | hs
    · refine Placed.of_data (o := admitted command orderId) ?_ ⟨hsymbol, rfl, hprice⟩
      exact hdata
    · have hp := h.placed s hs
      rwa [← hframe s (hne s (mem_heldSlots.mpr (Or.inr hs)))] at hp
  · have hentries : lookupEntries pool.orders (heldSlots queues (x :: pending)) ~
        (orderId, x) :: lookupEntries book.orders.orders (heldSlots queues pending) := by
      have hid' : (pool.orders x).orderId = orderId := congrArg Order.orderId hdata
      have hold := lookupEntries_congr (fun s hs => congrArg Order.orderId (hframe s (hne s hs)))
      change _ = lookupEntries book.orders.orders _ at hold
      rw [← hold, ← hid']
      exact heldSlots_cons.map _
    change ordersById.Represents (fun key => FixedOrderMap.mixBucket ordersById.mask key) _
    rw [hmask]
    exact hrep.of_perm hentries.symm

theorem admit_error (h : BookInv book queues pending) {command : NewOrderCommand} {orderId : ℕ}
    {reason : RejectReason}
    (hadmitted : admitError book.symbolId book.config (book.heldIds (heldSlots queues pending)) orderId command =
      some reason) :
    ∃ book', book.admitOrder command orderId = (book', .error reason) ∧ BookInv book' queues pending ∧
      (∀ s ∈ heldSlots queues pending, book'.order s = book.order s) ∧
      book' = { book with orders := book'.orders } ∧
      (orderId ∉ book.heldIds (heldSlots queues pending) → book' = book) := by
  have hsame : ∀ {r : OrderBook × Except RejectReason Slot}, r = (book, .error reason) →
      ∃ book', r = (book', .error reason) ∧ BookInv book' queues pending ∧
        (∀ s ∈ heldSlots queues pending, book'.order s = book.order s) ∧
        book' = { book with orders := book'.orders } ∧
        (orderId ∉ book.heldIds (heldSlots queues pending) → book' = book) :=
    fun hr => ⟨book, hr, h, fun s _ => rfl, rfl, fun _ => rfl⟩
  simp only [admitError] at hadmitted
  split_ifs at hadmitted with h₁ h₂ h₃ h₄ h₅ <;> obtain rfl := Option.some.inj hadmitted
  · apply hsame
    rw [admitOrder, if_pos h₁]
  · apply hsame
    rw [admitOrder, if_neg h₁, if_pos h₂]
  · apply hsame
    rw [admitOrder, if_neg h₁, if_neg h₂, if_pos h₃]
  · apply hsame
    obtain ⟨free, hpool⟩ := h.pool
    have hspec := hpool.allocate_spec
    rw [heldIds_length] at h₄
    rw [admitOrder, if_neg h₁, if_neg h₂, if_neg h₃]
    rcases halloc : book.orders.allocate with ⟨_ | x, pool⟩
    · rw [halloc] at hspec
      rw [hspec.1]
    · rw [halloc] at hspec
      have := hspec.1
      have := h.capacity_eq
      omega
  · obtain ⟨pool, x, free, hpool, hx, hcap, hdata, hframe, heq⟩ := h.admit_allocated orderId
      (not_not.mp h₁) h₂ (Nat.lt_of_not_le h₃) (by rwa [heldIds_length] at h₄)
    rw [h.lookup.insert_duplicate x (by rwa [heldIds_eq])] at heq
    obtain ⟨hrelease, hkept⟩ := hpool.release_spec
    have hsame' : ∀ s ∈ heldSlots queues pending, (pool.release x).orders s = book.orders.orders s := by
      intro s hs
      have hne := ne_of_mem_of_not_mem hs hx
      exact (hkept s hne).trans (hframe s hne)
    refine ⟨_, heq, ?_, hsame', rfl, fun hid => absurd h₅ hid⟩
    have hqueued : ∀ sd, ∀ s ∈ queues sd, (pool.release x).orders s = book.order s :=
      fun sd s hs => hsame' s (mem_heldSlots.mpr (Or.inl ⟨sd, hs⟩))
    refine h.of_data (h.frame rfl rfl rfl hqueued ?_ ⟨_, hrelease⟩ ?_ hcap rfl)
      (fun sd s hs => ⟨hs, congrArg Order.data (hqueued sd s hs)⟩)
    · intro s hs
      have hp := h.placed s hs
      rwa [OrderBook.order, ← hsame' s (mem_heldSlots.mpr (Or.inr hs))] at hp
    · have hold := lookupEntries_congr (fun s hs => congrArg Order.orderId (hsame' s hs))
      dsimp only
      rw [hold]
      exact h.lookup

end BookInv

end Sixchange
