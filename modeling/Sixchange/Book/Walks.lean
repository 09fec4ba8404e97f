import Sixchange.Book.Matching

namespace Sixchange

open LinkedQueue PriorityList
open scoped List

namespace OrderBook

variable (book : OrderBook)

def levelQueue (side : Side) (index : ℕ) : List Slot :=
  walk (nextOf book.orders.orders) book.orders.capacity (book.level side index).head

def levelOrders (side : Side) (index : ℕ) : List RestingOrder :=
  (book.levelQueue side index).map fun slot => (book.order slot).view

def linkedSlots (side : Side) : List Slot :=
  (List.range book.config.priceLevelCount).flatMap (book.levelQueue side)

def Rests (orderId : ℕ) : Prop := ∃ sd, ∃ slot ∈ book.linkedSlots sd, (book.order slot).orderId = orderId

theorem linkedSlots_length (side : Side) : (book.linkedSlots side).length =
    ((List.range book.config.priceLevelCount).map fun p => (book.levelOrders side p).length).sum := by
  simp only [linkedSlots, levelOrders, List.length_flatMap, List.length_map]

def freeSlots : List Slot :=
  walk (nextOf book.orders.orders) book.orders.capacity book.orders.freeHead

end OrderBook

namespace BookCore

variable {book : OrderBook} {queues : Side → List Slot} {pending : List Slot}

theorem levelQueue_eq (h : BookCore book queues pending) (sd : Side) (p : ℕ) :
    book.levelQueue sd p = atPrice book.orders.orders (queues sd) p := by
  refine ((h.side sd).queue p).walk ?_
  have hq := h.queue_length_le sd
  have hp : (atPrice book.orders.orders (queues sd) p).length ≤ (queues sd).length :=
    List.length_filter_le _ _
  have := h.capacity_eq
  omega

theorem levelOrders_eq (h : BookCore book queues pending) (sd : Side) (p : ℕ) :
    book.levelOrders sd p = (book.views (queues sd)).filter (·.price = p) := by
  rw [OrderBook.levelOrders, h.levelQueue_eq, OrderBook.views, List.filter_map]
  rfl

theorem linkedSlots_perm (h : BookCore book queues pending) (sd : Side) :
    book.linkedSlots sd ~ queues sd := by
  rw [OrderBook.linkedSlots, funext (h.levelQueue_eq sd)]
  apply flatMap_filter_perm
  intro s hs
  exact ((h.side sd).placed s hs).price_lt

theorem freeSlots_spec (h : BookCore book queues pending) :
    PoolInv book.orders (heldSlots queues pending) book.freeSlots := by
  obtain ⟨free, hp⟩ := h.pool
  have hlen : free.length ≤ book.orders.capacity := by
    have := hp.length_eq
    have := hp.size_le
    omega
  have hfree : book.freeSlots = free := by
    rw [OrderBook.freeSlots, hp.freeHead_eq]
    exact hp.freeChain.walk hlen
  rwa [hfree]

end BookCore

end Sixchange
