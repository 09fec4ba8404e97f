import Sixchange.Book.Invariant

namespace Sixchange

open LinkedQueue PriorityList
open scoped List

namespace OrderBook

theorem restOn_eq (book : OrderBook) (sd : Side) (better : ℕ → ℕ → Bool) (x : Slot) :
    book.restOn sd better x =
      let index := (book.order x).price
      let r := ((book.sides sd).levels index).pushBack book.orders.orders x
      { book with
        orders := { book.orders with orders := r.2 }
        sides := Function.update book.sides sd
          { levels := Function.update (book.sides sd).levels index r.1
            best := match (book.sides sd).best with
              | none => some index
              | some best => if better index best then some index else some best
            activeOrders := wrapAdd (book.sides sd).activeOrders 1 } } := by
  simp only [restOn, pushBack, setLevel, setOrders, setActiveOrders, setBest, level, order,
    Function.update_self, Function.update_idem]
  cases hb : (book.sides sd).best with
  | none => rfl
  | some best =>
    by_cases hc : better (book.orders.orders x).price best = true <;> simp [hc]

end OrderBook

namespace BookInv

variable {book : OrderBook} {queues : Side → List Slot} {pending : List Slot} {x : Slot} {sd : Side}

theorem restOn (h : BookInv book queues (x :: pending)) (better : ℕ → ℕ → Bool)
    (hside : (book.order x).side = sd) (hquantity : 0 < (book.order x).remainingQuantity)
    (hbetter : ∀ p q, better p q = true ↔ sd.better p q) :
    BookInv (book.restOn sd better x)
        (Function.update queues sd (enqueue sd.better (priceOf book.orders.orders) x (queues sd)))
        pending ∧
      (∀ s, ((book.restOn sd better x).order s).data = (book.order s).data) ∧
      (book.restOn sd better x).symbolId = book.symbolId ∧
      (book.restOn sd better x).config = book.config ∧
      (book.restOn sd better x).executionCount = book.executionCount := by
  obtain ⟨free, hpool⟩ := h.pool
  have hxq : ∀ sd', x ∉ queues sd' := fun sd' hs => h.not_pending hs (by simp)
  have hxplaced : Placed book.symbolId book.config.priceLevelCount (book.order x) := h.placed x (by simp)
  obtain ⟨hnew, hr⟩ := (h.side sd).push (hxq sd) hside hxplaced
  rw [OrderBook.restOn_eq]
  dsimp only [OrderBook.order] at hquantity hnew hr ⊢
  generalize ((book.sides sd).levels (book.orders.orders x).price).pushBack book.orders.orders x = r
    at hnew hr ⊢
  have hdata : ∀ s, (r.2 s).data = (book.orders.orders s).data := hr.data
  have hprice : priceOf r.2 = priceOf book.orders.orders := funext (fun s => data_price (hdata s))
  have hperm : enqueue sd.better (priceOf book.orders.orders) x (queues sd) ~ x :: queues sd :=
    enqueue_perm x (queues sd)
  have hheld := heldSlots_link pending hperm
  have htouched : ∀ s, s ∉ heldSlots queues (x :: pending) → r.2 s = book.orders.orders s := by
    intro s hs
    refine hr.frame s (fun hm => hs (mem_heldSlots.mpr ?_))
    rcases List.mem_append.mp hm with hm | hm
    · exact Or.inl ⟨sd, hm⟩
    · apply Or.inr
      simp [List.mem_singleton.mp hm]
  refine ⟨?_, hdata, rfl, rfl, rfl⟩
  refine ⟨⟨?_, ?_, ?_, ?_, ⟨free, ?_⟩, ?_, h.capacity_eq, h.lookup_ge⟩, ?_⟩
  · apply forall_update (R := fun sd' (side : BookSide) q =>
      SideInv book.symbolId book.config.priceLevelCount r.2 sd' side.levels q) hnew
    intro sd' hsd
    apply (h.side sd').frame
    intro s hs
    apply hr.frame
    simp only [List.mem_append, List.mem_singleton, not_or]
    exact ⟨h.disjoint_sides hsd hs, ne_of_mem_of_not_mem hs (hxq sd')⟩
  · rw [hprice]
    apply forall_update (R := fun _ (side : BookSide) (q : List Slot) =>
      side.best = q.head?.map (priceOf book.orders.orders)) ?_
      (fun sd' _ => h.best sd')
    simp only [head_enqueue, h.best sd]
    cases (queues sd).head? with
    | none => rfl
    | some y =>
      simp only [Option.map_some, hbetter]
      split_ifs <;> rfl
  · apply forall_update (R := fun _ (side : BookSide) (q : List Slot) => side.activeOrders = q.length) ?_
      (fun sd' _ => h.activeOrders sd')
    -- the order that comes to rest holds a slot of its own
    have hlen := h.queue_length_le sd
    have hcap := h.capacity_lt
    rw [List.length_cons] at hlen
    simp only [h.activeOrders sd, hperm.length_eq, List.length_cons]
    apply wrapAdd_small
    omega
  · intro s hs
    exact Placed.of_data (hdata s) (h.placed s (List.mem_cons_of_mem x hs))
  · apply (hpool.of_perm hheld.symm).write
    intro s hs
    rw [htouched s (fun hm => hpool.not_free hm hs)]
  · have he : lookupEntries r.2 (heldSlots (Function.update queues sd
        (enqueue sd.better (priceOf book.orders.orders) x (queues sd))) pending) ~
        lookupEntries book.orders.orders (heldSlots queues (x :: pending)) := by
      rw [lookupEntries_congr (fun s _ => data_orderId (hdata s))]
      exact hheld.map _
    exact h.lookup.of_perm he.symm
  · intro sd' s hs
    simp only [OrderBook.order]
    rw [data_remaining (hdata s)]
    by_cases hsd : sd' = sd
    · subst hsd
      rw [Function.update_self] at hs
      rcases List.mem_cons.mp (hperm.mem_iff.mp hs) with rfl | hs
      · exact hquantity
      · exact h.quantity sd' s hs
    · rw [Function.update_of_ne hsd] at hs
      exact h.quantity sd' s hs

end BookInv

end Sixchange
