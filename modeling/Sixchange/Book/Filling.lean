import Sixchange.Book.Removal
import Sixchange.Market.Sweep

namespace Sixchange

open LinkedQueue PriorityList OrderBook
open scoped List

theorem OrderBook.bucket_eq (book : OrderBook) :
    book.bucket = FixedOrderMap.mixBucket book.ordersById.mask := rfl

namespace BookCore

variable {book : OrderBook} {queues : Side → List Slot} {pending : List Slot} {a x : Slot} {xs : List Slot}
  {sd : Side} {e : ℕ}

theorem applyFill_data (book : OrderBook) (sd : Side) (e : ℕ) (hax : a ≠ x) (index s : ℕ) :
    (book.applyFill sd index a x e).order s =
      if s = a ∨ s = x then
        { book.order s with remainingQuantity := (book.order s).remainingQuantity - e }
      else book.order s := by
  simp only [applyFill, setOrders, order, setLevel]
  by_cases hsx : s = x
  · subst hsx
    rw [modify_self, modify_of_ne _ (Ne.symm hax)]
    simp
  · rw [modify_of_ne _ hsx]
    by_cases hsa : s = a
    · subst hsa
      rw [modify_self]
      simp
    · rw [modify_of_ne _ hsa]
      simp [hsa, hsx]

theorem applyFill (h : BookCore book queues pending) (ha : a ∈ pending) (hx : x ∈ queues sd)
    (he : e ≤ (book.order x).remainingQuantity) :
    BookCore (book.applyFill sd (book.order x).price a x e) queues pending := by
  obtain ⟨free, hpool⟩ := h.pool
  have hax : a ≠ x := fun heq => h.not_pending hx (heq ▸ ha)
  have haq : ∀ sd', a ∉ queues sd' := fun sd' hs => h.not_pending hs ha
  have hdata := applyFill_data book sd e hax (book.order x).price
  have hfields : ∀ s, ((book.applyFill sd (book.order x).price a x e).order s).price = (book.order s).price ∧
      ((book.applyFill sd (book.order x).price a x e).order s).orderId = (book.order s).orderId ∧
      ((book.applyFill sd (book.order x).price a x e).order s).next = (book.order s).next ∧
      (Placed book.symbolId book.config.priceLevelCount (book.order s) →
        Placed book.symbolId book.config.priceLevelCount
          ((book.applyFill sd (book.order x).price a x e).order s)) := by
    intro s
    rw [hdata]
    split_ifs
    · exact ⟨rfl, rfl, rfl, fun ⟨h₁, h₂, h₃⟩ => ⟨h₁, h₂, h₃⟩⟩
    · exact ⟨rfl, rfl, rfl, id⟩
  have hprice : priceOf (book.applyFill sd (book.order x).price a x e).orders.orders =
      priceOf book.orders.orders := funext (fun s => (hfields s).1)
  refine ⟨?_, ?_, ?_, ?_, ⟨free, ?_⟩, ?_, h.capacity_eq, h.lookup_ge⟩
  · intro sd'
    by_cases hsd : sd' = sd
    · subst hsd
      have hoff : ∀ s ∈ queues sd', modify book.orders.orders a
          (fun o => { o with remainingQuantity := o.remainingQuantity - e }) s = book.orders.orders s :=
        fun s hs => modify_of_ne _ (ne_of_mem_of_not_mem hs (haq sd'))
      have hfill := ((h.side sd').frame hoff).fill hx (e := e) (by rw [hoff x hx]; exact he)
      rw [hoff x hx] at hfill
      simpa only [OrderBook.applyFill, setOrders, setLevel, level, order, Function.update_self] using hfill
    · have hsides : (book.applyFill sd (book.order x).price a x e).sides sd' = book.sides sd' := by
        simp only [OrderBook.applyFill, setOrders, setLevel, Function.update_of_ne hsd]
      rw [hsides]
      apply (h.side sd').frame
      intro s hs
      have := hdata s
      rw [if_neg] at this
      · exact this
      · rintro (rfl | rfl)
        · exact haq sd' hs
        · exact h.disjoint_sides hsd hs hx
  · intro sd'
    rw [hprice, ← h.best sd']
    by_cases hsd : sd' = sd
    · subst hsd
      simp only [OrderBook.applyFill, setOrders, setLevel, Function.update_self]
    · simp only [OrderBook.applyFill, setOrders, setLevel, Function.update_of_ne hsd]
  · intro sd'
    rw [← h.activeOrders sd']
    by_cases hsd : sd' = sd
    · subst hsd
      simp only [OrderBook.applyFill, setOrders, setLevel, Function.update_self]
    · simp only [OrderBook.applyFill, setOrders, setLevel, Function.update_of_ne hsd]
  · exact fun s hs => (hfields s).2.2.2 (h.placed s hs)
  · apply hpool.write
    intro s _
    exact (hfields s).2.2.1
  · have hentries : lookupEntries (book.applyFill sd (book.order x).price a x e).orders.orders
        (heldSlots queues pending) = lookupEntries book.orders.orders (heldSlots queues pending) :=
      lookupEntries_congr (fun s _ => (hfields s).2.1)
    rw [hentries]
    exact h.lookup

theorem removeFilled {updateBest : OrderBook → ℕ → OrderBook} (hu : RestoresBest sd updateBest)
    (h : BookCore book queues pending) (hq : queues sd = x :: xs) :
    ∃ book', book.removeFilled sd updateBest (book.order x).price x = .ok book' ∧
      BookCore book' (Function.update queues sd xs) pending ∧
      (∀ s, s ≠ x → (book'.order s).data = (book.order s).data) ∧
      book'.symbolId = book.symbolId ∧ book'.config = book.config ∧
      book'.executionCount = book.executionCount := by
  obtain ⟨ordersById, herase, hcore, hdata⟩ := h.drop (show queues sd = [] ++ x :: xs from hq)
  rw [List.nil_append] at hcore hdata
  refine ⟨_, ?_, hcore, hdata, rfl, rfl, rfl⟩
  have hbest := h.best sd
  have hd := h.queue_nodup sd
  rw [hq] at hbest hd
  have hid := data_orderId ((h.leave_level (show queues sd = [] ++ x :: xs from hq)).2 x)
  have hstale : book.removeFilled sd updateBest (book.order x).price x =
      .ok (let stale := book.dropped sd x (book.sides sd).best ordersById
        if (stale.sides sd).best = some (book.order x).price ∧ (stale.level sd (book.order x).price).empty then
          updateBest stale (book.order x).price
        else stale) := by
    have hfront : ((book.dropped sd x (book.sides sd).best ordersById).sides sd).best =
        some (book.order x).price := by
      simp only [dropped, unlinked, Function.update_self, hbest]
      rfl
    dsimp only
    rw [hfront]
    simp only [unlinked, OrderBook.order, bucket_eq] at herase hid ⊢
    simp only [OrderBook.removeFilled, removeFromLevel, setLevel, setOrders, setActiveOrders, dropped, unlinked,
      level, OrderBook.order, bucket_eq, Function.update_self, Function.update_idem, hid, herase, ensure_ok,
      ok_bind, true_and]
    split_ifs <;> rfl
  rw [hstale]
  dsimp only
  rw [h.restore_best hu (show queues sd = [] ++ x :: xs from hq), List.nil_append]
  · simp only [setBest, dropped, unlinked, Function.update_self, Function.update_idem]
  · simp only [dropped, unlinked, Function.update_self]
  · simpa only [dropped, unlinked, Function.update_self, List.nil_append] using hcore.side sd
  · simpa only [dropped, unlinked, Function.update_self, List.nil_append] using hcore.activeOrders sd
  · exact fun s hs => data_price (hdata s (ne_of_mem_of_not_mem hs (List.nodup_cons.mp hd).1))

end BookCore

end Sixchange
