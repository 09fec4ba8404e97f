import Sixchange.Book.Commands

namespace Sixchange

open LinkedQueue PriorityList OrderBook
open scoped List

namespace BookInv

variable {book : OrderBook} {queues : Side → List Slot} {pending : List Slot} {x : Slot}

theorem discard (h : BookInv book queues (x :: pending)) :
    ∃ ordersById, book.ordersById.erase book.bucket (book.order x).orderId = (true, ordersById) ∧
      BookInv { book with ordersById, orders := book.orders.release x } queues pending ∧
      ∀ s, s ≠ x → (book.orders.release x).orders s = book.order s := by
  obtain ⟨ordersById, herase, hcore, hkept⟩ := h.toBookCore.discard
  refine ⟨ordersById, herase, h.of_data hcore (fun sd s hs => ⟨hs, ?_⟩), hkept⟩
  apply congrArg Order.data
  apply hkept
  intro he
  exact h.not_pending hs (he ▸ List.mem_cons_self)

theorem rest (h : BookInv book queues (x :: pending)) (hquantity : 0 < (book.order x).remainingQuantity) :
    let sd := (book.order x).side
    ∃ book', book.rest x = .ok book' ∧
      BookInv book' (Function.update queues sd
        (enqueue sd.better (priceOf book.orders.orders) x (queues sd))) pending ∧
      (∀ s, (book'.order s).data = (book.order s).data) ∧
      book'.symbolId = book.symbolId ∧ book'.config = book.config ∧
      book'.executionCount = book.executionCount := by
  intro sd
  have hplaced := h.placed x (by simp)
  rw [OrderBook.rest, ensure_ok hquantity, ensure_ok hplaced.symbolId_eq, ok_bind, ok_bind]
  cases hsd : (book.order x).side with
  | buy =>
    obtain ⟨hinv, hdata⟩ := h.restOn (fun index best => best < index) hsd hquantity (by simp [Side.better])
    exact ⟨_, rfl, by simpa only [sd, hsd] using hinv, hdata⟩
  | sell =>
    obtain ⟨hinv, hdata⟩ := h.restOn (fun index best => index < best) hsd hquantity (by simp [Side.better])
    exact ⟨_, rfl, by simpa only [sd, hsd] using hinv, hdata⟩

theorem matchOrder (h : BookInv book queues (x :: pending)) :
    let o := book.order x
    let s := sweep (o.side.opposite.crosses o.price) o.remainingQuantity (book.views (queues o.side.opposite))
    ∃ book' q, book.matchOrder x = .ok (book', s.fills.map (executionOf o)) ∧
      Matched book book' queues (x :: pending) o.side.opposite x s q := by
  intro o
  rw [OrderBook.matchOrder]
  cases hsd : (book.order x).side with
  | buy =>
    simp only [o]
    exact h.matchLoop updateBestAskAfterRemoval_restores List.mem_cons_self le_rfl
  | sell =>
    simp only [o]
    exact h.matchLoop updateBestBidAfterRemoval_restores List.mem_cons_self le_rfl

theorem views_other {book book' : OrderBook} {sd sd' : Side} {q : List Slot} {s : Swept}
    (h : BookInv book queues (x :: pending)) (hm : Matched book book' queues (x :: pending) sd x s q)
    (hne : sd' ≠ sd) : book'.views (queues sd') = book.views (queues sd') :=
  views_congr (fun y hy => hm.frame y (fun he => h.not_pending hy (he ▸ List.mem_cons_self))
    (h.disjoint_sides hne hy))

theorem not_held_twice (h : BookInv book queues (x :: pending)) : x ∉ pending := fun hx =>
  (List.nodup_cons.mp (heldSlots_cons.nodup_iff.mp h.held_nodup)).1 (mem_heldSlots.mpr (Or.inr hx))

theorem view_aggressor {o o' : Order} {left : ℕ} (h : o'.data = { o.data with remainingQuantity := left }) :
    o'.view = { o.view with remainingQuantity := left } := by
  rw [← view_data, h]
  rfl

theorem execute (h : BookInv book queues (x :: pending)) :
    let o := book.order x
    let s := sweep (o.side.opposite.crosses o.price) o.remainingQuantity (book.views (queues o.side.opposite))
    ∃ book' queues', book.execute x = .ok (book', s.fills.map (executionOf o),
        { remainingQuantity := s.unfilled, rested := decide (0 < s.unfilled) }) ∧
      BookInv book' queues' pending ∧
      (fun sd => book'.views (queues' sd)) = settle (fun sd => book.views (queues sd)) o.view s ∧
      book'.symbolId = book.symbolId ∧ book'.config = book.config ∧
      book'.executionCount = s.fills.foldl (fun n _ => wrapAdd n 1) book.executionCount ∧
      ∀ y ∈ pending, (book'.order y).data = (book.order y).data := by
  intro o s
  obtain ⟨book₁, q, hmatch, hm⟩ := h.matchOrder
  change book.matchOrder x = .ok (book₁, s.fills.map (executionOf o)) at hmatch
  change Matched book book₁ queues (x :: pending) o.side.opposite x s q at hm
  have hactive := (h.placed x (by simp)).active
  have hview : (book₁.order x).view = { o.view with remainingQuantity := s.unfilled } :=
    view_aggressor hm.aggressor
  have hleft : (book₁.order x).remainingQuantity = s.unfilled := congrArg RestingOrder.remainingQuantity hview
  have hside : (book₁.order x).side = o.side := congrArg RestingOrder.side hview
  have hother := h.views_other hm (Side.opposite_ne o.side).symm
  have hwaiting : ∀ y ∈ pending, y ≠ x ∧ (book₁.order y).data = (book.order y).data := by
    intro y hy
    have hne : y ≠ x := ne_of_mem_of_not_mem hy h.not_held_twice
    exact ⟨hne, hm.frame y hne fun hq => h.not_pending hq (List.mem_cons_of_mem x hy)⟩
  rw [OrderBook.execute, ensure_ok hactive, ok_bind, hmatch, ok_bind]
  dsimp only
  rw [hleft]
  by_cases hrest : 0 < s.unfilled
  · obtain ⟨book₂, hrested, hinv, hdata, hsym, hcfg, hcount⟩ := hm.inv.rest (hleft ▸ hrest)
    rw [hside, Function.update_of_ne (Side.opposite_ne o.side).symm] at hinv
    rw [if_pos hrest, hrested, ok_bind, decide_eq_true hrest]
    refine ⟨book₂, _, rfl, hinv, ?_, hsym.trans hm.symbolId_eq, hcfg.trans hm.config_eq,
      hcount.trans hm.executionCount_eq, fun y hy => (hdata y).trans (hwaiting y hy).2⟩
    have hviews : ∀ l, book₂.views l = book₁.views l := fun l => views_congr (fun y _ => hdata y)
    have hmap : book₁.views (enqueue o.side.better (priceOf book₁.orders.orders) x (queues o.side)) =
        enqueue o.side.better RestingOrder.price (book₁.order x).view (book₁.views (queues o.side)) :=
      map_enqueue (show ∀ y, (book₁.order y).view.price = priceOf book₁.orders.orders y from fun y => rfl) x
        (queues o.side)
    apply eq_settle
    · change book₂.views (Function.update (Function.update queues o.side.opposite q) o.side _ o.side.opposite) = _
      rw [Function.update_of_ne (Side.opposite_ne o.side), Function.update_self, hviews, hm.resting]
    · rw [settle_side, if_pos hrest]
      change book₂.views (Function.update (Function.update queues o.side.opposite q) o.side _ o.side) = _
      rw [Function.update_self, hviews, hmap, hview, hother]
      rfl
  · obtain ⟨ordersById, herase, hinv, hkept⟩ := hm.inv.discard
    have hz : s.unfilled = 0 := by omega
    rw [if_neg hrest, herase, decide_eq_false hrest, hz]
    refine ⟨_, _, rfl, hinv, ?_, hm.symbolId_eq, hm.config_eq, hm.executionCount_eq, fun y hy => ?_⟩
    swap
    · exact (congrArg Order.data (hkept y (hwaiting y hy).1)).trans (hwaiting y hy).2
    have hviews : ∀ sd, OrderBook.views { book₁ with ordersById, orders := book₁.orders.release x }
        (Function.update queues o.side.opposite q sd) =
          book₁.views (Function.update queues o.side.opposite q sd) := by
      intro sd
      refine views_congr (fun y hy => congrArg Order.data (hkept y ?_))
      exact fun he => hm.inv.not_pending hy (he ▸ List.mem_cons_self)
    apply eq_settle
    · change OrderBook.views _ (Function.update queues o.side.opposite q o.side.opposite) = _
      rw [hviews, Function.update_self, hm.resting]
    · rw [settle_side, if_neg hrest]
      change OrderBook.views _ (Function.update queues o.side.opposite q o.side) = _
      rw [hviews, Function.update_of_ne (Side.opposite_ne o.side).symm, hother]
      rfl

end BookInv

end Sixchange
