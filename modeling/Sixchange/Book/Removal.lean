import Sixchange.Book.Resting

namespace Sixchange

open LinkedQueue PriorityList
open scoped List

section Best

variable {orders : Slot → Order} {sd : Side} {as bs : List Slot} {x : Slot}

theorem better_of_emptied (h : Prioritized sd.better (priceOf orders) (as ++ x :: bs))
    (hbest : (as ++ x :: bs).head?.map (priceOf orders) = some (orders x).price)
    (hempty : ∀ s ∈ as ++ bs, (orders s).price ≠ (orders x).price) :
    ∀ s ∈ as ++ bs, sd.better (orders x).price (priceOf orders s) := by
  cases as with
  | nil =>
    intro s hs
    have hb := (List.pairwise_cons.mp h).1 s hs
    apply (Side.not_better_iff.mp hb).resolve_left
    intro he
    exact hempty s hs he.symm
  | cons a as =>
    simp only [List.cons_append, List.head?_cons, Option.map_some, Option.some.injEq] at hbest
    exact absurd hbest (hempty a (by simp))

theorem best_kept (h : Prioritized sd.better (priceOf orders) (as ++ x :: bs))
    (hkept : (as ++ x :: bs).head?.map (priceOf orders) ≠ some (orders x).price ∨
      ∃ s ∈ as ++ bs, (orders s).price = (orders x).price) :
    (as ++ x :: bs).head?.map (priceOf orders) = (as ++ bs).head?.map (priceOf orders) := by
  cases as with
  | cons a as => rfl
  | nil =>
    obtain ⟨s, hs, he⟩ := hkept.resolve_left (by simp)
    cases bs with
    | nil => simp at hs
    | cons b bs =>
      obtain ⟨hx, hb⟩ := List.pairwise_cons.mp h
      simp only [List.nil_append, List.head?_cons, Option.map_some, Option.some.injEq]
      have hxb := hx b (by simp)
      rcases List.mem_cons.mp hs with rfl | hs
      · exact he.symm
      · have hbs := (List.pairwise_cons.mp hb).1 s hs
        simp only [priceOf, he] at hxb hbs ⊢
        rcases Side.not_better_iff.mp hxb with h' | h'
        · exact h'
        · exact absurd h' hbs

end Best

namespace OrderBook

def unlinked (book : OrderBook) (sd : Side) (x : Slot) (best : Option ℕ) : OrderBook :=
  let r := ((book.sides sd).levels (book.orders.orders x).price).remove book.orders.orders x
  { book with
    orders := { book.orders with orders := r.2 }
    sides := Function.update book.sides sd
      { levels := Function.update (book.sides sd).levels (book.orders.orders x).price r.1
        best
        activeOrders := wrapSub (book.sides sd).activeOrders 1 } }

def dropped (book : OrderBook) (sd : Side) (x : Slot) (best : Option ℕ)
    (ordersById : FixedOrderMap ℕ Slot) : OrderBook :=
  { book.unlinked sd x best with
    orders := (book.unlinked sd x best).orders.release x
    ordersById }

theorem setBest_eq (book : OrderBook) (sd : Side) : book.setBest sd (book.sides sd).best = book := by
  simp [setBest]

theorem restoreBest_eq {sd : Side} {updateBest : OrderBook → ℕ → OrderBook} (hu : RestoresBest sd updateBest)
    {book : OrderBook} {rest : List Slot} {index : ℕ}
    (hside : SideInv book.symbolId book.config.priceLevelCount book.orders.orders sd
      (book.sides sd).levels rest)
    (hactive : (book.sides sd).activeOrders = rest.length)
    (hlost : (book.sides sd).best = some index → (∀ s ∈ rest, (book.orders.orders s).price ≠ index) →
      ∀ s ∈ rest, sd.better index (priceOf book.orders.orders s))
    (hkept : (book.sides sd).best ≠ some index ∨ (∃ s ∈ rest, (book.orders.orders s).price = index) →
      (book.sides sd).best = rest.head?.map (priceOf book.orders.orders)) :
    (if (book.sides sd).best = some index ∧ (book.level sd index).empty = true then updateBest book index
      else book) = book.setBest sd (rest.head?.map (priceOf book.orders.orders)) := by
  split_ifs with hc
  · obtain ⟨hb, he⟩ := hc
    exact hu book rest index hside hactive (hlost hb ((hside.level_empty index).mp he))
  · rw [← hkept ?_, setBest_eq]
    by_cases hb : (book.sides sd).best = some index
    · apply Or.inr
      by_contra hne
      push Not at hne
      exact hc ⟨hb, (hside.level_empty index).mpr hne⟩
    · exact Or.inl hb

end OrderBook

namespace BookCore

open OrderBook

variable {book : OrderBook} {queues : Side → List Slot} {pending as bs : List Slot} {x : Slot} {sd : Side}

theorem leave_level (h : BookCore book queues pending) (hq : queues sd = as ++ x :: bs) :
    let book' := book.unlinked sd x ((as ++ bs).head?.map (priceOf book.orders.orders))
    BookCore book' (Function.update queues sd (as ++ bs)) (x :: pending) ∧
      ∀ s, (book'.order s).data = (book.order s).data := by
  intro book'
  obtain ⟨free, hpool⟩ := h.pool
  have hheld := heldSlots_unlink pending hq
  have hside := h.side sd
  have hxplaced : Placed book.symbolId book.config.priceLevelCount (book.order x) :=
    hside.placed x (by simp [hq])
  have hlen := h.queue_length_lt sd
  rw [hq] at hside hlen
  obtain ⟨hnew, hr⟩ := hside.remove
  simp only [book', OrderBook.unlinked, OrderBook.order] at hnew hr ⊢
  generalize ((book.sides sd).levels (book.orders.orders x).price).remove book.orders.orders x = r
    at hnew hr ⊢
  have hprice : priceOf r.2 = priceOf book.orders.orders := funext (fun s => data_price (hr.data s))
  have hframe : ∀ s, s ∉ queues sd → r.2 s = book.orders.orders s := hq ▸ hr.frame
  refine ⟨⟨?_, ?_, ?_, ?_, ⟨free, ?_⟩, ?_, h.capacity_eq, h.lookup_ge⟩, hr.data⟩
  · apply forall_update (R := fun sd' (side : BookSide) q =>
      SideInv book.symbolId book.config.priceLevelCount r.2 sd' side.levels q) hnew
    intro sd' hsd
    apply (h.side sd').frame
    intro s hs
    exact hframe s (h.disjoint_sides hsd hs)
  · rw [hprice]
    apply forall_update (R := fun _ (side : BookSide) (q : List Slot) =>
      side.best = q.head?.map (priceOf book.orders.orders)) rfl
    exact fun sd' _ => h.best sd'
  · apply forall_update (R := fun _ (side : BookSide) (q : List Slot) => side.activeOrders = q.length) ?_
      (fun sd' _ => h.activeOrders sd')
    simp only [List.length_append, List.length_cons] at hlen
    simp only [h.activeOrders sd, hq, List.length_append, List.length_cons]
    rw [wrapSub_small (by omega) hlen]
    omega
  · intro s hs
    apply Placed.of_data (hr.data s)
    rcases List.mem_cons.mp hs with rfl | hs
    · exact hxplaced
    · exact h.placed s hs
  · apply (hpool.of_perm hheld).write
    intro s hs
    apply congrArg Order.next
    apply hframe
    intro hm
    exact hpool.not_free (mem_heldSlots.mpr (Or.inl ⟨sd, hm⟩)) hs
  · apply h.lookup.of_perm
    rw [lookupEntries_congr (fun s _ => data_orderId (hr.data s))]
    exact hheld.map _

theorem drop (h : BookCore book queues pending) (hq : queues sd = as ++ x :: bs) :
    ∃ ordersById, book.ordersById.erase book.bucket (book.order x).orderId = (true, ordersById) ∧
      BookCore (book.dropped sd x ((as ++ bs).head?.map (priceOf book.orders.orders)) ordersById)
        (Function.update queues sd (as ++ bs)) pending ∧
      ∀ s, s ≠ x → ((book.dropped sd x ((as ++ bs).head?.map (priceOf book.orders.orders)) ordersById).order s).data =
        (book.order s).data := by
  obtain ⟨hcore, hdata⟩ := h.leave_level hq
  obtain ⟨ordersById, herase, hcore', hkept⟩ := hcore.discard
  rw [data_orderId (hdata x)] at herase
  refine ⟨ordersById, herase, hcore', fun s hs => ?_⟩
  exact (congrArg Order.data (hkept s hs)).trans (hdata s)

theorem restore_best {updateBest : OrderBook → ℕ → OrderBook} (hu : RestoresBest sd updateBest)
    (h : BookCore book queues pending) (hq : queues sd = as ++ x :: bs) {stale : OrderBook}
    (hbest : (stale.sides sd).best = (book.sides sd).best)
    (hside : SideInv stale.symbolId stale.config.priceLevelCount stale.orders.orders sd
      (stale.sides sd).levels (as ++ bs))
    (hactive : (stale.sides sd).activeOrders = (as ++ bs).length)
    (hprice : ∀ s ∈ as ++ bs, (stale.order s).price = (book.order s).price) :
    (if (stale.sides sd).best = some (book.order x).price ∧ (stale.level sd (book.order x).price).empty = true then
        updateBest stale (book.order x).price
      else stale) = stale.setBest sd ((as ++ bs).head?.map (priceOf book.orders.orders)) := by
  have hsorted := (h.side sd).prioritized
  have hfirst := hbest.trans (h.best sd)
  rw [hq] at hsorted hfirst
  have hhead : (as ++ bs).head?.map (priceOf stale.orders.orders) =
      (as ++ bs).head?.map (priceOf book.orders.orders) := head_price_congr hprice
  rw [← hhead]
  apply restoreBest_eq hu hside hactive
  · intro hb hempty s hs
    rw [priceOf, show (stale.orders.orders s).price = _ from hprice s hs]
    apply better_of_emptied hsorted (hfirst.symm.trans hb) (fun s hs hp => ?_) s hs
    exact hempty s hs ((hprice s hs).trans hp)
  · intro hk
    rw [hfirst, hhead]
    apply best_kept hsorted
    rcases hk with hne | ⟨s, hs, hp⟩
    · exact Or.inl (fun hb => hne (hfirst.trans hb))
    · exact Or.inr ⟨s, hs, (hprice s hs).symm.trans hp⟩

theorem unlinkFrom_eq {updateBest : OrderBook → ℕ → OrderBook} (hu : RestoresBest sd updateBest)
    (h : BookCore book queues pending) (hq : queues sd = as ++ x :: bs) :
    book.unlinkFrom sd updateBest x =
      book.unlinked sd x ((as ++ bs).head?.map (priceOf book.orders.orders)) := by
  obtain ⟨hcore, hdata⟩ := h.leave_level hq
  have hstale : book.unlinkFrom sd updateBest x =
      let stale := book.unlinked sd x (book.sides sd).best
      if (stale.sides sd).best = some (book.order x).price ∧
        (stale.level sd (book.order x).price).empty then updateBest stale (book.order x).price
      else stale := by
    simp only [OrderBook.unlinkFrom, removeFromLevel, setLevel, setOrders, setActiveOrders, unlinked, level,
      order, Function.update_self, Function.update_idem]
  rw [hstale]
  dsimp only
  rw [h.restore_best hu hq]
  · simp only [unlinked, setBest, Function.update_self, Function.update_idem]
  · simp only [unlinked, Function.update_self]
  · simpa only [unlinked, Function.update_self] using hcore.side sd
  · simpa only [unlinked, Function.update_self] using hcore.activeOrders sd
  · exact fun s _ => data_price (hdata s)

theorem unlink_eq (h : BookCore book queues pending) (hq : queues sd = as ++ x :: bs) :
    book.unlink x = book.unlinked sd x ((as ++ bs).head?.map (priceOf book.orders.orders)) := by
  have hside : (book.order x).side = sd := (h.side sd).side_eq x (by simp [hq])
  rw [unlink, hside]
  cases sd with
  | buy => exact h.unlinkFrom_eq updateBestBidAfterRemoval_restores hq
  | sell => exact h.unlinkFrom_eq updateBestAskAfterRemoval_restores hq

end BookCore

end Sixchange
