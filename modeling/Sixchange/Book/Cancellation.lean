import Sixchange.Book.Execution

namespace Sixchange

open LinkedQueue PriorityList OrderBook
open scoped List

def cancelledOf (symbolId : ℕ) (order : RestingOrder) : CancelledOrder where
  orderId := order.orderId
  clientOrderId := order.clientOrderId
  clientId := order.clientId
  symbolId := symbolId
  side := order.side
  price := order.price
  cancelledQuantity := order.remainingQuantity

namespace BookInv

variable {book : OrderBook} {queues : Side → List Slot} {pending : List Slot} {x : Slot}
  {command : CancelOrderCommand}

theorem find_iff (h : BookInv book queues pending) (orderId : ℕ) :
    book.ordersById.find book.bucket orderId = some x ↔
      x ∈ heldSlots queues pending ∧ (book.order x).orderId = orderId := by
  rw [h.lookup.find_iff, lookupEntries, List.mem_map]
  constructor
  · rintro ⟨s, hs, he⟩
    obtain ⟨rfl, rfl⟩ := Prod.mk.inj he
    exact ⟨hs, rfl⟩
  · rintro ⟨hx, rfl⟩
    exact ⟨x, hx, rfl⟩

theorem find_none (h : BookInv book queues pending) {orderId : ℕ}
    (hid : orderId ∉ book.heldIds (heldSlots queues pending)) :
    book.ordersById.find book.bucket orderId = none :=
  h.lookup.find_miss (by rwa [heldIds_eq])

theorem orderId_inj (h : BookInv book queues pending) {y : Slot} (hx : x ∈ heldSlots queues pending)
    (hy : y ∈ heldSlots queues pending) (he : (book.order x).orderId = (book.order y).orderId) : x = y := by
  have hfx := (h.find_iff _).mpr ⟨hx, he⟩
  have hfy := (h.find_iff _).mpr ⟨hy, rfl⟩
  exact Option.some.inj (hfx.symm.trans hfy)

theorem views_removed (h : BookInv book queues pending) {sd : Side} {as bs : List Slot}
    (hq : queues sd = as ++ x :: bs) (sd' : Side) :
    book.views (Function.update queues sd (as ++ bs) sd') =
      (book.views (queues sd')).filter (·.orderId ≠ (book.order x).orderId) := by
  have hx : x ∈ heldSlots queues pending := mem_heldSlots.mpr (Or.inl ⟨sd, by simp [hq]⟩)
  have hfilter : (queues sd').filter (fun s => (book.order s).view.orderId ≠ (book.order x).orderId) =
      Function.update queues sd (as ++ bs) sd' := by
    have hcongr : ∀ s ∈ queues sd', decide ((book.order s).view.orderId ≠ (book.order x).orderId) =
        decide (s ≠ x) := by
      intro s hs
      refine decide_eq_decide.mpr (not_congr ⟨fun he => ?_, fun he => by rw [he]; rfl⟩)
      exact h.orderId_inj (mem_heldSlots.mpr (Or.inl ⟨sd', hs⟩)) hx he
    rw [List.filter_congr hcongr]
    by_cases hsd : sd' = sd
    · subst hsd
      have hd := h.queue_nodup sd'
      rw [hq] at hd
      have hoff := (List.nodup_cons.mp (List.perm_middle.nodup_iff.mp hd)).1
      rw [List.mem_append, not_or] at hoff
      rw [Function.update_self, hq, List.filter_append, List.filter_cons_of_neg (by simp)]
      congr 1 <;> refine List.filter_eq_self.mpr (fun s hs => decide_eq_true ?_)
      · exact ne_of_mem_of_not_mem hs hoff.1
      · exact ne_of_mem_of_not_mem hs hoff.2
    · rw [Function.update_of_ne hsd]
      refine List.filter_eq_self.mpr (fun s hs => decide_eq_true ?_)
      rintro rfl
      apply h.disjoint_sides hsd hs
      simp [hq]
  rw [← hfilter]
  simp only [OrderBook.views, List.filter_map]
  rfl

theorem cancel_unknown (h : BookInv book queues pending) (hsymbol : command.symbolId = book.symbolId)
    (hid : command.orderId ∉ book.heldIds (heldSlots queues pending)) :
    book.cancel command = (book, .error .unknownOrder) := by
  rw [cancel, if_neg (by simp [hsymbol]), h.find_none hid]

theorem cancel_foreign (h : BookInv book queues pending) (hsymbol : command.symbolId = book.symbolId)
    (hx : x ∈ heldSlots queues pending) (hid : (book.order x).orderId = command.orderId)
    (howner : (book.order x).clientId ≠ command.clientId ∨
      (book.order x).clientOrderId ≠ command.clientOrderId) :
    book.cancel command = (book, .error .notOrderOwner) := by
  rw [cancel, if_neg (by simp [hsymbol]), (h.find_iff _).mpr ⟨hx, hid⟩]
  exact if_pos howner

theorem cancel_owned (h : BookInv book queues pending) {sd : Side} {as bs : List Slot}
    (hsymbol : command.symbolId = book.symbolId) (hq : queues sd = as ++ x :: bs)
    (hid : (book.order x).orderId = command.orderId)
    (hclient : (book.order x).clientId = command.clientId)
    (hclientOrder : (book.order x).clientOrderId = command.clientOrderId) :
    ∃ book', book.cancel command = (book', .ok (cancelledOf book.symbolId (book.order x).view)) ∧
      BookInv book' (Function.update queues sd (as ++ bs)) pending ∧
      (∀ s, s ≠ x → (book'.order s).data = (book.order s).data) ∧
      book'.symbolId = book.symbolId ∧ book'.config = book.config ∧
      book'.executionCount = book.executionCount := by
  have hxq : x ∈ queues sd := by simp [hq]
  have hx : x ∈ heldSlots queues pending := mem_heldSlots.mpr (Or.inl ⟨sd, hxq⟩)
  obtain ⟨ordersById, herase, hcore, hdata⟩ := h.drop hq
  obtain ⟨best, hbest⟩ : ∃ best, best = (as ++ bs).head?.map (priceOf book.orders.orders) := ⟨_, rfl⟩
  have hunlink : book.unlink x = book.unlinked sd x best := hbest ▸ h.toBookCore.unlink_eq hq
  have hxdata : ((book.unlinked sd x best).order x).data = (book.order x).data :=
    hbest ▸ (h.leave_level hq).2 x
  rw [← hbest] at hcore hdata
  have hview : ((book.unlinked sd x best).order x).view = (book.order x).view := by
    rw [← view_data, hxdata, view_data]
  refine ⟨_, ?_, h.of_data hcore (fun sd' s hs => ?_), hdata, rfl, rfl, rfl⟩
  · rw [cancel, if_neg (by simp [hsymbol]), (h.find_iff _).mpr ⟨hx, hid⟩]
    dsimp only
    rw [if_neg (by simp [hclient, hclientOrder]), hunlink]
    have herase' : (book.unlinked sd x best).ordersById.erase (book.unlinked sd x best).bucket
        command.orderId = (true, ordersById) := hid ▸ herase
    rw [herase']
    have hreport : cancelledOf ((book.unlinked sd x best).order x).symbolId
        ((book.unlinked sd x best).order x).view = cancelledOf book.symbolId (book.order x).view := by
      rw [hview, (Placed.of_data hxdata ((h.side sd).placed x hxq)).symbolId_eq]
    exact congrArg (fun c => (_, Except.ok c)) hreport
  · obtain ⟨hsq, hsx⟩ := h.mem_removed hq hs
    exact ⟨hsq, hdata s hsx⟩

theorem setActiveOrders_active (book : OrderBook) (sd : Side) (n : ℕ) :
    ((book.setActiveOrders sd n).sides sd).activeOrders = n := by
  simp only [setActiveOrders, Function.update_self]

theorem setBest_active (book : OrderBook) (sd : Side) (best : Option ℕ) :
    ((book.setBest sd best).sides sd).activeOrders = (book.sides sd).activeOrders := by
  simp only [setBest, Function.update_self]

theorem removeFromLevel_active (book : OrderBook) (sd : Side) (index : ℕ) (x : Slot) :
    ((book.removeFromLevel sd index x).sides sd).activeOrders = (book.sides sd).activeOrders := by
  simp only [removeFromLevel, setOrders, setLevel, Function.update_self]

theorem unlinkFrom_fields (book : OrderBook) {sd : Side} {updateBest : OrderBook → ℕ → OrderBook}
    (hu : ∀ book index, ∃ best, updateBest book index = book.setBest sd best) (x : Slot) :
    (book.unlinkFrom sd updateBest x).ordersById = book.ordersById ∧
      (book.unlinkFrom sd updateBest x).config = book.config ∧
      ((book.unlinkFrom sd updateBest x).sides sd).activeOrders = wrapSub (book.sides sd).activeOrders 1 := by
  unfold unlinkFrom
  dsimp only
  split_ifs
  · obtain ⟨best, hbest⟩ := hu ((book.removeFromLevel sd (book.order x).price x).setActiveOrders sd
      (wrapSub ((book.removeFromLevel sd (book.order x).price x).sides sd).activeOrders 1)) (book.order x).price
    rw [hbest, setBest_active, setActiveOrders_active, removeFromLevel_active]
    exact ⟨rfl, rfl, rfl⟩
  · rw [setActiveOrders_active, removeFromLevel_active]
    exact ⟨rfl, rfl, rfl⟩

theorem unlink_fields (book : OrderBook) (x : Slot) :
    (book.unlink x).ordersById = book.ordersById ∧ (book.unlink x).config = book.config ∧
      ((book.unlink x).sides (book.order x).side).activeOrders =
        wrapSub (book.sides (book.order x).side).activeOrders 1 := by
  rw [unlink]
  cases (book.order x).side with
  | buy =>
    apply unlinkFrom_fields
    intro book index
    rw [updateBestBidAfterRemoval]
    split_ifs
    exacts [⟨_, rfl⟩, ⟨_, rfl⟩]
  | sell =>
    apply unlinkFrom_fields
    intro book index
    rw [updateBestAskAfterRemoval]
    split_ifs
    exacts [⟨_, rfl⟩, ⟨_, rfl⟩]

/-- An order in no level is unlinked like any other, and its side loses count of an order. -/
theorem cancel_pending (h : BookInv book queues pending) (hsymbol : command.symbolId = book.symbolId)
    (hx : x ∈ pending) (hid : (book.order x).orderId = command.orderId)
    (hclient : (book.order x).clientId = command.clientId)
    (hclientOrder : (book.order x).clientOrderId = command.clientOrderId) :
    ∃ book' cancelled, book.cancel command = (book', .ok cancelled) ∧ book'.config = book.config ∧
      (book'.sides (book.order x).side).activeOrders =
        wrapSub (book.sides (book.order x).side).activeOrders 1 := by
  have hheld : x ∈ heldSlots queues pending := mem_heldSlots.mpr (Or.inr hx)
  obtain ⟨hlookup, hconfig, hactive⟩ := unlink_fields book x
  obtain ⟨ordersById, herase, -⟩ := h.lookup.erase_hit ((List.perm_cons_erase hheld).map _)
  have herase' : (book.unlink x).ordersById.erase (book.unlink x).bucket command.orderId = (true, ordersById) := by
    rw [← hid, bucket_eq, hlookup]
    exact herase
  rw [cancel, if_neg (by simp [hsymbol]), (h.find_iff _).mpr ⟨hheld, hid⟩]
  dsimp only
  rw [if_neg (by simp [hclient, hclientOrder]), herase']
  exact ⟨_, _, rfl, hconfig, hactive⟩

theorem cancel_erases (h : BookInv book queues []) (command : CancelOrderCommand) :
    (book.cancel command).2 ≠ .error .matchingEngineError := by
  by_cases hsymbol : command.symbolId = book.symbolId
  · by_cases hid : command.orderId ∈ book.heldIds (heldSlots queues [])
    · obtain ⟨x, hx, hid⟩ := List.mem_map.mp hid
      by_cases howner : (book.order x).clientId ≠ command.clientId ∨
          (book.order x).clientOrderId ≠ command.clientOrderId
      · rw [h.cancel_foreign hsymbol hx hid howner]
        simp
      · push Not at howner
        obtain ⟨sd, hq⟩ := (mem_heldSlots.mp hx).resolve_right List.not_mem_nil
        obtain ⟨as, bs, hq⟩ := List.append_of_mem hq
        obtain ⟨book', hcancel, -⟩ := h.cancel_owned hsymbol hq hid howner.1 howner.2
        rw [hcancel]
        simp
    · rw [h.cancel_unknown hsymbol hid]
      simp
  · rw [cancel, if_pos hsymbol]
    simp

end BookInv

end Sixchange
