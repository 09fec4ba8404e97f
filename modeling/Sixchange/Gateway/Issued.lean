import Sixchange.Gateway.Consistency
import Sixchange.Market.Renumbering
import Mathlib.Data.Finset.Card

namespace Sixchange

open Market

structure Issued (config : OrderBookConfig) (desk : Desk) (messages : List OutboundMessage) : Prop where
  sound : desk.market.Sound config
  room : desk.market.ids.length ≤ config.maxActiveOrders
  recorded : ∀ c id, desk.clientOrders c = some id ↔ OrderAccepted.message c id ∈ messages
  arrived : ∀ c id, desk.clientOrders c = some id → id < word ∧ arrival id ≤ desk.market.accepted
  injective : ∀ c c' id, desk.clientOrders c = some id → desk.clientOrders c' = some id → c = c'
  owned : ∀ sd, ∀ r ∈ desk.market.book sd, r.clientId = 1 ∧ desk.clientOrders r.clientOrderId = some r.orderId
  counted : ∃ used ⊆ Finset.range word, used.card = desk.market.accepted ∧
    ∀ c, desk.clientOrders c = none ↔ c ∉ used
  gone : ∀ c id, OrderCancelled.message c id ∈ messages → desk.clientOrders c = some id ∧ id ∉ desk.market.ids

theorem Issued.empty (config : OrderBookConfig) : Issued config .empty [] := by
  refine ⟨.empty, Nat.zero_le _, ?_, ?_, ?_, ?_, ?_, ?_⟩
  · exact fun c id => iff_of_false (fun h => nomatch h) List.not_mem_nil
  · intro c id h
    cases h
  · intro c c' id h
    cases h
  · intro sd r hr
    cases hr
  · exact ⟨∅, Finset.empty_subset _, rfl, fun c => iff_of_true rfl (Finset.notMem_empty c)⟩
  · intro c id h
    cases h

namespace Issued

variable {config : OrderBookConfig} {desk : Desk} {messages : List OutboundMessage}

theorem market_arrived (h : Issued config desk messages) : desk.market.Arrived := fun sd r hr =>
  h.arrived _ _ (h.owned sd r hr).2

theorem accepted_lt (h : Issued config desk messages) {c : ℕ} (hnew : desk.clientOrders c = none) (hc : c < word) :
    desk.market.accepted < word := by
  obtain ⟨used, hsub, hcard, hused⟩ := h.counted
  have hss : used ⊂ Finset.range word := by
    refine Finset.ssubset_iff_subset_ne.mpr ⟨hsub, ?_⟩
    rintro rfl
    exact (hused c).mp hnew (Finset.mem_range.mpr hc)
  rw [← hcard]
  exact (Finset.card_lt_card hss).trans_eq (Finset.card_range word)

theorem gone_append (h : Issued config desk messages) {message : OutboundMessage}
    (hm : ∀ c id, OrderCancelled.message c id ≠ message) (c id : ℕ)
    (hmem : OrderCancelled.message c id ∈ messages ++ [message]) :
    desk.clientOrders c = some id ∧ id ∉ desk.market.ids := by
  rcases List.mem_append.mp hmem with hold | hnew
  · exact h.gone c id hold
  · exact absurd (List.mem_singleton.mp hnew) (hm c id)

theorem reject (h : Issued config desk messages) (clientOrderId : ℕ) (reason : RejectReason) (nextSequence : ℕ) :
    Issued config { desk with nextSequence } (messages ++ [OrderRejected.message clientOrderId reason]) := by
  refine ⟨h.sound, h.room, recorded_append h.recorded ?_, h.arrived, h.injective, h.owned, h.counted,
    h.gone_append ?_⟩ <;> intro c id he <;> cases he

theorem withdraw (h : Issued config desk messages) {orderId clientOrderId : ℕ}
    (horder : desk.clientOrders clientOrderId = some orderId) (nextSequence : ℕ) :
    Issued config { desk with market := desk.market.remove orderId, nextSequence }
      (messages ++ [OrderCancelled.message clientOrderId orderId]) := by
  refine ⟨h.sound.remove orderId, (remove_ids _ _).length_le.trans h.room, recorded_append h.recorded ?_, h.arrived,
    h.injective, ?_, h.counted, ?_⟩
  · intro c id he
    cases he
  · intro sd r hr
    exact h.owned sd r (List.mem_of_mem_filter hr)
  · intro c id hmem
    rcases List.mem_append.mp hmem with hold | hnew
    · obtain ⟨hc, hid⟩ := h.gone c id hold
      exact ⟨hc, fun hm => hid ((remove_ids _ _).subset hm)⟩
    · obtain ⟨rfl, rfl⟩ := OrderCancelled.mk.inj (OutboundMessage.orderCancelled.inj (List.mem_singleton.mp hnew))
      exact ⟨horder, not_mem_remove_ids _ _⟩

theorem nextId_ne (h : Issued config desk messages) (hlt : desk.market.accepted < word) (c : ℕ) :
    desk.clientOrders c ≠ some desk.market.nextId := by
  intro hc
  have hle := (h.arrived c _ hc).2
  rw [nextId, arrival_next hlt] at hle
  omega

theorem counted_accept (h : Issued config desk messages) {c : ℕ} (hnew : desk.clientOrders c = none) (hc : c < word)
    {id : ℕ} : ∃ used ⊆ Finset.range word, used.card = desk.market.accepted + 1 ∧
      ∀ c', Function.update desk.clientOrders c (some id) c' = none ↔ c' ∉ used := by
  obtain ⟨used, hsub, hcard, hused⟩ := h.counted
  refine ⟨insert c used, Finset.insert_subset (Finset.mem_range.mpr hc) hsub, ?_, fun c' => ?_⟩
  · rw [Finset.card_insert_of_notMem ((hused c).mp hnew), hcard]
  · rw [Finset.mem_insert, not_or]
    by_cases he : c' = c
    · rw [he, Function.update_self]
      exact iff_of_false (fun hnone => nomatch hnone) (fun hne => hne.1 rfl)
    · rw [Function.update_of_ne he, hused]
      exact (and_iff_right he).symm

theorem gone_accept (h : Issued config desk messages) (command : NewOrderCommand)
    (hnew : desk.clientOrders command.clientOrderId = none) (hlt : desk.market.accepted < word) (c id : ℕ)
    (hmem : OrderCancelled.message c id ∈
      messages ++ [OrderAccepted.message command.clientOrderId desk.market.nextId]) :
    Function.update desk.clientOrders command.clientOrderId (some desk.market.nextId) c = some id ∧
      id ∉ (desk.market.accept command).ids := by
  have hother : ∀ c id, OrderCancelled.message c id ≠
      OrderAccepted.message command.clientOrderId desk.market.nextId := by
    intro c id he
    cases he
  obtain ⟨hc, hid⟩ := h.gone_append hother c id hmem
  have hne : c ≠ command.clientOrderId := by
    rintro rfl
    rw [hnew] at hc
    cases hc
  rw [Function.update_of_ne hne]
  refine ⟨hc, fun hm => ?_⟩
  rcases mem_accept_ids hm with rfl | hm
  · exact h.nextId_ne hlt c hc
  · exact hid hm

theorem accept (h : Issued config desk messages) {request : NewOrderRequest}
    (hnew : desk.clientOrders request.clientOrderId = none) (hvalid : request.clientOrderId < word)
    (hrefusal : desk.market.refusal 0 config (desk.newOrderCommand request) = none) (nextSequence : ℕ) :
    Issued config {
      market := desk.market.accept (desk.newOrderCommand request)
      clientOrders := Function.update desk.clientOrders request.clientOrderId (some desk.market.nextId)
      nextSequence } (messages ++ [OrderAccepted.message request.clientOrderId desk.market.nextId]) := by
  have hlt := h.accepted_lt hnew hvalid
  have hchecks := admitError_none.mp (refusal_none.mp hrefusal).2.2
  refine ⟨h.sound.accept hchecks.2.2.1, ?_, recorded_accept h.recorded hnew _, ?_, ?_, owned_accept rfl hnew h.owned,
    ?_, ?_⟩
  · have hlen := accept_ids_length desk.market (desk.newOrderCommand request)
    have hroom := h.room
    have hfree := hchecks.2.2.2.1
    dsimp only
    omega
  · intro c id hc
    change id < word ∧ arrival id ≤ desk.market.accepted + 1
    dsimp only at hc
    by_cases he : c = request.clientOrderId
    · rw [he, Function.update_self] at hc
      obtain rfl := Option.some.inj hc
      exact ⟨Nat.mod_lt _ (by decide), (arrival_next hlt).le⟩
    · rw [Function.update_of_ne he] at hc
      obtain ⟨hword, hle⟩ := h.arrived c id hc
      exact ⟨hword, hle.trans (Nat.le_succ _)⟩
  · intro c c' id
    exact injective_accept h.injective (h.nextId_ne hlt) _
  · exact h.counted_accept hnew hvalid
  · exact h.gone_accept (desk.newOrderCommand request) hnew hlt

theorem handle (h : Issued config desk messages) {request : InboundMessage} (hvalid : request.clientOrderId < word) :
    Issued config (desk.handle config request).1 (messages ++ (desk.handle config request).2.messages) := by
  have hcases := Desk.handle_cases config desk request
  generalize desk.handle config request = outcome at hcases ⊢
  cases hcases with
  | turnedAway => exact h.reject _ _ desk.nextSequence
  | refused => exact h.reject _ _ _
  | accepted hnew _ hrefusal => exact h.accept hnew hvalid hrefusal _
  | unknown => exact h.reject _ _ _
  | foreign => exact h.reject _ _ _
  | withdrawn _ horder => exact h.withdraw horder _

end Issued

end Sixchange
