import Sixchange.Gateway.Desk

namespace Sixchange

open Market

structure Consistent (config : OrderBookConfig) (desk : Desk) (messages : List OutboundMessage) : Prop where
  sound : desk.market.Sound config
  numbered : desk.market.Numbered
  recorded : ∀ c id, desk.clientOrders c = some id ↔ OrderAccepted.message c id ∈ messages
  range : ∀ c id, desk.clientOrders c = some id → id ≤ desk.market.accepted
  injective : ∀ c c' id, desk.clientOrders c = some id → desk.clientOrders c' = some id → c = c'
  owned : ∀ sd, ∀ r ∈ desk.market.book sd, r.clientId = 1 ∧ desk.clientOrders r.clientOrderId = some r.orderId
  reasons : ∀ rejected, .orderRejected rejected ∈ messages →
    rejected.reason ≠ .notOrderOwner ∧ rejected.reason ≠ .matchingEngineError

theorem Consistent.empty (config : OrderBookConfig) : Consistent config .empty [] := by
  refine ⟨.empty, .empty, ?_, ?_, ?_, ?_, ?_⟩
  · intro c id
    exact iff_of_false (fun h => nomatch h) List.not_mem_nil
  · intro c id h
    cases h
  · intro c c' id h
    cases h
  · intro sd r hr
    cases hr
  · intro rejected h
    cases h

theorem refusal_reason {config : OrderBookConfig} {market : Market} {command : NewOrderCommand} {reason : RejectReason}
    (hfresh : market.nextId ∉ market.ids) (h : market.refusal 0 config command = some reason) :
    reason ≠ .notOrderOwner ∧ reason ≠ .matchingEngineError := by
  unfold refusal admitError at h
  rw [if_neg hfresh] at h
  split_ifs at h <;> obtain rfl := Option.some.inj h <;> decide

theorem command_reason {desk : Desk} {request : InboundMessage} {reason : RejectReason}
    (h : desk.command request = .error reason) : reason ≠ .notOrderOwner ∧ reason ≠ .matchingEngineError := by
  unfold Desk.command at h
  cases request with
  | newOrder request =>
    dsimp only at h
    split_ifs at h <;> obtain rfl := Except.error.inj h <;> decide
  | cancelOrder request =>
    dsimp only at h
    split_ifs at h
    · obtain rfl := Except.error.inj h
      decide
    · split at h
      · obtain rfl := Except.error.inj h
        decide
      · cases h

section Record

variable {clientOrders : ℕ → Option ℕ} {messages : List OutboundMessage}

theorem recorded_append (h : ∀ c id, clientOrders c = some id ↔ OrderAccepted.message c id ∈ messages)
    {message : OutboundMessage} (hm : ∀ c id, OrderAccepted.message c id ≠ message) (c id : ℕ) :
    clientOrders c = some id ↔ OrderAccepted.message c id ∈ messages ++ [message] := by
  rw [h, List.mem_append, List.mem_singleton]
  constructor
  · exact Or.inl
  · exact fun hmem => hmem.resolve_right (hm c id)

theorem recorded_accept (h : ∀ c id, clientOrders c = some id ↔ OrderAccepted.message c id ∈ messages)
    {clientOrderId : ℕ} (hnew : clientOrders clientOrderId = none) (orderId c id : ℕ) :
    Function.update clientOrders clientOrderId (some orderId) c = some id ↔
      OrderAccepted.message c id ∈ messages ++ [OrderAccepted.message clientOrderId orderId] := by
  rw [List.mem_append, List.mem_singleton, ← h]
  by_cases hc : c = clientOrderId
  · subst hc
    rw [Function.update_self, hnew]
    constructor
    · rintro ⟨⟩
      exact .inr rfl
    · rintro (he | he)
      · cases he
      · obtain ⟨-, rfl⟩ := OrderAccepted.mk.inj (OutboundMessage.orderAccepted.inj he)
        rfl
  · rw [Function.update_of_ne hc]
    constructor
    · exact Or.inl
    · rintro (hm | he)
      · exact hm
      · exact absurd (OrderAccepted.mk.inj (OutboundMessage.orderAccepted.inj he)).1 hc

theorem injective_accept (h : ∀ c c' id, clientOrders c = some id → clientOrders c' = some id → c = c')
    {orderId : ℕ} (hfresh : ∀ c, clientOrders c ≠ some orderId) (clientOrderId : ℕ) {c c' id : ℕ}
    (hc : Function.update clientOrders clientOrderId (some orderId) c = some id)
    (hc' : Function.update clientOrders clientOrderId (some orderId) c' = some id) : c = c' := by
  by_cases he : c = clientOrderId <;> by_cases he' : c' = clientOrderId
  · rw [he, he']
  · rw [he, Function.update_self] at hc
    rw [Function.update_of_ne he', ← hc] at hc'
    exact absurd hc' (hfresh _)
  · rw [he', Function.update_self] at hc'
    rw [Function.update_of_ne he, ← hc'] at hc
    exact absurd hc (hfresh _)
  · rw [Function.update_of_ne he] at hc
    rw [Function.update_of_ne he'] at hc'
    exact h c c' id hc hc'

theorem owned_accept {market : Market} {command : NewOrderCommand} (hclient : command.clientId = 1)
    (hnew : clientOrders command.clientOrderId = none)
    (h : ∀ sd, ∀ r ∈ market.book sd, r.clientId = 1 ∧ clientOrders r.clientOrderId = some r.orderId) :
    ∀ sd, ∀ r ∈ (market.accept command).book sd, r.clientId = 1 ∧
      Function.update clientOrders command.clientOrderId (some market.nextId) r.clientOrderId = some r.orderId := by
  have hkept : ∀ {r : RestingOrder}, r.clientId = 1 ∧ clientOrders r.clientOrderId = some r.orderId →
      r.clientId = 1 ∧
        Function.update clientOrders command.clientOrderId (some market.nextId) r.clientOrderId = some r.orderId := by
    rintro r ⟨howner, horder⟩
    rw [Function.update_of_ne]
    · exact ⟨howner, horder⟩
    · intro he
      rw [he, hnew] at horder
      cases horder
  intro sd r hr
  rcases Side.eq_or_opposite command.side sd with rfl | rfl
  · rcases mem_accept_side hr with hr | ⟨-, rfl⟩
    · exact hkept (h _ r hr)
    · exact ⟨hclient, Function.update_self ..⟩
  · rw [accept_opposite] at hr
    obtain ⟨r', hr', he⟩ := mem_swept hr
    have howned := h _ r' hr'
    rw [terms_clientId he, terms_clientOrderId he, terms_orderId he] at howned
    exact hkept howned

end Record

namespace Consistent

variable {config : OrderBookConfig} {desk : Desk} {messages : List OutboundMessage}

theorem reasons_append (h : Consistent config desk messages) {message : OutboundMessage}
    (hm : ∀ rejected, .orderRejected rejected = message →
      rejected.reason ≠ .notOrderOwner ∧ rejected.reason ≠ .matchingEngineError) :
    ∀ rejected, .orderRejected rejected ∈ messages ++ [message] →
      rejected.reason ≠ .notOrderOwner ∧ rejected.reason ≠ .matchingEngineError := by
  intro rejected hmem
  rcases List.mem_append.mp hmem with hold | hnew
  · exact h.reasons rejected hold
  · exact hm rejected (List.mem_singleton.mp hnew)

theorem reject (h : Consistent config desk messages) {clientOrderId : ℕ} {reason : RejectReason}
    (hreason : reason ≠ .notOrderOwner ∧ reason ≠ .matchingEngineError) (nextSequence : ℕ) :
    Consistent config { desk with nextSequence } (messages ++ [OrderRejected.message clientOrderId reason]) := by
  refine ⟨h.sound, h.numbered, recorded_append h.recorded ?_, h.range, h.injective, h.owned, h.reasons_append ?_⟩
  · intro c id he
    cases he
  · intro rejected he
    obtain rfl := OutboundMessage.orderRejected.inj he
    exact hreason

theorem lookup_owned (h : Consistent config desk messages) {orderId : ℕ} {order : RestingOrder}
    (hlookup : desk.market.lookup orderId = some order) :
    order.clientId = 1 ∧ desk.clientOrders order.clientOrderId = some orderId := by
  have hm := List.mem_of_find?_eq_some hlookup
  rw [← Desk.lookup_orderId hlookup]
  rcases List.mem_append.mp hm with hm | hm
  · exact h.owned _ order hm
  · exact h.owned _ order hm

theorem accept (h : Consistent config desk messages) {request : NewOrderRequest}
    (hnew : desk.clientOrders request.clientOrderId = none)
    (hrefusal : desk.market.refusal 0 config (desk.newOrderCommand request) = none)
    (hlt : desk.market.accepted + 1 < word) (nextSequence : ℕ) :
    Consistent config {
      market := desk.market.accept (desk.newOrderCommand request)
      clientOrders := Function.update desk.clientOrders request.clientOrderId (some desk.market.nextId)
      nextSequence } (messages ++ [OrderAccepted.message request.clientOrderId desk.market.nextId]) := by
  have hnext := nextId_small hlt
  have hprice := (admitError_none.mp (refusal_none.mp hrefusal).2.2).2.2.1
  refine ⟨h.sound.accept hprice, h.numbered.accept h.sound hlt, recorded_accept h.recorded hnew _, ?_, ?_,
    owned_accept rfl hnew h.owned, h.reasons_append (fun rejected he => nomatch he)⟩
  · intro c id hc
    change id ≤ desk.market.accepted + 1
    dsimp only at hc
    by_cases he : c = request.clientOrderId
    · rw [he, Function.update_self] at hc
      have := Option.some.inj hc
      omega
    · rw [Function.update_of_ne he] at hc
      exact (h.range c id hc).trans (Nat.le_succ _)
  · intro c c' id
    apply injective_accept h.injective
    intro c hc
    have := h.range c _ hc
    omega

theorem withdraw (h : Consistent config desk messages) (orderId clientOrderId nextSequence : ℕ) :
    Consistent config { desk with market := desk.market.remove orderId, nextSequence }
      (messages ++ [OrderCancelled.message clientOrderId orderId]) := by
  refine ⟨h.sound.remove orderId, h.numbered.remove orderId, recorded_append h.recorded ?_, h.range, h.injective, ?_,
    h.reasons_append ?_⟩
  · intro c id he
    cases he
  · intro sd r hr
    exact h.owned sd r (List.mem_of_mem_filter hr)
  · intro rejected he
    cases he

theorem handle (h : Consistent config desk messages) (request : InboundMessage)
    (hlt : (desk.handle config request).1.market.accepted < word) :
    Consistent config (desk.handle config request).1 (messages ++ (desk.handle config request).2.messages) := by
  have hcases := Desk.handle_cases config desk request
  generalize desk.handle config request = outcome at hcases hlt ⊢
  cases hcases with
  | turnedAway hcommand => exact h.reject (command_reason hcommand) desk.nextSequence
  | refused _ _ hrefusal => exact h.reject (refusal_reason (h.numbered.nextId_fresh hlt) hrefusal) _
  | accepted hnew _ hrefusal => exact h.accept hnew hrefusal hlt _
  | unknown => exact h.reject (by decide) _
  | foreign _ horder hlookup howner =>
    obtain ⟨hclient, howned⟩ := h.lookup_owned hlookup
    rcases howner with howner | howner
    · exact absurd hclient howner
    · exact absurd (h.injective _ _ _ howned horder) howner
  | withdrawn => exact h.withdraw _ _ _

end Consistent

end Sixchange
