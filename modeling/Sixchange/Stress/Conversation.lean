import Sixchange.Codec.Requests
import Sixchange.Gateway.Agreement
import Sixchange.Gateway.Reference

/-!
The program in conversation with a client who numbers its orders as the engine does, from some base on, and is
refused nothing.
-/

namespace Sixchange

open TextCodec

def orderRequest (base accepted : ℕ) (side : Side) (price quantity : ℕ) : NewOrderRequest :=
  { clientOrderId := base + (accepted + 1), symbol := ascii "AAPL", side, orderType := .limit, tif := .gfd, price
    quantity }

def cancelRequest (base orderId : ℕ) : CancelOrderRequest :=
  { clientOrderId := base + orderId, symbol := ascii "AAPL" }

def heldOrder (base accepted : ℕ) (side : Side) (price quantity : ℕ) : RestingOrder :=
  { orderId := accepted + 1, clientOrderId := base + (accepted + 1), clientId := 1, side, price
    remainingQuantity := quantity }

def confirmation (base : ℕ) : InboundMessage → OutboundMessage
  | .newOrder request => OrderAccepted.message request.clientOrderId (request.clientOrderId - base)
  | .cancelOrder request => OrderCancelled.message request.clientOrderId (request.clientOrderId - base)

structure Conversation (config : OrderBookConfig) (base : ℕ) (session : Session) (requests : List InboundMessage)
    (desk : Desk) : Prop where
  writable : ∀ request ∈ requests, request.Writable
  answered : ∃ now queues, Cli.run session (requests.map InboundMessage.line) =
    .ok (now, requests.map fun request => Office.reply (confirmation base request)) ∧
      Serves config now desk queues
  consistent : ∃ messages, Consistent config desk messages
  clientOrders : ∀ c id, desk.clientOrders c = some id ↔ c = base + id ∧ 0 < id ∧ id ≤ desk.market.accepted

theorem Opened.conversation {config : OrderBookConfig} {session : Session} (h : Opened config session)
    (base : ℕ) : Conversation config base session [] .empty := by
  refine ⟨List.forall_mem_nil _, ⟨session, _, rfl, h.serves⟩, ⟨[], .empty config⟩, fun c id => ?_⟩
  constructor
  · intro hnone
    cases hnone
  · rintro ⟨-, hpos, hle⟩
    exact absurd (hpos.trans_le hle) (Nat.lt_irrefl 0)

theorem Opened.main_eq {config : OrderBookConfig} {session final : Session} (h : Opened config session) {input : Bytes}
    {outputs : List Bytes} (hrun : Cli.run session (Cli.getLines input) = .ok (final, outputs)) :
    Cli.main config input = some (.ok {
      out := outputs.flatten
      err := ascii "execution= " ++ decimal final.engine.executionCount ++ ascii "\n" }) := by
  rw [Cli.main, h.created, Option.map_some, hrun, ok_bind]

theorem decimal_length_le {n : ℕ} (h : n < word) : (decimal n).length ≤ 20 := by
  have hdigits : (Nat.digits 10 n).length ≤ 20 :=
    (Nat.digits_length_le_iff (by decide) n).mpr (h.trans (by norm_num [word]))
  unfold decimal
  split_ifs
  · decide
  · simpa using hdigits

theorem aapl_plain : ascii "AAPL" ≠ [] ∧ Grammar.AllPlain (ascii "AAPL") := by decide

theorem orderRequest_writable {base accepted : ℕ} {side : Side} {price quantity : ℕ}
    (haccepted : base + (accepted + 1) < word)
    (hprice : 0 < price ∧ price < word) (hquantity : 0 < quantity ∧ quantity < word) :
    (InboundMessage.newOrder (orderRequest base accepted side price quantity)).Writable := by
  have hid : 0 < base + (accepted + 1) ∧ base + (accepted + 1) < word := ⟨Nat.succ_pos _, haccepted⟩
  have hside : side.letter.length = 1 := by cases side <;> rfl
  refine ⟨?_, aapl_plain.1, aapl_plain.2, ?_⟩
  · simp only [InboundMessage.numbers, orderRequest, List.forall_mem_cons]
    exact ⟨hid, hprice, hquantity, List.forall_mem_nil _⟩
  · have hlengths := decimal_length_le haccepted
    have hpriceLength := decimal_length_le hprice.2
    have hquantityLength := decimal_length_le hquantity.2
    simp [InboundMessage.line, InboundMessage.words, orderRequest, List.intercalate, hside, OrderType.letter,
      TimeInForce.letters, ascii]
    omega

theorem cancelRequest_writable {base orderId : ℕ} (hpos : 0 < orderId) (horder : base + orderId < word) :
    (InboundMessage.cancelOrder (cancelRequest base orderId)).Writable := by
  have hid : 0 < base + orderId ∧ base + orderId < word := ⟨Nat.add_pos_right _ hpos, horder⟩
  refine ⟨?_, aapl_plain.1, aapl_plain.2, ?_⟩
  · simp only [InboundMessage.numbers, cancelRequest, List.forall_mem_cons]
    exact ⟨hid, List.forall_mem_nil _⟩
  · have hlength := decimal_length_le horder
    simp [InboundMessage.line, InboundMessage.words, cancelRequest, List.intercalate, ascii]
    omega

theorem Serves.step {config : OrderBookConfig} {session : Session} {desk : Desk} {queues : Side → List Slot}
    (h : Serves config session desk queues) {request : InboundMessage} (hwritable : request.Writable)
    {message : OutboundMessage} (hmessage : (desk.handle config request).2.messages = [message]) :
    ∃ session' queues', Cli.step session request.line = .ok (session', Office.reply message) ∧
      Serves config session' (desk.handle config request).1 queues' := by
  obtain ⟨session', queues', hrun, hserves, -⟩ := h.handle request
  refine ⟨session', queues', ?_, hserves⟩
  unfold Cli.step
  rw [hwritable.decode_line]
  dsimp only
  rw [hrun, ok_bind]
  dsimp only
  rw [hmessage, List.flatMap_singleton, reply_eq]

theorem Desk.accept_book {desk : Desk} (hlt : desk.market.accepted + 1 < word) (base : ℕ) (side : Side)
    (price quantity : ℕ) :
    (desk.market.accept (desk.newOrderCommand (orderRequest base desk.market.accepted side price quantity))).book =
      settle desk.market.book (heldOrder base desk.market.accepted side price quantity)
        (sweep (side.opposite.crosses price) quantity (desk.market.book side.opposite)) := by
  rw [Market.accept, Market.nextId_small hlt]
  rfl

namespace Conversation

variable {config : OrderBookConfig} {base : ℕ} {session : Session} {requests : List InboundMessage} {desk : Desk}

theorem confirmed (h : Conversation config base session requests desk) {request : InboundMessage}
    (hwritable : request.Writable)
    (hmessage : (desk.handle config request).2.messages = [confirmation base request])
    (hlt : (desk.handle config request).1.market.accepted < word)
    (hclientOrders : ∀ c id, (desk.handle config request).1.clientOrders c = some id ↔
      c = base + id ∧ 0 < id ∧ id ≤ (desk.handle config request).1.market.accepted) :
    Conversation config base session (requests ++ [request]) (desk.handle config request).1 := by
  obtain ⟨now, queues, hrun, hserves⟩ := h.answered
  obtain ⟨messages, hconsistent⟩ := h.consistent
  obtain ⟨now', queues', hstep, hserves'⟩ := hserves.step hwritable hmessage
  refine ⟨?_, ⟨now', queues', ?_, hserves'⟩, ⟨_, hconsistent.handle request hlt⟩, hclientOrders⟩
  · intro request' hrequest
    rcases List.mem_append.mp hrequest with hrequest | hrequest
    · exact h.writable request' hrequest
    · rwa [List.mem_singleton.mp hrequest]
  · rw [List.map_append, List.map_append]
    exact Transducer.run_append_ok hrun (Transducer.run_cons_ok hstep rfl)

theorem order (h : Conversation config base session requests desk) {side : Side} {price quantity : ℕ}
    (haccepted : base + (desk.market.accepted + 1) < word) (hprice : 0 < price ∧ price < config.priceLevelCount)
    (hlevels : config.priceLevelCount ≤ word) (hquantity : 0 < quantity ∧ quantity < word)
    (hroom : desk.market.ids.length ≠ config.maxActiveOrders) :
    ∃ desk', Conversation config base session
        (requests ++ [.newOrder (orderRequest base desk.market.accepted side price quantity)]) desk' ∧
      desk'.market =
        desk.market.accept (desk.newOrderCommand (orderRequest base desk.market.accepted side price quantity)) := by
  let request := orderRequest base desk.market.accepted side price quantity
  obtain ⟨messages, hconsistent⟩ := h.consistent
  have hlt : desk.market.accepted + 1 < word := by omega
  have hnext := Market.nextId_small hlt
  have hid : base + (desk.market.accepted + 1) - base = desk.market.accepted + 1 := Nat.add_sub_cancel_left _ _
  have hnew : desk.clientOrders request.clientOrderId = none := by
    cases hid : desk.clientOrders request.clientOrderId with
    | none => rfl
    | some id =>
      obtain ⟨heq, -, hle⟩ := (h.clientOrders _ _).mp hid
      change base + (desk.market.accepted + 1) = base + id at heq
      omega
  have hrefusal : desk.market.refusal 0 config (desk.newOrderCommand request) = none := by
    rw [Market.refusal_none]
    refine ⟨rfl, rfl, admitError_none.mpr ⟨rfl, ?_, hprice.2, hroom, ?_⟩⟩
    · exact Nat.ne_of_gt hquantity.1
    · exact hconsistent.numbered.nextId_fresh (Nat.lt_of_succ_lt hlt)
  have hwritable : (InboundMessage.newOrder request).Writable :=
    orderRequest_writable haccepted ⟨hprice.1, hprice.2.trans_le hlevels⟩ hquantity
  have hhandled := Desk.Handled.accepted hnew rfl hrefusal
  have hconversation := h.confirmed hwritable
  rw [hhandled.eq] at hconversation
  refine ⟨_, hconversation ?_ hlt fun c id => ?_, rfl⟩
  · change [OrderAccepted.message request.clientOrderId desk.market.nextId] =
      [OrderAccepted.message request.clientOrderId (base + (desk.market.accepted + 1) - base)]
    rw [hnext, hid]
  · dsimp only
    rw [hnext]
    change Function.update desk.clientOrders (base + (desk.market.accepted + 1)) (some (desk.market.accepted + 1)) c =
      some id ↔
      c = base + id ∧ 0 < id ∧ id ≤ desk.market.accepted + 1
    by_cases hc : c = base + (desk.market.accepted + 1)
    · rw [hc, Function.update_self, Option.some_inj]
      omega
    · rw [Function.update_of_ne hc, h.clientOrders]
      omega

theorem withdrawal (h : Conversation config base session requests desk) (haccepted : base + desk.market.accepted < word)
    {orderId : ℕ} (hrests : orderId ∈ desk.market.ids) :
    ∃ desk', Conversation config base session (requests ++ [.cancelOrder (cancelRequest base orderId)]) desk' ∧
      desk'.market = desk.market.remove orderId := by
  obtain ⟨messages, hconsistent⟩ := h.consistent
  obtain ⟨order, hlookup⟩ : ∃ order, desk.market.lookup orderId = some order := by
    apply Option.ne_none_iff_exists'.mp
    rw [Ne, Market.lookup_eq_none_iff]
    exact not_not.mpr hrests
  obtain ⟨hclient, howned⟩ := hconsistent.lookup_owned hlookup
  obtain ⟨hclientOrder, hpos, hle⟩ := (h.clientOrders _ _).mp howned
  have horder : desk.clientOrders (cancelRequest base orderId).clientOrderId = some orderId :=
    (h.clientOrders _ _).mpr ⟨rfl, hpos, hle⟩
  have hwritable : (InboundMessage.cancelOrder (cancelRequest base orderId)).Writable :=
    cancelRequest_writable hpos (by omega)
  have hhandled : Desk.Handled config desk (.cancelOrder (cancelRequest base orderId)) _ :=
    .withdrawn rfl horder hlookup hclient hclientOrder
  have hconversation := h.confirmed hwritable
  rw [hhandled.eq] at hconversation
  refine ⟨_, hconversation ?_ ?_ h.clientOrders, rfl⟩
  · change [OrderCancelled.message (base + orderId) orderId] =
      [OrderCancelled.message (base + orderId) (base + orderId - base)]
    rw [Nat.add_sub_cancel_left]
  · exact Nat.lt_of_le_of_lt (Nat.le_add_left _ base) haccepted

end Conversation

end Sixchange
