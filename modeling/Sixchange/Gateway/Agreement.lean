import Sixchange.Engine.Capacity
import Sixchange.Gateway.Consistency
import Sixchange.Gateway.Service

namespace Sixchange

open OrderBook

def OutboundMessage.isAccepted : OutboundMessage → Bool
  | .orderAccepted _ => true
  | _ => false

def sentMessages (transcripts : List Transcript) : List OutboundMessage := transcripts.flatMap Transcript.messages

structure Orderable (config : OrderBookConfig) (request : NewOrderRequest) : Prop where
  symbol_eq : request.symbol = ascii "AAPL"
  orderType_eq : request.orderType = .limit
  tif_eq : request.tif = .gfd
  quantity_ne : request.quantity ≠ 0
  price_lt : request.price < config.priceLevelCount

def Answers (session : Session) (request : InboundMessage) (message : OutboundMessage) : Prop :=
  ∃ next transcript, session.handle request = .ok (next, transcript) ∧ transcript.messages = [message]

structure Agrees (config : OrderBookConfig) (session : Session) (sent : List OutboundMessage) : Prop where
  recorded : ∀ c id, session.gateway.clientOrders c = some id ↔ OrderAccepted.message c id ∈ sent
  injective : ∀ c c' id, session.gateway.clientOrders c = some id → session.gateway.clientOrders c' = some id →
    c = c'
  duplicate : ∀ request id, OrderAccepted.message request.clientOrderId id ∈ sent →
    Answers session (.newOrder request) (OrderRejected.message request.clientOrderId .duplicateClientOrderId)
  usable : ∀ request, (∀ id, OrderAccepted.message request.clientOrderId id ∉ sent) →
    ∃ message, Answers session (.newOrder request) message ∧
      message ≠ OrderRejected.message request.clientOrderId .duplicateClientOrderId ∧
      (Orderable config request → session.engine.orderBook.restingCount ≠ config.maxActiveOrders →
        ∃ id, message = OrderAccepted.message request.clientOrderId id)
  cancelled : ∀ c id, OrderAccepted.message c id ∈ sent → session.engine.orderBook.Rests id →
    Answers session (.cancelOrder ⟨c, ascii "AAPL"⟩) (OrderCancelled.message c id)
  unknown : ∀ c, (∀ id, OrderAccepted.message c id ∈ sent → ¬ session.engine.orderBook.Rests id) →
    Answers session (.cancelOrder ⟨c, ascii "AAPL"⟩) (OrderRejected.message c .unknownOrder)
  reasons : ∀ rejected, .orderRejected rejected ∈ sent →
    rejected.reason ≠ .notOrderOwner ∧ rejected.reason ≠ .matchingEngineError

theorem Refines.rests_iff {symbolId : ℕ} {config : OrderBookConfig} {engine : MatchingEngine} {market : Market}
    {queues : Side → List Slot} (h : Refines symbolId config engine market queues) (id : ℕ) :
    engine.orderBook.Rests id ↔ id ∈ market.ids := h.shows.rests_iff id

theorem Market.lookup_eq_none_iff {market : Market} {id : ℕ} : market.lookup id = none ↔ id ∉ market.ids := by
  unfold lookup ids
  rw [List.find?_eq_none, List.mem_map]
  constructor
  · rintro h ⟨r, hr, he⟩
    exact h r hr (decide_eq_true he)
  · intro h r hr he
    exact h ⟨r, hr, of_decide_eq_true he⟩

namespace Serves

variable {config : OrderBookConfig} {session : Session} {desk : Desk} {queues : Side → List Slot}

theorem answers (h : Serves config session desk queues) {request : InboundMessage} {message : OutboundMessage}
    (hmessage : (desk.handle config request).2.messages = [message]) : Answers session request message := by
  obtain ⟨next, queues', hrun, -⟩ := h.handle request
  exact ⟨next, _, hrun, hmessage⟩

theorem answers_error (h : Serves config session desk queues) {request : InboundMessage} {reason : RejectReason}
    (hcommand : desk.command request = .error reason) :
    Answers session request (OrderRejected.message request.clientOrderId reason) := by
  apply h.answers
  rw [Desk.handle_error hcommand]

theorem answers_new (h : Serves config session desk queues) {messages : List OutboundMessage}
    (hc : Consistent config desk messages) (hlt : desk.market.accepted < word) {request : NewOrderRequest}
    (hnew : desk.clientOrders request.clientOrderId = none) :
    ∃ message, Answers session (.newOrder request) message ∧
      message ≠ OrderRejected.message request.clientOrderId .duplicateClientOrderId ∧
      (Orderable config request → session.engine.orderBook.restingCount ≠ config.maxActiveOrders →
        ∃ id, message = OrderAccepted.message request.clientOrderId id) := by
  have hcases := Desk.handle_cases config desk (.newOrder request)
  have hanswers : ∀ {message}, (desk.handle config (.newOrder request)).2.messages = [message] →
      Answers session (.newOrder request) message := h.answers
  generalize desk.handle config (.newOrder request) = outcome at hcases hanswers
  cases hcases with
  | @turnedAway _ reason hcommand =>
    have hunused : ¬ (desk.clientOrders request.clientOrderId).isSome = true := by simp [hnew]
    unfold Desk.command at hcommand
    dsimp only at hcommand
    rw [if_neg hunused] at hcommand
    split_ifs at hcommand with hsymbol
    obtain rfl := Except.error.inj hcommand
    exact ⟨_, hanswers rfl, by simp [OrderRejected.message], fun ho => absurd ho.symbol_eq hsymbol⟩
  | @refused _ reason _ _ hrefusal =>
    refine ⟨_, hanswers rfl, ?_, fun ho hroom => ?_⟩
    · intro he
      have hreason := (OrderRejected.mk.inj (OutboundMessage.orderRejected.inj he)).2
      rw [hreason] at hrefusal
      unfold Market.refusal admitError at hrefusal
      split_ifs at hrefusal <;> simp at hrefusal
    · have hadmissible : Admissible 0 config (desk.newOrderCommand request) :=
        ⟨ho.orderType_eq, ho.tif_eq, rfl, ho.quantity_ne, ho.price_lt⟩
      rw [hadmissible.refusal (hc.numbered.nextId_fresh hlt), if_neg] at hrefusal
      · cases hrefusal
      · rw [← h.engine.restingCount_eq]
        exact hroom
  | accepted => exact ⟨_, hanswers rfl, by simp [OrderRejected.message, OrderAccepted.message], fun _ _ => ⟨_, rfl⟩⟩

theorem answers_cancelled (h : Serves config session desk queues) {messages : List OutboundMessage}
    (hc : Consistent config desk messages) {c id : ℕ} (hid : desk.clientOrders c = some id)
    (hrests : session.engine.orderBook.Rests id) :
    Answers session (.cancelOrder ⟨c, ascii "AAPL"⟩) (OrderCancelled.message c id) := by
  rw [h.engine.rests_iff] at hrests
  have hcases := Desk.handle_cases config desk (.cancelOrder ⟨c, ascii "AAPL"⟩)
  have hanswers : ∀ {message}, (desk.handle config (.cancelOrder ⟨c, ascii "AAPL"⟩)).2.messages = [message] →
      Answers session (.cancelOrder ⟨c, ascii "AAPL"⟩) message := h.answers
  generalize desk.handle config (.cancelOrder ⟨c, ascii "AAPL"⟩) = outcome at hcases hanswers
  cases hcases with
  | turnedAway hcommand =>
    unfold Desk.command at hcommand
    dsimp only at hcommand
    rw [if_neg (not_not.mpr rfl), hid] at hcommand
    cases hcommand
  | unknown _ horder hlookup =>
    obtain rfl := Option.some.inj (hid.symm.trans horder)
    exact absurd hrests (Market.lookup_eq_none_iff.mp hlookup)
  | foreign _ horder hlookup howner =>
    obtain ⟨hclient, howned⟩ := hc.lookup_owned hlookup
    rcases howner with howner | howner
    · exact absurd hclient howner
    · exact absurd (hc.injective _ _ _ howned horder) howner
  | withdrawn _ horder =>
    obtain rfl := Option.some.inj (hid.symm.trans horder)
    exact hanswers rfl

theorem answers_unknown (h : Serves config session desk queues) {c : ℕ}
    (hrests : ∀ id, desk.clientOrders c = some id → ¬ session.engine.orderBook.Rests id) :
    Answers session (.cancelOrder ⟨c, ascii "AAPL"⟩) (OrderRejected.message c .unknownOrder) := by
  cases hid : desk.clientOrders c with
  | none => exact h.answers_error (Desk.command_unknown rfl hid)
  | some id =>
    have hlookup : desk.market.lookup id = none := by
      apply Market.lookup_eq_none_iff.mpr
      rw [← h.engine.rests_iff]
      exact hrests id hid
    apply h.answers
    rw [(Desk.Handled.unknown rfl hid hlookup).eq]

theorem agrees (h : Serves config session desk queues) {sent : List OutboundMessage}
    (hc : Consistent config desk sent) (hlt : desk.market.accepted < word) : Agrees config session sent := by
  have hrecorded : ∀ c id, session.gateway.clientOrders c = some id ↔ OrderAccepted.message c id ∈ sent := by
    rw [h.clientOrders_eq]
    exact hc.recorded
  refine ⟨hrecorded, ?_, ?_, ?_, ?_, ?_, hc.reasons⟩
  · rw [h.clientOrders_eq]
    exact hc.injective
  · intro request id hm
    apply h.answers_error
    have hused : (desk.clientOrders request.clientOrderId).isSome = true := by
      rw [(hc.recorded _ _).mpr hm]
      rfl
    exact if_pos hused
  · intro request hm
    apply h.answers_new hc hlt
    cases hid : desk.clientOrders request.clientOrderId with
    | none => rfl
    | some id => exact absurd ((hc.recorded _ _).mp hid) (hm id)
  · intro c id hm hrests
    exact h.answers_cancelled hc ((hc.recorded c id).mpr hm) hrests
  · intro c hm
    apply h.answers_unknown
    intro id hid
    exact hm id ((hc.recorded c id).mp hid)

end Serves

theorem desk_consistent (config : OrderBookConfig) (requests : List InboundMessage) :
    let desk := (Transducer.trace (Desk.handle config) .empty requests).1
    let sent := sentMessages (Transducer.trace (Desk.handle config) .empty requests).2
    desk.market.accepted = sent.countP OutboundMessage.isAccepted ∧
      (desk.market.accepted < word → Consistent config desk sent) := by
  let R (desk : Desk) (sent : List OutboundMessage) : Prop :=
    desk.market.accepted = sent.countP OutboundMessage.isAccepted ∧
      (desk.market.accepted < word → Consistent config desk sent)
  have hcount : ∀ (desk : Desk) request, (desk.handle config request).1.market.accepted =
      desk.market.accepted + (desk.handle config request).2.messages.countP OutboundMessage.isAccepted := by
    intro desk request
    have hcases := Desk.handle_cases config desk request
    generalize desk.handle config request = outcome at hcases ⊢
    cases hcases <;> rfl
  let see (sent : List OutboundMessage) (transcript : Transcript) := sent ++ transcript.messages
  have hstep : ∀ desk sent request, R desk sent →
      R (desk.handle config request).1 (see sent (desk.handle config request).2) := by
    rintro desk sent request ⟨hsent, hconsistent⟩
    refine ⟨by rw [hcount, hsent, List.countP_append], fun hlt => ?_⟩
    have hle : desk.market.accepted ≤ (desk.handle config request).1.market.accepted := by
      rw [hcount]
      exact Nat.le_add_right _ _
    exact (hconsistent (hle.trans_lt hlt)).handle request hlt
  have hstart : R .empty [] := ⟨rfl, fun _ => .empty config⟩
  have hend := Transducer.trace_observes hstep hstart requests
  rw [List.foldl_append_eq_append, List.nil_append, ← List.flatMap_def] at hend
  exact hend

theorem gateway_agrees {config : OrderBookConfig} {session : Session} (h : Opened config session)
    (requests : List InboundMessage) :
    ∃ final transcripts, session.run requests = .ok (final, transcripts) ∧
      ((sentMessages transcripts).countP OutboundMessage.isAccepted < word →
        Agrees config final (sentMessages transcripts)) := by
  obtain ⟨final, queues, hrun, hserves⟩ := h.run requests
  obtain ⟨hcount, hconsistent⟩ := desk_consistent config requests
  refine ⟨final, _, hrun, fun hlt => ?_⟩
  rw [← hcount] at hlt
  exact hserves.agrees (hconsistent hlt) hlt

def sampleRequests : List InboundMessage :=
  [.newOrder { clientOrderId := 7, symbol := ascii "AAPL", side := .buy, orderType := .limit, tif := .gfd
               price := 100, quantity := 10 },
    .newOrder { clientOrderId := 7, symbol := ascii "AAPL", side := .sell, orderType := .limit, tif := .gfd
                price := 100, quantity := 4 }]

theorem gateway_agrees_default : ∃ session, Opened defaultOrderBookConfig session ∧
    ∃ final transcripts, session.run sampleRequests = .ok (final, transcripts) ∧
      Agrees defaultOrderBookConfig final (sentMessages transcripts) := by
  obtain ⟨session, h⟩ := Opened.default
  obtain ⟨final, transcripts, hrun, hagrees⟩ := gateway_agrees h sampleRequests
  refine ⟨session, h, final, transcripts, hrun, hagrees ?_⟩
  rw [h.transcripts_eq hrun]
  decide

end Sixchange
