import Sixchange.Engine.Refinement
import Sixchange.Gateway.Desk

namespace Sixchange

/-- The program shows the desk: its engine the market, its gateway the orders of the client. -/
structure Serves (config : OrderBookConfig) (session : Session) (desk : Desk) (queues : Side → List Slot) :
    Prop where
  engine : Refines 0 config session.engine desk.market queues
  clientId_eq : session.gateway.clientId = 1
  clientOrders_eq : session.gateway.clientOrders = desk.clientOrders
  sinks_eq : session.dispatcher.sinks = [.gateway]
  nextSequence_eq : session.sequencer.nextSequence = desk.nextSequence

section Deliver

variable {dispatcher : EngineEventDispatcher EventSink} (hsinks : dispatcher.sinks = [.gateway])

include hsinks

theorem deliver_one {gateway gateway' : OrderGateway} {event : EngineEvent} {messages : List OutboundMessage}
    (h : gateway.onEngineEvent event = .ok (gateway', messages)) :
    dispatcher.onEngineEvent Session.emit gateway event = .ok (gateway', messages) := by
  have hrun : Transducer.run (fun gateway sink => Session.emit sink gateway event) gateway dispatcher.sinks =
      .ok (gateway', [messages]) := by
    rw [hsinks]
    exact Transducer.run_cons_ok h rfl
  unfold EngineEventDispatcher.onEngineEvent
  rw [hrun, ok_bind]
  dsimp only
  rw [List.flatten_singleton]

theorem deliver_silent {gateway : OrderGateway} {events : List EngineEvent}
    (h : ∀ event ∈ events, gateway.onEngineEvent event = .ok (gateway, [])) :
    ∃ messages, Transducer.run (dispatcher.onEngineEvent Session.emit) gateway events = .ok (gateway, messages) ∧
      messages.flatten = [] := by
  induction events with
  | nil => exact ⟨[], rfl, rfl⟩
  | cons event events ih =>
    rw [List.forall_mem_cons] at h
    obtain ⟨messages, hrun, hflat⟩ := ih h.2
    exact ⟨[] :: messages, Transducer.run_cons_ok (deliver_one hsinks h.1) hrun, hflat⟩

theorem deliver {gateway gateway' : OrderGateway} {event : EngineEvent} {events : List EngineEvent}
    {messages : List OutboundMessage} (h : gateway.onEngineEvent event = .ok (gateway', messages))
    (hsilent : ∀ event ∈ events, gateway'.onEngineEvent event = .ok (gateway', [])) :
    ∃ outputs, Transducer.run (dispatcher.onEngineEvent Session.emit) gateway (event :: events) =
      .ok (gateway', outputs) ∧ outputs.flatten = messages := by
  obtain ⟨outputs, hrun, hflat⟩ := deliver_silent hsinks hsilent
  refine ⟨messages :: outputs, Transducer.run_cons_ok (deliver_one hsinks h) hrun, ?_⟩
  rw [List.flatten_cons, hflat, List.append_nil]

end Deliver

theorem tradeEvents_silent (gateway : OrderGateway) (command : NewOrderCommand) (orderId trades : ℕ)
    (fills : List Fill) : ∀ event ∈ tradeEvents command orderId trades fills,
      gateway.onEngineEvent event = .ok (gateway, []) := by
  induction fills generalizing trades with
  | nil => exact fun event h => absurd h List.not_mem_nil
  | cons fill fills ih =>
    unfold tradeEvents
    rw [List.forall_mem_cons]
    exact ⟨rfl, ih (trades + 1)⟩

theorem acceptEvents_silent (gateway : OrderGateway) (market : Market) (command : NewOrderCommand) :
    ∃ events, market.acceptEvents command = accepted command market.nextId :: events ∧
      ∀ event ∈ events, gateway.onEngineEvent event = .ok (gateway, []) := by
  refine ⟨_, rfl, fun event hevent => ?_⟩
  rcases List.mem_append.mp hevent with hevent | hevent
  · exact tradeEvents_silent _ _ _ _ _ event hevent
  · split_ifs at hevent
    · rw [List.mem_singleton.mp hevent]
      rfl
    · cases hevent

namespace Serves

variable {config : OrderBookConfig} {session : Session} {desk : Desk} {queues : Side → List Slot}

theorem process (h : Serves config session desk queues) (sequencer : Sequencer) {command : EngineCommand}
    {market : Market} {event : EngineEvent} {events : List EngineEvent} {gateway : OrderGateway}
    {messages : List OutboundMessage} (hprocess : desk.market.process 0 config command = (market, event :: events))
    (hfirst : session.gateway.onEngineEvent event = .ok (gateway, messages))
    (hsilent : ∀ event ∈ events, gateway.onEngineEvent event = .ok (gateway, [])) :
    ∃ engine queues', Session.process { session with sequencer } command =
        .ok ({ session with engine, gateway, sequencer },
          { command := some command, events := event :: events, messages }) ∧
      Refines 0 config engine market queues' := by
  obtain ⟨engine, queues', hengine, hrefines⟩ := h.engine.process command
  obtain ⟨outputs, hdeliver, rfl⟩ := deliver h.sinks_eq hfirst hsilent
  rw [hprocess] at hengine hrefines
  refine ⟨engine, queues', ?_, hrefines⟩
  unfold Session.process
  rw [hengine, ok_bind]
  dsimp only
  rw [hdeliver]
  rfl

theorem turned_away (h : Serves config session desk queues) {request : InboundMessage} {reason : RejectReason}
    (hcommand : desk.command request = .error reason) :
    session.handle request = .ok (session.reject (some request.clientOrderId) reason) := by
  cases request with
  | newOrder request =>
    unfold Desk.command at hcommand
    dsimp only at hcommand
    rw [Session.handle, Session.handleNewOrder, h.clientOrders_eq]
    by_cases hdup : (desk.clientOrders request.clientOrderId).isSome
    · rw [if_pos hdup] at hcommand ⊢
      obtain rfl := Except.error.inj hcommand
      rfl
    rw [if_neg hdup] at hcommand ⊢
    by_cases hsymbol : request.symbol = ascii "AAPL"
    · rw [if_neg (not_not.mpr hsymbol)] at hcommand
      cases hcommand
    · rw [if_pos hsymbol] at hcommand
      obtain rfl := Except.error.inj hcommand
      rw [OrderGateway.resolveSymbol, if_neg hsymbol]
      rfl
  | cancelOrder request =>
    unfold Desk.command at hcommand
    dsimp only at hcommand
    rw [Session.handle, Session.handleCancelOrder, h.clientOrders_eq]
    by_cases hsymbol : request.symbol = ascii "AAPL"
    · rw [OrderGateway.resolveSymbol, if_pos hsymbol]
      rw [if_neg (not_not.mpr hsymbol)] at hcommand
      dsimp only
      cases horder : desk.clientOrders request.clientOrderId with
      | none =>
        rw [horder] at hcommand
        obtain rfl := Except.error.inj hcommand
        rfl
      | some orderId =>
        rw [horder] at hcommand
        cases hcommand
    · rw [if_pos hsymbol] at hcommand
      obtain rfl := Except.error.inj hcommand
      rw [OrderGateway.resolveSymbol, if_neg hsymbol]
      rfl

theorem submitted_new (h : Serves config session desk queues) {request : NewOrderRequest}
    (hnew : desk.clientOrders request.clientOrderId = none) (hsymbol : request.symbol = ascii "AAPL") :
    session.handle (.newOrder request) = Session.process { session with sequencer := session.sequencer.next.2 }
      (.newOrder (desk.newOrderCommand request)) := by
  rw [Session.handle, Session.handleNewOrder, h.clientOrders_eq, hnew, Option.isSome_none,
    if_neg Bool.false_ne_true, OrderGateway.resolveSymbol, if_pos hsymbol, h.clientId_eq]
  unfold Desk.newOrderCommand
  rw [← h.nextSequence_eq]
  rfl

theorem submitted_cancel (h : Serves config session desk queues) {request : CancelOrderRequest} {orderId : ℕ}
    (hsymbol : request.symbol = ascii "AAPL") (horder : desk.clientOrders request.clientOrderId = some orderId) :
    session.handle (.cancelOrder request) = Session.process { session with sequencer := session.sequencer.next.2 }
      (.cancelOrder (desk.cancelOrderCommand request orderId)) := by
  rw [Session.handle, Session.handleCancelOrder, OrderGateway.resolveSymbol, if_pos hsymbol, h.clientOrders_eq]
  dsimp only
  rw [horder, h.clientId_eq]
  unfold Desk.cancelOrderCommand
  rw [← h.nextSequence_eq]
  rfl

theorem next_eq (h : Serves config session desk queues) :
    session.sequencer.next.2.nextSequence = wrapAdd desk.nextSequence 1 := by
  rw [← h.nextSequence_eq]
  rfl

theorem rejected_new (h : Serves config session desk queues) (request : NewOrderRequest) (reason : RejectReason) :
    session.gateway.onEngineEvent (rejection (.newOrder (desk.newOrderCommand request)) reason) =
      .ok (session.gateway, [OrderRejected.message request.clientOrderId reason]) :=
  if_neg (not_not.mpr h.clientId_eq.symm)

theorem rejected_cancel (h : Serves config session desk queues) (request : CancelOrderRequest) (orderId : ℕ)
    (reason : RejectReason) :
    session.gateway.onEngineEvent (rejection (.cancelOrder (desk.cancelOrderCommand request orderId)) reason) =
      .ok (session.gateway, [OrderRejected.message request.clientOrderId reason]) :=
  if_neg (not_not.mpr h.clientId_eq.symm)

theorem accepted_new (h : Serves config session desk queues) {request : NewOrderRequest}
    (hnew : desk.clientOrders request.clientOrderId = none) (orderId : ℕ) :
    session.gateway.onEngineEvent (accepted (desk.newOrderCommand request) orderId) =
      .ok ({ session.gateway with
          clientOrders := Function.update desk.clientOrders request.clientOrderId (some orderId) },
        [OrderAccepted.message request.clientOrderId orderId]) := by
  have hclient : ¬ (desk.newOrderCommand request).clientId ≠ session.gateway.clientId :=
    not_not.mpr h.clientId_eq.symm
  have hunused : ¬ (session.gateway.clientOrders (desk.newOrderCommand request).clientOrderId).isSome = true := by
    rw [h.clientOrders_eq]
    simp [Desk.newOrderCommand, hnew]
  unfold accepted OrderGateway.onEngineEvent
  dsimp only
  rw [if_neg hclient, if_neg hunused, h.clientOrders_eq]
  rfl

theorem cancelled_own (h : Serves config session desk queues) {order : RestingOrder} (hclient : order.clientId = 1)
    (seq : ℕ) : session.gateway.onEngineEvent (withdrawn seq 0 order) =
      .ok (session.gateway, [OrderCancelled.message order.clientOrderId order.orderId]) :=
  if_neg (not_not.mpr (hclient.trans h.clientId_eq.symm))

theorem handle (h : Serves config session desk queues) (request : InboundMessage) :
    ∃ session' queues', session.handle request = .ok (session', (desk.handle config request).2) ∧
      Serves config session' (desk.handle config request).1 queues' ∧
      ((desk.handle config request).2.command = none → session' = session) := by
  have hcases := Desk.handle_cases config desk request
  generalize desk.handle config request = outcome at hcases ⊢
  cases hcases with
  | turnedAway hcommand =>
    exact ⟨session, queues, h.turned_away hcommand, h, fun _ => rfl⟩
  | @refused request reason hnew hsymbol hrefusal =>
    obtain ⟨engine, queues', hrun, hrefines⟩ := h.process session.sequencer.next.2
      (Desk.process_refused hrefusal) (h.rejected_new request reason) (List.forall_mem_nil _)
    refine ⟨_, queues', (h.submitted_new hnew hsymbol).trans hrun, ?_, fun hnone => nomatch hnone⟩
    exact ⟨hrefines, h.clientId_eq, h.clientOrders_eq, h.sinks_eq, h.next_eq⟩
  | @accepted request hnew hsymbol hrefusal =>
    obtain ⟨events, hevents, hsilent⟩ := acceptEvents_silent { session.gateway with
      clientOrders := Function.update desk.clientOrders request.clientOrderId (some desk.market.nextId) }
      desk.market (desk.newOrderCommand request)
    have hprocess := Desk.process_accepted hrefusal
    rw [hevents] at hprocess ⊢
    obtain ⟨engine, queues', hrun, hrefines⟩ := h.process session.sequencer.next.2 hprocess
      (h.accepted_new hnew desk.market.nextId) hsilent
    refine ⟨_, queues', (h.submitted_new hnew hsymbol).trans hrun, ?_, fun hnone => nomatch hnone⟩
    exact ⟨hrefines, h.clientId_eq, rfl, h.sinks_eq, h.next_eq⟩
  | @unknown request orderId hsymbol horder hlookup =>
    obtain ⟨engine, queues', hrun, hrefines⟩ := h.process session.sequencer.next.2
      (Desk.process_unknown request hlookup) (h.rejected_cancel request orderId _) (List.forall_mem_nil _)
    refine ⟨_, queues', (h.submitted_cancel hsymbol horder).trans hrun, ?_, fun hnone => nomatch hnone⟩
    exact ⟨hrefines, h.clientId_eq, h.clientOrders_eq, h.sinks_eq, h.next_eq⟩
  | @foreign request orderId order hsymbol horder hlookup howner =>
    obtain ⟨engine, queues', hrun, hrefines⟩ := h.process session.sequencer.next.2
      (Desk.process_foreign hlookup howner) (h.rejected_cancel request orderId _) (List.forall_mem_nil _)
    refine ⟨_, queues', (h.submitted_cancel hsymbol horder).trans hrun, ?_, fun hnone => nomatch hnone⟩
    exact ⟨hrefines, h.clientId_eq, h.clientOrders_eq, h.sinks_eq, h.next_eq⟩
  | @withdrawn request orderId order hsymbol horder hlookup hclient hclientOrder =>
    obtain ⟨engine, queues', hrun, hrefines⟩ := h.process session.sequencer.next.2
      (Desk.process_withdrawn hlookup hclient hclientOrder) (h.cancelled_own hclient _) (List.forall_mem_nil _)
    rw [hclientOrder, Desk.lookup_orderId hlookup] at hrun
    refine ⟨_, queues', (h.submitted_cancel hsymbol horder).trans hrun, ?_, fun hnone => nomatch hnone⟩
    exact ⟨hrefines, h.clientId_eq, h.clientOrders_eq, h.sinks_eq, h.next_eq⟩

end Serves

structure Opened (config : OrderBookConfig) (session : Session) : Prop where
  fits : config.orderLookupCapacity < word
  created : Session.create config = some session

theorem Opened.serves {config : OrderBookConfig} {session : Session} (h : Opened config session) :
    Serves config session .empty (fun _ => []) := by
  have hcreated := h.created
  unfold Session.create at hcreated
  obtain ⟨engine, hengine, hsession⟩ := Option.bind_eq_some_iff.mp hcreated
  obtain rfl := Option.some.inj hsession
  exact ⟨Refines.create h.fits hengine, rfl, rfl, rfl, rfl⟩

theorem Opened.run {config : OrderBookConfig} {session : Session} (h : Opened config session)
    (requests : List InboundMessage) :
    ∃ final queues, session.run requests =
        .ok (final, (Transducer.trace (Desk.handle config) .empty requests).2) ∧
      Serves config final (Transducer.trace (Desk.handle config) .empty requests).1 queues := by
  let R (session : Session) (desk : Desk) : Prop := ∃ queues, Serves config session desk queues
  have hstep : ∀ session desk request, R session desk → ∃ session',
      session.handle request = .ok (session', (desk.handle config request).2) ∧
        R session' (desk.handle config request).1 := by
    rintro session desk request ⟨queues, h⟩
    obtain ⟨session', queues', hrun, h', -⟩ := h.handle request
    exact ⟨session', hrun, queues', h'⟩
  have hstart : R session .empty := ⟨_, h.serves⟩
  obtain ⟨final, hrun, queues, hserves⟩ := Transducer.run_simulates hstep hstart requests
  exact ⟨final, queues, hrun, hserves⟩

theorem Opened.transcripts_eq {config : OrderBookConfig} {session final : Session} {requests : List InboundMessage}
    {transcripts : List Transcript} (h : Opened config session)
    (hrun : session.run requests = .ok (final, transcripts)) :
    transcripts = (Transducer.trace (Desk.handle config) .empty requests).2 := by
  obtain ⟨final', queues, hrun', -⟩ := h.run requests
  exact (Prod.mk.inj (Except.ok.inj (hrun.symm.trans hrun'))).2

theorem Opened.default : ∃ session, Opened defaultOrderBookConfig session := by
  have hsome : (Session.create defaultOrderBookConfig).isSome = true := rfl
  obtain ⟨session, hsession⟩ := Option.isSome_iff_exists.mp hsome
  exact ⟨session, by decide, hsession⟩

end Sixchange
