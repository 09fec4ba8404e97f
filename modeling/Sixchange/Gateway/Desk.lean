import Sixchange.Market.Steps
import Sixchange.Model.OrderGateway

namespace Sixchange

structure Desk where
  market : Market
  clientOrders : ℕ → Option ℕ
  nextSequence : ℕ

def InboundMessage.clientOrderId : InboundMessage → ℕ
  | .newOrder request => request.clientOrderId
  | .cancelOrder request => request.clientOrderId

def OrderAccepted.message (clientOrderId orderId : ℕ) : OutboundMessage :=
  .orderAccepted { clientOrderId, orderId }

def OrderCancelled.message (clientOrderId orderId : ℕ) : OutboundMessage :=
  .orderCancelled { clientOrderId, orderId }

def OrderRejected.message (clientOrderId : ℕ) (reason : RejectReason) : OutboundMessage :=
  .orderRejected { clientOrderId := some clientOrderId, reason }

namespace Desk

def empty : Desk := { market := .empty, clientOrders := fun _ => none, nextSequence := 1 }

variable (config : OrderBookConfig) (desk : Desk)

def newOrderCommand (request : NewOrderRequest) : NewOrderCommand :=
  { seq := desk.nextSequence, price := request.price, quantity := request.quantity
    clientOrderId := request.clientOrderId, clientId := 1, symbolId := 0, side := request.side
    orderType := request.orderType, tif := request.tif }

def cancelOrderCommand (request : CancelOrderRequest) (orderId : ℕ) : CancelOrderCommand :=
  { seq := desk.nextSequence, orderId, clientOrderId := request.clientOrderId, clientId := 1, symbolId := 0 }

def command : InboundMessage → Except RejectReason EngineCommand
  | .newOrder request =>
    if (desk.clientOrders request.clientOrderId).isSome then .error .duplicateClientOrderId
    else if request.symbol ≠ ascii "AAPL" then .error .unknownSymbol
    else .ok (.newOrder (desk.newOrderCommand request))
  | .cancelOrder request =>
    if request.symbol ≠ ascii "AAPL" then .error .unknownSymbol
    else
      match desk.clientOrders request.clientOrderId with
      | none => .error .unknownOrder
      | some orderId => .ok (.cancelOrder (desk.cancelOrderCommand request orderId))

def record (clientOrders : ℕ → Option ℕ) : EngineEvent → ℕ → Option ℕ
  | .orderAccepted event => Function.update clientOrders event.clientOrderId (some event.orderId)
  | _ => clientOrders

def answer : EngineEvent → Option OutboundMessage
  | .orderAccepted event => some (OrderAccepted.message event.clientOrderId event.orderId)
  | .commandRejected event => some (OrderRejected.message event.clientOrderId event.reason)
  | .orderCancelled event => some (OrderCancelled.message event.clientOrderId event.orderId)
  | _ => none

def handle (request : InboundMessage) : Desk × Transcript :=
  match desk.command request with
  | .error reason => (desk, {
      command := none, events := [], messages := [OrderRejected.message request.clientOrderId reason] })
  | .ok command =>
    let (market, events) := desk.market.process 0 config command
    ({ market, clientOrders := events.foldl record desk.clientOrders
       nextSequence := wrapAdd desk.nextSequence 1 },
      { command := some command, events, messages := events.filterMap answer })

variable {config desk}

theorem record_tradeEvents (command : NewOrderCommand) (orderId trades : ℕ) (fills : List Fill)
    (clientOrders : ℕ → Option ℕ) :
    (tradeEvents command orderId trades fills).foldl record clientOrders = clientOrders := by
  induction fills generalizing trades with
  | nil => rfl
  | cons fill fills ih => exact ih (trades + 1)

theorem answer_tradeEvents (command : NewOrderCommand) (orderId trades : ℕ) (fills : List Fill) :
    (tradeEvents command orderId trades fills).filterMap answer = [] := by
  induction fills generalizing trades with
  | nil => rfl
  | cons fill fills ih => exact ih (trades + 1)

theorem record_acceptEvents (market : Market) (command : NewOrderCommand) (clientOrders : ℕ → Option ℕ) :
    (market.acceptEvents command).foldl record clientOrders =
      Function.update clientOrders command.clientOrderId (some market.nextId) := by
  unfold Market.acceptEvents
  rw [List.foldl_cons, List.foldl_append, record_tradeEvents]
  split_ifs <;> rfl

theorem answer_acceptEvents (market : Market) (command : NewOrderCommand) :
    (market.acceptEvents command).filterMap answer =
      [OrderAccepted.message command.clientOrderId market.nextId] := by
  unfold Market.acceptEvents
  rw [List.filterMap_cons, List.filterMap_append, answer_tradeEvents]
  split_ifs <;> rfl

inductive Handled (config : OrderBookConfig) (desk : Desk) : InboundMessage → Desk × Transcript → Prop
  | turnedAway {request : InboundMessage} {reason : RejectReason} (hcommand : desk.command request = .error reason) :
    Handled config desk request (desk, {
      command := none, events := [], messages := [OrderRejected.message request.clientOrderId reason] })
  | refused {request : NewOrderRequest} {reason : RejectReason}
    (hnew : desk.clientOrders request.clientOrderId = none) (hsymbol : request.symbol = ascii "AAPL")
    (hrefusal : desk.market.refusal 0 config (desk.newOrderCommand request) = some reason) :
    Handled config desk (.newOrder request) ({ desk with nextSequence := wrapAdd desk.nextSequence 1 }, {
      command := some (.newOrder (desk.newOrderCommand request))
      events := [rejection (.newOrder (desk.newOrderCommand request)) reason]
      messages := [OrderRejected.message request.clientOrderId reason] })
  | accepted {request : NewOrderRequest}
    (hnew : desk.clientOrders request.clientOrderId = none) (hsymbol : request.symbol = ascii "AAPL")
    (hrefusal : desk.market.refusal 0 config (desk.newOrderCommand request) = none) :
    Handled config desk (.newOrder request) ({
      market := desk.market.accept (desk.newOrderCommand request)
      clientOrders := Function.update desk.clientOrders request.clientOrderId (some desk.market.nextId)
      nextSequence := wrapAdd desk.nextSequence 1 }, {
      command := some (.newOrder (desk.newOrderCommand request))
      events := desk.market.acceptEvents (desk.newOrderCommand request)
      messages := [OrderAccepted.message request.clientOrderId desk.market.nextId] })
  | unknown {request : CancelOrderRequest} {orderId : ℕ} (hsymbol : request.symbol = ascii "AAPL")
    (horder : desk.clientOrders request.clientOrderId = some orderId)
    (hlookup : desk.market.lookup orderId = none) :
    Handled config desk (.cancelOrder request) ({ desk with nextSequence := wrapAdd desk.nextSequence 1 }, {
      command := some (.cancelOrder (desk.cancelOrderCommand request orderId))
      events := [rejection (.cancelOrder (desk.cancelOrderCommand request orderId)) .unknownOrder]
      messages := [OrderRejected.message request.clientOrderId .unknownOrder] })
  | foreign {request : CancelOrderRequest} {orderId : ℕ} {order : RestingOrder}
    (hsymbol : request.symbol = ascii "AAPL") (horder : desk.clientOrders request.clientOrderId = some orderId)
    (hlookup : desk.market.lookup orderId = some order)
    (howner : order.clientId ≠ 1 ∨ order.clientOrderId ≠ request.clientOrderId) :
    Handled config desk (.cancelOrder request) ({ desk with nextSequence := wrapAdd desk.nextSequence 1 }, {
      command := some (.cancelOrder (desk.cancelOrderCommand request orderId))
      events := [rejection (.cancelOrder (desk.cancelOrderCommand request orderId)) .notOrderOwner]
      messages := [OrderRejected.message request.clientOrderId .notOrderOwner] })
  | withdrawn {request : CancelOrderRequest} {orderId : ℕ} {order : RestingOrder}
    (hsymbol : request.symbol = ascii "AAPL") (horder : desk.clientOrders request.clientOrderId = some orderId)
    (hlookup : desk.market.lookup orderId = some order)
    (hclient : order.clientId = 1) (hclientOrder : order.clientOrderId = request.clientOrderId) :
    Handled config desk (.cancelOrder request) ({ desk with
      market := desk.market.remove orderId, nextSequence := wrapAdd desk.nextSequence 1 }, {
      command := some (.cancelOrder (desk.cancelOrderCommand request orderId))
      events := [withdrawn desk.nextSequence 0 order]
      messages := [OrderCancelled.message request.clientOrderId orderId] })

theorem handle_error {request : InboundMessage} {reason : RejectReason}
    (hcommand : desk.command request = .error reason) :
    desk.handle config request = (desk, {
      command := none, events := [], messages := [OrderRejected.message request.clientOrderId reason] }) := by
  rw [handle, hcommand]

theorem handle_ok {request : InboundMessage} {command : EngineCommand} {market : Market} {events : List EngineEvent}
    (hcommand : desk.command request = .ok command)
    (hprocess : desk.market.process 0 config command = (market, events)) :
    desk.handle config request = ({
      market, clientOrders := events.foldl record desk.clientOrders
      nextSequence := wrapAdd desk.nextSequence 1 },
      { command := some command, events, messages := events.filterMap answer }) := by
  rw [handle, hcommand]
  dsimp only
  rw [hprocess]

section Process

variable {order : RestingOrder} {orderId : ℕ}

theorem process_refused {request : NewOrderRequest} {reason : RejectReason}
    (hrefusal : desk.market.refusal 0 config (desk.newOrderCommand request) = some reason) :
    desk.market.process 0 config (.newOrder (desk.newOrderCommand request)) =
      (desk.market, [rejection (.newOrder (desk.newOrderCommand request)) reason]) := by
  rw [Market.process, Market.submit, hrefusal]

theorem process_accepted {request : NewOrderRequest}
    (hrefusal : desk.market.refusal 0 config (desk.newOrderCommand request) = none) :
    desk.market.process 0 config (.newOrder (desk.newOrderCommand request)) =
      (desk.market.accept (desk.newOrderCommand request), desk.market.acceptEvents (desk.newOrderCommand request)) := by
  rw [Market.process, Market.submit, hrefusal]

theorem process_cancel (request : CancelOrderRequest) (orderId : ℕ) :
    desk.market.process 0 config (.cancelOrder (desk.cancelOrderCommand request orderId)) =
      match desk.market.lookup orderId with
      | none => (desk.market, [rejection (.cancelOrder (desk.cancelOrderCommand request orderId)) .unknownOrder])
      | some order =>
        if order.clientId ≠ 1 ∨ order.clientOrderId ≠ request.clientOrderId then
          (desk.market, [rejection (.cancelOrder (desk.cancelOrderCommand request orderId)) .notOrderOwner])
        else (desk.market.remove orderId, [Sixchange.withdrawn desk.nextSequence 0 order]) := by
  rw [Market.process, Market.withdraw]
  apply if_neg
  intro h
  exact h rfl

theorem process_unknown (request : CancelOrderRequest) (hlookup : desk.market.lookup orderId = none) :
    desk.market.process 0 config (.cancelOrder (desk.cancelOrderCommand request orderId)) =
      (desk.market, [rejection (.cancelOrder (desk.cancelOrderCommand request orderId)) .unknownOrder]) := by
  rw [process_cancel, hlookup]

theorem process_foreign {request : CancelOrderRequest} (hlookup : desk.market.lookup orderId = some order)
    (howner : order.clientId ≠ 1 ∨ order.clientOrderId ≠ request.clientOrderId) :
    desk.market.process 0 config (.cancelOrder (desk.cancelOrderCommand request orderId)) =
      (desk.market, [rejection (.cancelOrder (desk.cancelOrderCommand request orderId)) .notOrderOwner]) := by
  rw [process_cancel, hlookup]
  exact if_pos howner

theorem process_withdrawn {request : CancelOrderRequest} (hlookup : desk.market.lookup orderId = some order)
    (hclient : order.clientId = 1) (hclientOrder : order.clientOrderId = request.clientOrderId) :
    desk.market.process 0 config (.cancelOrder (desk.cancelOrderCommand request orderId)) =
      (desk.market.remove orderId, [Sixchange.withdrawn desk.nextSequence 0 order]) := by
  rw [process_cancel, hlookup]
  exact if_neg (not_or.mpr ⟨not_not.mpr hclient, not_not.mpr hclientOrder⟩)

theorem lookup_orderId {market : Market} (hlookup : market.lookup orderId = some order) : order.orderId = orderId := by
  simpa using List.find?_some hlookup

end Process

theorem command_newOrder {request : NewOrderRequest} (hnew : desk.clientOrders request.clientOrderId = none)
    (hsymbol : request.symbol = ascii "AAPL") :
    desk.command (.newOrder request) = .ok (.newOrder (desk.newOrderCommand request)) := by
  rw [command, hnew, Option.isSome_none, if_neg Bool.false_ne_true, if_neg (not_not.mpr hsymbol)]

theorem command_cancelOrder {request : CancelOrderRequest} {orderId : ℕ} (hsymbol : request.symbol = ascii "AAPL")
    (horder : desk.clientOrders request.clientOrderId = some orderId) :
    desk.command (.cancelOrder request) = .ok (.cancelOrder (desk.cancelOrderCommand request orderId)) := by
  rw [command, if_neg (not_not.mpr hsymbol), horder]

theorem command_unknown {request : CancelOrderRequest} (hsymbol : request.symbol = ascii "AAPL")
    (horder : desk.clientOrders request.clientOrderId = none) :
    desk.command (.cancelOrder request) = .error .unknownOrder := by
  rw [command, if_neg (not_not.mpr hsymbol), horder]

theorem Handled.eq {request : InboundMessage} {outcome : Desk × Transcript}
    (h : Handled config desk request outcome) : desk.handle config request = outcome := by
  cases h with
  | turnedAway hcommand => exact handle_error hcommand
  | refused hnew hsymbol hrefusal => exact handle_ok (command_newOrder hnew hsymbol) (process_refused hrefusal)
  | accepted hnew hsymbol hrefusal =>
    rw [handle_ok (command_newOrder hnew hsymbol) (process_accepted hrefusal), record_acceptEvents,
      answer_acceptEvents]
    rfl
  | unknown hsymbol horder hlookup =>
    exact handle_ok (command_cancelOrder hsymbol horder) (process_unknown _ hlookup)
  | foreign hsymbol horder hlookup howner =>
    exact handle_ok (command_cancelOrder hsymbol horder) (process_foreign hlookup howner)
  | @withdrawn request orderId order hsymbol horder hlookup hclient hclientOrder =>
    have hmessage : [Sixchange.withdrawn desk.nextSequence 0 order].filterMap answer =
        [OrderCancelled.message request.clientOrderId orderId] := by
      rw [← lookup_orderId hlookup, ← hclientOrder]
      rfl
    rw [handle_ok (command_cancelOrder hsymbol horder) (process_withdrawn hlookup hclient hclientOrder), hmessage]
    rfl

theorem handled_newOrder (request : NewOrderRequest) : ∃ outcome, Handled config desk (.newOrder request) outcome := by
  by_cases hdup : (desk.clientOrders request.clientOrderId).isSome
  · have hcommand : desk.command (.newOrder request) = .error .duplicateClientOrderId := if_pos hdup
    exact ⟨_, .turnedAway hcommand⟩
  by_cases hsymbol : request.symbol = ascii "AAPL"
  · have hnew : desk.clientOrders request.clientOrderId = none := by simpa using hdup
    cases hrefusal : desk.market.refusal 0 config (desk.newOrderCommand request) with
    | some reason => exact ⟨_, .refused hnew hsymbol hrefusal⟩
    | none => exact ⟨_, .accepted hnew hsymbol hrefusal⟩
  · have hcommand : desk.command (.newOrder request) = .error .unknownSymbol :=
      (if_neg hdup).trans (if_pos hsymbol)
    exact ⟨_, .turnedAway hcommand⟩

theorem handled_cancelOrder (request : CancelOrderRequest) :
    ∃ outcome, Handled config desk (.cancelOrder request) outcome := by
  by_cases hsymbol : request.symbol = ascii "AAPL"
  · cases horder : desk.clientOrders request.clientOrderId with
    | none => exact ⟨_, .turnedAway (command_unknown hsymbol horder)⟩
    | some orderId =>
      cases hlookup : desk.market.lookup orderId with
      | none => exact ⟨_, .unknown hsymbol horder hlookup⟩
      | some order =>
        by_cases howner : order.clientId ≠ 1 ∨ order.clientOrderId ≠ request.clientOrderId
        · exact ⟨_, .foreign hsymbol horder hlookup howner⟩
        · push Not at howner
          exact ⟨_, .withdrawn hsymbol horder hlookup howner.1 howner.2⟩
  · have hcommand : desk.command (.cancelOrder request) = .error .unknownSymbol := if_pos hsymbol
    exact ⟨_, .turnedAway hcommand⟩

theorem handle_cases (config : OrderBookConfig) (desk : Desk) (request : InboundMessage) :
    Handled config desk request (desk.handle config request) := by
  have hhandled : ∃ outcome, Handled config desk request outcome := by
    cases request with
    | newOrder request => exact handled_newOrder request
    | cancelOrder request => exact handled_cancelOrder request
  obtain ⟨outcome, h⟩ := hhandled
  rw [h.eq]
  exact h

end Desk

end Sixchange
