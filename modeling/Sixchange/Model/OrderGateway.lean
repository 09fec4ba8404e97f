import Sixchange.Model.MatchingEngine
import Sixchange.Model.TextCodec

/-!
The gateway in front of the engine, and the loop that feeds it from lines of text. The gateway gets
the events of the engine while a command is processed; it only looks at them, so that they can be
given to it once the engine is done.
-/

namespace Sixchange

structure Sequencer where
  nextSequence : ℕ
  deriving DecidableEq, Repr

namespace Sequencer

def initial : Sequencer := { nextSequence := 1 }

def next (sequencer : Sequencer) : ℕ × Sequencer :=
  (sequencer.nextSequence, { nextSequence := wrapAdd sequencer.nextSequence 1 })

end Sequencer

structure EngineEventDispatcher (Sink : Type) where
  capacity : ℕ
  sinks : List Sink
  deriving DecidableEq, Repr

namespace EngineEventDispatcher

variable {Sink State Output : Type}

def create (capacity : ℕ) : EngineEventDispatcher Sink := { capacity, sinks := [] }

def addSink (dispatcher : EngineEventDispatcher Sink) (sink : Sink) : Bool × EngineEventDispatcher Sink :=
  if dispatcher.sinks.length = dispatcher.capacity then (false, dispatcher)
  else (true, { dispatcher with sinks := dispatcher.sinks ++ [sink] })

def onEngineEvent (emit : Sink → State → EngineEvent → Except Fault (State × List Output))
    (dispatcher : EngineEventDispatcher Sink) (state : State) (event : EngineEvent) :
    Except Fault (State × List Output) := do
  let (state, outputs) ← Transducer.run (fun state sink => emit sink state event) state dispatcher.sinks
  .ok (state, outputs.flatten)

end EngineEventDispatcher

structure OrderGateway where
  clientId : ℕ
  clientOrders : ℕ → Option ℕ

namespace OrderGateway

def create : OrderGateway := { clientId := 1, clientOrders := fun _ => none }

def resolveSymbol (symbol : Bytes) : Option ℕ := if symbol = ascii "AAPL" then some 0 else none

def onEngineEvent (gateway : OrderGateway) : EngineEvent → Except Fault (OrderGateway × List OutboundMessage)
  | .orderAccepted accepted =>
    if accepted.clientId ≠ gateway.clientId then .ok (gateway, [])
    else if (gateway.clientOrders accepted.clientOrderId).isSome then .error .terminate
    else
      .ok ({ gateway with
          clientOrders := Function.update gateway.clientOrders accepted.clientOrderId (some accepted.orderId) },
        [.orderAccepted { clientOrderId := accepted.clientOrderId, orderId := accepted.orderId }])
  | .commandRejected rejected =>
    if rejected.clientId ≠ gateway.clientId then .ok (gateway, [])
    else .ok (gateway, [.orderRejected { clientOrderId := some rejected.clientOrderId, reason := rejected.reason }])
  | .orderCancelled cancelled =>
    if cancelled.clientId ≠ gateway.clientId then .ok (gateway, [])
    else
      .ok (gateway,
        [.orderCancelled { clientOrderId := cancelled.clientOrderId, orderId := cancelled.orderId }])
  | .orderRested _ => .ok (gateway, [])
  | .tradeExecuted _ => .ok (gateway, [])
  | .orderExpired _ => .ok (gateway, [])
  | .orderReplaced _ => .ok (gateway, [])

end OrderGateway

inductive EventSink
  | gateway
  deriving DecidableEq, Repr

structure Session where
  engine : MatchingEngine
  gateway : OrderGateway
  dispatcher : EngineEventDispatcher EventSink
  sequencer : Sequencer

/-- What comes of a request: the command that the gateway submits, if any, the events that the engine
emits, and the messages that the gateway sends. -/
structure Transcript where
  command : Option EngineCommand
  events : List EngineEvent
  messages : List OutboundMessage
  deriving DecidableEq, Repr

namespace Session

def create (config : OrderBookConfig) : Option Session :=
  (MatchingEngine.create 0 config).bind fun engine =>
    match (EngineEventDispatcher.create 8).addSink EventSink.gateway with
    | (false, _) => none
    | (true, dispatcher) =>
      some { engine, gateway := OrderGateway.create, dispatcher, sequencer := Sequencer.initial }

def emit : EventSink → OrderGateway → EngineEvent → Except Fault (OrderGateway × List OutboundMessage)
  | .gateway, gateway, event => gateway.onEngineEvent event

variable (session : Session)

def process (command : EngineCommand) : Except Fault (Session × Transcript) := do
  let (engine, events) ← session.engine.process command
  let (gateway, messages) ← Transducer.run (session.dispatcher.onEngineEvent emit) session.gateway events
  .ok ({ session with engine, gateway }, { command := some command, events, messages := messages.flatten })

def reject (clientOrderId : Option ℕ) (reason : RejectReason) : Session × Transcript :=
  (session, { command := none, events := [], messages := [.orderRejected { clientOrderId, reason }] })

def handleNewOrder (request : NewOrderRequest) : Except Fault (Session × Transcript) :=
  if (session.gateway.clientOrders request.clientOrderId).isSome then
    .ok (session.reject (some request.clientOrderId) .duplicateClientOrderId)
  else
    match OrderGateway.resolveSymbol request.symbol with
    | none => .ok (session.reject (some request.clientOrderId) .unknownSymbol)
    | some symbolId =>
      let (sequenceNumber, sequencer) := session.sequencer.next
      { session with sequencer }.process (.newOrder {
        seq := sequenceNumber, price := request.price, quantity := request.quantity
        clientOrderId := request.clientOrderId, clientId := session.gateway.clientId, symbolId
        side := request.side, orderType := request.orderType, tif := request.tif })

def handleCancelOrder (request : CancelOrderRequest) : Except Fault (Session × Transcript) :=
  match OrderGateway.resolveSymbol request.symbol with
  | none => .ok (session.reject (some request.clientOrderId) .unknownSymbol)
  | some symbolId =>
    match session.gateway.clientOrders request.clientOrderId with
    | none => .ok (session.reject (some request.clientOrderId) .unknownOrder)
    | some orderId =>
      let (sequenceNumber, sequencer) := session.sequencer.next
      { session with sequencer }.process (.cancelOrder {
        seq := sequenceNumber, orderId, clientOrderId := request.clientOrderId
        clientId := session.gateway.clientId, symbolId })

def handle : InboundMessage → Except Fault (Session × Transcript)
  | .newOrder request => session.handleNewOrder request
  | .cancelOrder request => session.handleCancelOrder request

def run (requests : List InboundMessage) : Except Fault (Session × List Transcript) :=
  Transducer.run handle session requests

end Session

namespace Cli

/-- `CliOutbound::on_outbound_message`, as what it writes to the output. -/
def onOutboundMessage (message : OutboundMessage) : Bytes := TextCodec.encode message ++ ascii "\n"

def step (session : Session) (line : Bytes) : Except Fault (Session × Bytes) :=
  match TextCodec.decode line with
  | .error refusal => .ok (session, onOutboundMessage (.orderRejected refusal))
  | .ok request => do
    let (session, transcript) ← session.handle request
    .ok (session, transcript.messages.flatMap onOutboundMessage)

def run (session : Session) (lines : List Bytes) : Except Fault (Session × List Bytes) :=
  Transducer.run step session lines

end Cli

end Sixchange
