import Sixchange.Model.LogFile
import Sixchange.Model.Program

/-!
The calls of the log macros at the level of the program's logger, `Warning`, and above it. A call below that level
leaves nothing in the log.
-/

namespace Sixchange

/-- What `std::source_location` calls the functions that log. -/
structure FunctionNames where
  admitOrder : Bytes
  execute : Bytes
  cancel : Bytes
  onEngineEvent : Bytes

def LogCall.ofNumbers (level : LogLevel) (functionName format : Bytes) (numbers : List ℕ)
    (hle : numbers.length ≤ maximumLogArguments) : LogCall where
  level := level
  functionName := functionName
  format := format
  arguments := numbers.map fun n => .unsigned (.ofNat n)
  arguments_le := by rwa [List.length_map]

variable (names : FunctionNames)

namespace OrderBook

def poolExhausted (seq orderId capacity : ℕ) : LogCall :=
  .ofNumbers .warning names.admitOrder (ascii "Order pool exhausted sequence={}, order_id={}, capacity={}")
    [seq, orderId, capacity] (Nat.le_of_ble_eq_true rfl)

def duplicateOrderId (seq orderId : ℕ) : LogCall :=
  .ofNumbers .error names.admitOrder (ascii "Duplicate engine order ID sequence={}, order_id={}") [seq, orderId]
    (Nat.le_of_ble_eq_true rfl)

def lookupExhausted (seq orderId capacity : ℕ) : LogCall :=
  .ofNumbers .warning names.admitOrder (ascii "Order lookup map exhausted sequence={}, order_id={}, capacity={}")
    [seq, orderId, capacity] (Nat.le_of_ble_eq_true rfl)

def aggressorEraseFailed (orderId : ℕ) : LogCall :=
  .ofNumbers .critical names.execute (ascii "Aggressing order lookup erase failed after full fill order_id={}")
    [orderId] (Nat.le_of_ble_eq_true rfl)

def cancelEraseFailed (seq orderId : ℕ) : LogCall :=
  .ofNumbers .critical names.cancel
    (ascii "Order lookup erase failed after price-level removal sequence={}, order_id={}") [seq, orderId]
    (Nat.le_of_ble_eq_true rfl)

variable (book : OrderBook)

def admitWarnings (command : NewOrderCommand) (orderId : ℕ) : List LogCall :=
  if command.symbolId ≠ book.symbolId then []
  else if command.quantity = 0 then []
  else if book.config.priceLevelCount ≤ command.price then []
  else
    match book.orders.allocate with
    | (none, pool) => [poolExhausted names command.seq orderId pool.capacity]
    | (some order, _) =>
      match book.ordersById.insert book.bucket orderId order with
      | (.inserted, _) => []
      | (.duplicateKey, _) => [duplicateOrderId names command.seq orderId]
      | (.full, ordersById) => [lookupExhausted names command.seq orderId ordersById.capacity]

def executeWarnings (aggressor : Slot) : List LogCall :=
  match book.matchOrder aggressor with
  | .error _ => []
  | .ok (book, _) =>
    if 0 < (book.order aggressor).remainingQuantity then []
    else if (book.ordersById.erase book.bucket (book.order aggressor).orderId).1 then []
    else [aggressorEraseFailed names (book.order aggressor).orderId]

def cancelWarnings (command : CancelOrderCommand) : List LogCall :=
  if command.symbolId ≠ book.symbolId then []
  else
    match book.ordersById.find book.bucket command.orderId with
    | none => []
    | some order =>
      if (book.order order).clientId ≠ command.clientId ∨
          (book.order order).clientOrderId ≠ command.clientOrderId then
        []
      else
        let book := book.unlink order
        if (book.ordersById.erase book.bucket command.orderId).1 then []
        else [cancelEraseFailed names command.seq command.orderId]

end OrderBook

namespace OrderGateway

def alreadyMapped (clientOrderId orderId : ℕ) : LogCall :=
  .ofNumbers .critical names.onEngineEvent
    (ascii "Accepted order already exists in gateway mapping client_order_id={}, order_id={}")
    [clientOrderId, orderId] (Nat.le_of_ble_eq_true rfl)

def eventWarnings (gateway : OrderGateway) : EngineEvent → List LogCall
  | .orderAccepted accepted =>
    if accepted.clientId ≠ gateway.clientId then []
    else if (gateway.clientOrders accepted.clientOrderId).isSome then
      [alreadyMapped names accepted.clientOrderId accepted.orderId]
    else []
  | _ => []

end OrderGateway

namespace Session

variable (session : Session)

/-- The order is executed only after the gateway has been told that it is accepted. -/
def newOrderWarnings (command : NewOrderCommand) : List LogCall :=
  if command.orderType ≠ .limit then []
  else if command.tif ≠ .gfd then []
  else
    let orderId := session.engine.nextOrderId
    session.engine.orderBook.admitWarnings names command orderId ++
      match session.engine.orderBook.admitOrder command orderId with
      | (_, .error _) => []
      | (orderBook, .ok order) =>
        session.gateway.eventWarnings names (.orderAccepted {
          seq := command.seq, orderId, clientOrderId := command.clientOrderId
          clientId := command.clientId, symbolId := command.symbolId, side := command.side
          orderType := command.orderType, tif := command.tif, price := command.price
          quantity := command.quantity }) ++ orderBook.executeWarnings names order

def processWarnings : EngineCommand → List LogCall
  | .newOrder command => session.newOrderWarnings names command
  | .cancelOrder command => session.engine.orderBook.cancelWarnings names command
  | .replaceOrder _ => []

def handleWarnings : InboundMessage → List LogCall
  | .newOrder request =>
    if (session.gateway.clientOrders request.clientOrderId).isSome then []
    else
      match OrderGateway.resolveSymbol request.symbol with
      | none => []
      | some symbolId =>
        session.processWarnings names (.newOrder {
          seq := session.sequencer.next.1, price := request.price, quantity := request.quantity
          clientOrderId := request.clientOrderId, clientId := session.gateway.clientId, symbolId
          side := request.side, orderType := request.orderType, tif := request.tif })
  | .cancelOrder request =>
    match OrderGateway.resolveSymbol request.symbol with
    | none => []
    | some symbolId =>
      match session.gateway.clientOrders request.clientOrderId with
      | none => []
      | some orderId =>
        session.processWarnings names (.cancelOrder {
          seq := session.sequencer.next.1, orderId, clientOrderId := request.clientOrderId
          clientId := session.gateway.clientId, symbolId })

end Session

namespace Cli

def stepWarnings (session : Session) (line : Bytes) : List LogCall :=
  match TextCodec.decode line with
  | .error _ => []
  | .ok request => session.handleWarnings names request

def runWarnings (session : Session) : List Bytes → List LogCall
  | [] => []
  | line :: lines =>
    stepWarnings names session line ++
      match step session line with
      | .error _ => []
      | .ok (session, _) => runWarnings session lines

def mainRecords (config : OrderBookConfig) (input : Bytes) : List LogRecord :=
  match Session.create config with
  | none => []
  | some session => (runWarnings names session (getLines input)).filterMap (AsyncFileLogger.enqueue .warning)

end Cli

end Sixchange
