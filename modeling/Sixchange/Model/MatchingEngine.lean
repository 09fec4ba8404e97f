import Sixchange.Model.OrderBook
import Sixchange.Theory.Transducer

namespace Sixchange

/-- The event sink does not call back into the engine, so that the engine only hands it events: every
function returns the events it emits, in order. -/
structure MatchingEngine where
  orderBook : OrderBook
  nextOrderId : ℕ
  nextTradeId : ℕ

namespace MatchingEngine

def create (symbolId : ℕ) (config : OrderBookConfig) : Option MatchingEngine :=
  (OrderBook.create symbolId config).map fun orderBook => { orderBook, nextOrderId := 1, nextTradeId := 1 }

def rejection (seq : ℕ) (clientOrderId : ℕ) (clientId : ℕ)
    (symbolId : ℕ) (commandType : CommandType) (reason : RejectReason) : EngineEvent :=
  .commandRejected { seq, clientOrderId, clientId, symbolId, commandType, reason }

variable (engine : MatchingEngine)

def onMatch (execution : MatchExecution) : MatchingEngine × EngineEvent :=
  ({ engine with nextTradeId := wrapAdd engine.nextTradeId 1 },
    .tradeExecuted {
      seq := execution.seq
      tradeId := engine.nextTradeId
      symbolId := execution.symbolId
      price := execution.price
      quantity := execution.quantity
      aggressingSide := execution.aggressingSide
      aggressingOrderId := execution.aggressingOrderId
      aggressingClientOrderId := execution.aggressingClientOrderId
      aggressingClientId := execution.aggressingClientId
      aggressingRemainingQuantity := execution.aggressingRemainingQuantity
      restingOrderId := execution.restingOrderId
      restingClientOrderId := execution.restingClientOrderId
      restingClientId := execution.restingClientId
      restingRemainingQuantity := execution.restingRemainingQuantity })

def processNewOrder (command : NewOrderCommand) : Except Fault (MatchingEngine × List EngineEvent) :=
  let reject (reason : RejectReason) : EngineEvent :=
    rejection command.seq command.clientOrderId command.clientId command.symbolId .newOrder reason
  if command.orderType ≠ .limit then .ok (engine, [reject .unsupportedOrderType])
  else if command.tif ≠ .gfd then .ok (engine, [reject .unsupportedTimeInForce])
  else
    let orderId := engine.nextOrderId
    match engine.orderBook.admitOrder command orderId with
    | (orderBook, .error reason) => .ok ({ engine with orderBook }, [reject reason])
    | (orderBook, .ok order) => do
      let engine := { engine with orderBook, nextOrderId := wrapAdd engine.nextOrderId 1 }
      let accepted : EngineEvent := .orderAccepted {
        seq := command.seq, orderId, clientOrderId := command.clientOrderId
        clientId := command.clientId, symbolId := command.symbolId, side := command.side
        orderType := command.orderType, tif := command.tif, price := command.price
        quantity := command.quantity }
      let (orderBook, executions, outcome) ← engine.orderBook.execute order
      -- the loop hands every execution to `on_match` as it happens; only `next_trade_id_` depends on it
      let (engine, trades) := Transducer.trace onMatch { engine with orderBook } executions
      let rested : List EngineEvent :=
        if outcome.rested then [.orderRested {
          seq := command.seq, orderId, clientOrderId := command.clientOrderId
          clientId := command.clientId, symbolId := command.symbolId, side := command.side
          price := command.price, remainingQuantity := outcome.remainingQuantity }]
        else []
      .ok (engine, accepted :: (trades ++ rested))

def processCancelOrder (command : CancelOrderCommand) : MatchingEngine × List EngineEvent :=
  match engine.orderBook.cancel command with
  | (orderBook, .error reason) => ({ engine with orderBook },
      [rejection command.seq command.clientOrderId command.clientId command.symbolId .cancelOrder reason])
  | (orderBook, .ok cancelled) => ({ engine with orderBook },
      [.orderCancelled {
        seq := command.seq, orderId := cancelled.orderId, clientOrderId := cancelled.clientOrderId
        clientId := cancelled.clientId, symbolId := cancelled.symbolId, side := cancelled.side
        price := cancelled.price, cancelledQuantity := cancelled.cancelledQuantity }])

def process : EngineCommand → Except Fault (MatchingEngine × List EngineEvent)
  | .newOrder command => engine.processNewOrder command
  | .cancelOrder command => .ok (engine.processCancelOrder command)
  | .replaceOrder command => .ok (engine, [rejection command.seq command.oldClientOrderId
      command.clientId command.symbolId .replaceOrder .matchingEngineError])

def executionCount : ℕ := engine.orderBook.executionCount

def run (commands : List EngineCommand) : Except Fault (MatchingEngine × List (List EngineEvent)) :=
  Transducer.run process engine commands

end MatchingEngine

end Sixchange
