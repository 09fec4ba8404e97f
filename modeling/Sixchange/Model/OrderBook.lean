import Sixchange.Model.FixedOrderMap
import Sixchange.Model.PriceLevel

namespace Sixchange

/-- The members that `OrderBook` has once for each side: `bids_`, `best_bid_` and
`active_bid_orders_`, or `asks_`, `best_ask_` and `active_ask_orders_`. -/
structure BookSide where
  levels : ℕ → PriceLevel
  best : Option ℕ
  activeOrders : ℕ

structure OrderBook where
  symbolId : ℕ
  config : OrderBookConfig
  orders : OrderPool
  ordersById : FixedOrderMap ℕ Slot
  sides : Side → BookSide
  executionCount : ℕ

structure NewOrderOutcome where
  remainingQuantity : ℕ
  rested : Bool
  deriving DecidableEq, Repr

structure CancelledOrder where
  orderId : ℕ
  clientOrderId : ℕ
  clientId : ℕ
  symbolId : ℕ
  side : Side
  price : ℕ
  cancelledQuantity : ℕ
  deriving DecidableEq, Repr

structure MatchExecution where
  seq : ℕ
  symbolId : ℕ
  aggressingSide : Side
  price : ℕ
  quantity : ℕ
  aggressingOrderId : ℕ
  aggressingClientOrderId : ℕ
  aggressingClientId : ℕ
  aggressingRemainingQuantity : ℕ
  restingOrderId : ℕ
  restingClientOrderId : ℕ
  restingClientId : ℕ
  restingRemainingQuantity : ℕ
  deriving DecidableEq, Repr

namespace OrderBook

def create (symbolId : ℕ) (config : OrderBookConfig) : Option OrderBook :=
  match FixedOrderMap.create config.orderLookupCapacity with
  | none => none
  | some ordersById =>
    if config.maxActiveOrders = 0 ∨ config.priceLevelCount = 0 ∨
        config.orderLookupCapacity < config.maxActiveOrders ∨
        config.orderLookupCapacity &&& (config.orderLookupCapacity - 1) ≠ 0 then none
    else some {
      symbolId, config, ordersById
      orders := .create config.maxActiveOrders
      sides := fun _ => { levels := fun index => { price := index }, best := none, activeOrders := 0 }
      executionCount := 0 }

variable (book : OrderBook)

def order (order : Slot) : Order := book.orders.orders order

def level (side : Side) (index : ℕ) : PriceLevel := (book.sides side).levels index

def bestBid : Option ℕ := (book.sides .buy).best

def bestAsk : Option ℕ := (book.sides .sell).best

def bucket (key : ℕ) : ℕ := FixedOrderMap.mixBucket book.ordersById.mask key

def setOrders (orders : Slot → Order) : OrderBook :=
  { book with orders := { book.orders with orders } }

def setLevel (side : Side) (index : ℕ) (level : PriceLevel) : OrderBook :=
  { book with sides := Function.update book.sides side { book.sides side with
      levels := Function.update (book.sides side).levels index level } }

def setBest (side : Side) (best : Option ℕ) : OrderBook :=
  { book with sides := Function.update book.sides side { book.sides side with best } }

def setActiveOrders (side : Side) (activeOrders : ℕ) : OrderBook :=
  { book with sides := Function.update book.sides side { book.sides side with activeOrders } }

def pushBack (side : Side) (index : ℕ) (order : Slot) : OrderBook :=
  let (level, orders) := (book.level side index).pushBack book.orders.orders order
  (book.setLevel side index level).setOrders orders

def removeFromLevel (side : Side) (index : ℕ) (order : Slot) : OrderBook :=
  let (level, orders) := (book.level side index).remove book.orders.orders order
  (book.setLevel side index level).setOrders orders

/-- `OrderBook::admit` -/
def admitOrder (command : NewOrderCommand) (orderId : ℕ) : OrderBook × Except RejectReason Slot :=
  if command.symbolId ≠ book.symbolId then (book, .error .unknownSymbol)
  else if command.quantity = 0 then (book, .error .invalidQuantity)
  else if book.config.priceLevelCount ≤ command.price then (book, .error .invalidPrice)
  else
    match book.orders.allocate with
    | (none, pool) => ({ book with orders := pool }, .error .capacityExhausted)
    | (some order, pool) =>
      let pool := { pool with orders := modify pool.orders order fun o => { o with
        orderId, clientOrderId := command.clientOrderId, clientId := command.clientId
        symbolId := command.symbolId, side := command.side, price := command.price
        remainingQuantity := command.quantity, seq := command.seq, active := true } }
      match book.ordersById.insert book.bucket orderId order with
      | (.inserted, ordersById) => ({ book with orders := pool, ordersById }, .ok order)
      | (.duplicateKey, ordersById) =>
        ({ book with orders := pool.release order, ordersById }, .error .matchingEngineError)
      | (.full, ordersById) =>
        ({ book with orders := pool.release order, ordersById }, .error .capacityExhausted)

/-- The loop of `update_best_bid_after_removal`. -/
def scanDown (levels : ℕ → PriceLevel) : ℕ → Option ℕ
  | 0 => none
  | candidate + 1 => if (levels candidate).empty then scanDown levels candidate else some candidate

/-- The loop of `update_best_ask_after_removal`; the first argument counts the levels left. -/
def scanUp (levels : ℕ → PriceLevel) : ℕ → ℕ → Option ℕ
  | 0, _ => none
  | left + 1, candidate =>
    if (levels candidate).empty then scanUp levels left (candidate + 1) else some candidate

def updateBestBidAfterRemoval (removedIndex : ℕ) : OrderBook :=
  if (book.sides .buy).activeOrders = 0 then book.setBest .buy none
  else book.setBest .buy (scanDown (book.sides .buy).levels removedIndex)

def updateBestAskAfterRemoval (removedIndex : ℕ) : OrderBook :=
  if (book.sides .sell).activeOrders = 0 then book.setBest .sell none
  else book.setBest .sell (scanUp (book.sides .sell).levels
    (book.config.priceLevelCount - (removedIndex + 1)) (removedIndex + 1))

/-- What both branches of `rest` do, on the side and with the comparison of the branch. -/
def restOn (side : Side) (better : ℕ → ℕ → Bool) (order : Slot) : OrderBook :=
  let index := (book.order order).price
  let book := book.pushBack side index order
  let book := book.setActiveOrders side (wrapAdd (book.sides side).activeOrders 1)
  match (book.sides side).best with
  | none => book.setBest side (some index)
  | some best => if better index best then book.setBest side (some index) else book

def rest (order : Slot) : Except Fault OrderBook := do
  ensure (0 < (book.order order).remainingQuantity)
  ensure ((book.order order).symbolId = book.symbolId)
  match (book.order order).side with
  | .buy => .ok (book.restOn .buy (fun index best => best < index) order)
  | .sell => .ok (book.restOn .sell (fun index best => index < best) order)

def applyFill (side : Side) (levelIndex : ℕ) (aggressor resting : Slot) (executedQuantity : ℕ) : OrderBook :=
  let level := book.level side levelIndex
  let book := book.setLevel side levelIndex
    { level with totalQuantity := wrapSub level.totalQuantity executedQuantity }
  let book := book.setOrders (modify book.orders.orders aggressor fun o =>
    { o with remainingQuantity := o.remainingQuantity - executedQuantity })
  book.setOrders (modify book.orders.orders resting fun o =>
    { o with remainingQuantity := o.remainingQuantity - executedQuantity })

def removeFilled (side : Side) (updateBest : OrderBook → ℕ → OrderBook) (levelIndex : ℕ) (resting : Slot) :
    Except Fault OrderBook := do
  let book := book.removeFromLevel side levelIndex resting
  let (erased, ordersById) := book.ordersById.erase book.bucket (book.order resting).orderId
  ensure (erased = true)
  let book := { book with ordersById }
  let book := book.setActiveOrders side (wrapSub (book.sides side).activeOrders 1)
  let book := { book with orders := book.orders.release resting }
  if (book.level side levelIndex).empty then .ok (updateBest book levelIndex) else .ok book

def matchFront (side : Side) (updateBest : OrderBook → ℕ → OrderBook) (aggressor : Slot)
    (levelIndex : ℕ) : Except Fault (OrderBook × MatchExecution) :=
  match (book.level side levelIndex).front with
  | none => .error .assertion
  | some resting => do
    ensure ((book.order resting).side = side)
    let executedQuantity :=
      min (book.order aggressor).remainingQuantity (book.order resting).remainingQuantity
    let book := { book with executionCount := wrapAdd book.executionCount 1 }
    let executionPrice := (book.order resting).price
    let book := book.applyFill side levelIndex aggressor resting executedQuantity
    let execution : MatchExecution := {
      seq := (book.order aggressor).seq
      symbolId := (book.order aggressor).symbolId
      aggressingSide := (book.order aggressor).side
      price := executionPrice
      quantity := executedQuantity
      aggressingOrderId := (book.order aggressor).orderId
      aggressingClientOrderId := (book.order aggressor).clientOrderId
      aggressingClientId := (book.order aggressor).clientId
      aggressingRemainingQuantity := (book.order aggressor).remainingQuantity
      restingOrderId := (book.order resting).orderId
      restingClientOrderId := (book.order resting).clientOrderId
      restingClientId := (book.order resting).clientId
      restingRemainingQuantity := (book.order resting).remainingQuantity }
    if (book.order resting).remainingQuantity = 0 then do
      let book ← book.removeFilled side updateBest levelIndex resting
      .ok (book, execution)
    else .ok (book, execution)

def crossing (side : Side) (crosses : ℕ → ℕ → Bool) (aggressor : Slot) : Option ℕ :=
  if 0 < (book.order aggressor).remainingQuantity then
    (book.sides side).best.filter (crosses (book.order aggressor).price)
  else none

def matchLoop (side : Side) (crosses : ℕ → ℕ → Bool) (updateBest : OrderBook → ℕ → OrderBook)
    (aggressor : Slot) : ℕ → OrderBook → Except Fault (OrderBook × List MatchExecution)
  | fuel, book =>
    match book.crossing side crosses aggressor, fuel with
    | none, _ => .ok (book, [])
    | some _, 0 => .error .outOfFuel
    | some levelIndex, fuel + 1 => do
      let (book, execution) ← book.matchFront side updateBest aggressor levelIndex
      let (book, executions) ← matchLoop side crosses updateBest aggressor fuel book
      .ok (book, execution :: executions)

/-- An iteration fills at least one unit, so the quantity is fuel enough. -/
def matchBuy (aggressor : Slot) : Except Fault (OrderBook × List MatchExecution) :=
  matchLoop .sell (fun price best => best ≤ price) updateBestAskAfterRemoval aggressor
    (book.order aggressor).remainingQuantity book

def matchSell (aggressor : Slot) : Except Fault (OrderBook × List MatchExecution) :=
  matchLoop .buy (fun price best => price ≤ best) updateBestBidAfterRemoval aggressor
    (book.order aggressor).remainingQuantity book

def matchOrder (aggressor : Slot) : Except Fault (OrderBook × List MatchExecution) :=
  match (book.order aggressor).side with
  | .buy => book.matchBuy aggressor
  | .sell => book.matchSell aggressor

def execute (aggressor : Slot) : Except Fault (OrderBook × List MatchExecution × NewOrderOutcome) := do
  ensure ((book.order aggressor).active = true)
  let (book, executions) ← book.matchOrder aggressor
  let remaining := (book.order aggressor).remainingQuantity
  if 0 < remaining then do
    let book ← book.rest aggressor
    .ok (book, executions, { remainingQuantity := remaining, rested := true })
  else do
    let (erased, ordersById) := book.ordersById.erase book.bucket (book.order aggressor).orderId
    ensure (erased = true)
    let book := { book with ordersById, orders := book.orders.release aggressor }
    .ok (book, executions, { remainingQuantity := 0, rested := false })

def unlinkFrom (side : Side) (updateBest : OrderBook → ℕ → OrderBook) (order : Slot) : OrderBook :=
  let index := (book.order order).price
  let book := book.removeFromLevel side index order
  let book := book.setActiveOrders side (wrapSub (book.sides side).activeOrders 1)
  if (book.sides side).best = some index ∧ (book.level side index).empty then updateBest book index
  else book

def unlink (order : Slot) : OrderBook :=
  match (book.order order).side with
  | .buy => book.unlinkFrom .buy updateBestBidAfterRemoval order
  | .sell => book.unlinkFrom .sell updateBestAskAfterRemoval order

def cancel (command : CancelOrderCommand) : OrderBook × Except RejectReason CancelledOrder :=
  if command.symbolId ≠ book.symbolId then (book, .error .unknownSymbol)
  else
    match book.ordersById.find book.bucket command.orderId with
    | none => (book, .error .unknownOrder)
    | some order =>
      if (book.order order).clientId ≠ command.clientId ∨
          (book.order order).clientOrderId ≠ command.clientOrderId then
        (book, .error .notOrderOwner)
      else
        let book := book.unlink order
        match book.ordersById.erase book.bucket command.orderId with
        | (false, ordersById) => ({ book with ordersById }, .error .matchingEngineError)
        | (true, ordersById) =>
          let cancelled : CancelledOrder := {
            orderId := (book.order order).orderId
            clientOrderId := (book.order order).clientOrderId
            clientId := (book.order order).clientId
            symbolId := (book.order order).symbolId
            side := (book.order order).side
            price := (book.order order).price
            cancelledQuantity := (book.order order).remainingQuantity }
          ({ book with ordersById, orders := book.orders.release order }, .ok cancelled)

end OrderBook

end Sixchange
