import Sixchange.Market.Sweep

namespace Sixchange

open PriorityList

def settle (book : Side → List RestingOrder) (order : RestingOrder) (s : Swept) : Side → List RestingOrder :=
  let swept := Function.update book order.side.opposite s.resting
  if 0 < s.unfilled then
    Function.update swept order.side (enqueue order.side.better RestingOrder.price
      { order with remainingQuantity := s.unfilled } (book order.side))
  else swept

section Settle

variable {book : Side → List RestingOrder} (order : RestingOrder) {s : Swept}

theorem settle_opposite : settle book order s order.side.opposite = s.resting := by
  rw [settle]
  split_ifs
  · rw [Function.update_of_ne (Side.opposite_ne _), Function.update_self]
  · rw [Function.update_self]

theorem settle_side : settle book order s order.side =
    if 0 < s.unfilled then
      enqueue order.side.better RestingOrder.price { order with remainingQuantity := s.unfilled }
        (book order.side)
    else book order.side := by
  rw [settle]
  split_ifs
  · rw [Function.update_self]
  · rw [Function.update_of_ne (Side.opposite_ne _).symm]

theorem eq_settle {book' : Side → List RestingOrder} (hopposite : book' order.side.opposite = s.resting)
    (hside : book' order.side = settle book order s order.side) : book' = settle book order s := by
  funext sd
  rcases Side.eq_or_opposite order.side sd with rfl | rfl
  · exact hside
  · rw [hopposite, settle_opposite]

end Settle

def admitError (symbolId : ℕ) (config : OrderBookConfig) (ids : List ℕ) (orderId : ℕ)
    (command : NewOrderCommand) : Option RejectReason :=
  if command.symbolId ≠ symbolId then some .unknownSymbol
  else if command.quantity = 0 then some .invalidQuantity
  else if config.priceLevelCount ≤ command.price then some .invalidPrice
  else if ids.length = config.maxActiveOrders then some .capacityExhausted
  else if orderId ∈ ids then some .matchingEngineError
  else none

theorem admitError_none {symbolId : ℕ} {config : OrderBookConfig} {ids : List ℕ} {orderId : ℕ}
    {command : NewOrderCommand} :
    admitError symbolId config ids orderId command = none ↔
      command.symbolId = symbolId ∧ command.quantity ≠ 0 ∧ command.price < config.priceLevelCount ∧
        ids.length ≠ config.maxActiveOrders ∧ orderId ∉ ids := by
  simp only [admitError]
  split_ifs <;> simp_all

def rejection (command : EngineCommand) (reason : RejectReason) : EngineEvent :=
  .commandRejected (match command with
    | .newOrder c => { seq := c.seq, clientOrderId := c.clientOrderId, clientId := c.clientId
                       symbolId := c.symbolId, commandType := .newOrder, reason }
    | .cancelOrder c => { seq := c.seq, clientOrderId := c.clientOrderId, clientId := c.clientId
                          symbolId := c.symbolId, commandType := .cancelOrder, reason }
    | .replaceOrder c => { seq := c.seq, clientOrderId := c.oldClientOrderId, clientId := c.clientId
                           symbolId := c.symbolId, commandType := .replaceOrder, reason })

section Events

variable (command : NewOrderCommand) (orderId : ℕ)

def incoming : RestingOrder :=
  { orderId, clientOrderId := command.clientOrderId, clientId := command.clientId, side := command.side
    price := command.price, remainingQuantity := command.quantity }

def accepted : EngineEvent :=
  .orderAccepted {
    seq := command.seq, orderId, clientOrderId := command.clientOrderId, clientId := command.clientId
    symbolId := command.symbolId, side := command.side, orderType := command.orderType, tif := command.tif
    price := command.price, quantity := command.quantity }

def traded (tradeId : ℕ) (fill : Fill) : EngineEvent :=
  .tradeExecuted {
    seq := command.seq, tradeId, symbolId := command.symbolId, price := fill.resting.price
    quantity := fill.quantity, aggressingSide := command.side, aggressingOrderId := orderId
    aggressingClientOrderId := command.clientOrderId, aggressingClientId := command.clientId
    aggressingRemainingQuantity := fill.aggressingRemaining, restingOrderId := fill.resting.orderId
    restingClientOrderId := fill.resting.clientOrderId, restingClientId := fill.resting.clientId
    restingRemainingQuantity := fill.restingRemaining }

def rested (remainingQuantity : ℕ) : EngineEvent :=
  .orderRested {
    seq := command.seq, orderId, clientOrderId := command.clientOrderId, clientId := command.clientId
    symbolId := command.symbolId, side := command.side, price := command.price, remainingQuantity }

def tradeEvents : ℕ → List Fill → List EngineEvent
  | _, [] => []
  | trades, fill :: fills =>
    traded command orderId ((trades + 1) % word) fill :: tradeEvents (trades + 1) fills

end Events

def withdrawn (seq : ℕ) (symbolId : ℕ) (order : RestingOrder) : EngineEvent :=
  .orderCancelled {
    seq, orderId := order.orderId, clientOrderId := order.clientOrderId, clientId := order.clientId
    symbolId, side := order.side, price := order.price, cancelledQuantity := order.remainingQuantity }

/-- The exchange without its memory: both sides in priority order, and how much has happened. -/
structure Market where
  book : Side → List RestingOrder
  accepted : ℕ
  trades : ℕ

namespace Market

def empty : Market := { book := fun _ => [], accepted := 0, trades := 0 }

variable (symbolId : ℕ) (config : OrderBookConfig) (market : Market)

def resting : List RestingOrder := market.book .buy ++ market.book .sell

def ids : List ℕ := market.resting.map RestingOrder.orderId

def nextId : ℕ := (market.accepted + 1) % word

def refusal (command : NewOrderCommand) : Option RejectReason :=
  if command.orderType ≠ .limit then some .unsupportedOrderType
  else if command.tif ≠ .gfd then some .unsupportedTimeInForce
  else admitError symbolId config market.ids market.nextId command

def swept (command : NewOrderCommand) : Swept :=
  sweep (command.side.opposite.crosses command.price) command.quantity (market.book command.side.opposite)

def accept (command : NewOrderCommand) : Market where
  book := settle market.book (incoming command market.nextId) (market.swept command)
  accepted := market.accepted + 1
  trades := market.trades + (market.swept command).fills.length

def acceptEvents (command : NewOrderCommand) : List EngineEvent :=
  Sixchange.accepted command market.nextId ::
    (tradeEvents command market.nextId market.trades (market.swept command).fills ++
      if 0 < (market.swept command).unfilled then
        [rested command market.nextId (market.swept command).unfilled]
      else [])

def submit (command : NewOrderCommand) : Market × List EngineEvent :=
  match market.refusal symbolId config command with
  | some reason => (market, [rejection (.newOrder command) reason])
  | none => (market.accept command, market.acceptEvents command)

def lookup (orderId : ℕ) : Option RestingOrder := market.resting.find? (·.orderId = orderId)

def remove (orderId : ℕ) : Market :=
  { market with book := fun sd => (market.book sd).filter (·.orderId ≠ orderId) }

def withdraw (command : CancelOrderCommand) : Market × List EngineEvent :=
  if command.symbolId ≠ symbolId then (market, [rejection (.cancelOrder command) .unknownSymbol])
  else
    match market.lookup command.orderId with
    | none => (market, [rejection (.cancelOrder command) .unknownOrder])
    | some order =>
      if order.clientId ≠ command.clientId ∨ order.clientOrderId ≠ command.clientOrderId then
        (market, [rejection (.cancelOrder command) .notOrderOwner])
      else (market.remove command.orderId, [withdrawn command.seq symbolId order])

def process : EngineCommand → Market × List EngineEvent
  | .newOrder command => market.submit symbolId config command
  | .cancelOrder command => market.withdraw symbolId command
  | .replaceOrder command => (market, [rejection (.replaceOrder command) .matchingEngineError])

theorem withdraw_cases (command : CancelOrderCommand) :
    (∃ reason, market.withdraw symbolId command = (market, [rejection (.cancelOrder command) reason])) ∨
    (∃ order, command.symbolId = symbolId ∧ market.lookup command.orderId = some order ∧
      order.clientId = command.clientId ∧ order.clientOrderId = command.clientOrderId ∧
      market.withdraw symbolId command =
        (market.remove command.orderId, [withdrawn command.seq symbolId order])) := by
  unfold withdraw
  split_ifs with hs
  · exact .inl ⟨_, rfl⟩
  · cases hlookup : market.lookup command.orderId with
    | none => exact .inl ⟨_, rfl⟩
    | some order =>
      dsimp only
      split_ifs with howner
      · exact .inl ⟨_, rfl⟩
      · push Not at howner hs
        exact .inr ⟨order, hs, rfl, howner.1, howner.2, rfl⟩

end Market

end Sixchange
