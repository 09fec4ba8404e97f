import Mathlib.Algebra.GroupWithZero.Nat
import Mathlib.Logic.Function.Basic
import Mathlib.Data.Nat.Notation

/-!
The values, commands and events of the exchange. The integer types of the program are natural
numbers; where its unsigned arithmetic can wrap, so does the arithmetic here.
-/

namespace Sixchange

def word : ℕ := 2 ^ 64

def wrapAdd (a b : ℕ) : ℕ := (a + b) % word

def wrapSub (a b : ℕ) : ℕ := (a + (word - b % word)) % word

theorem wrapAdd_mod (a b : ℕ) : wrapAdd (a % word) b = (a + b) % word := Nat.mod_add_mod a word b

theorem wrapSub_mod {a b : ℕ} (h : b ≤ a) : wrapSub (a % word) b = (a - b) % word := by
  have hw : word = 18446744073709551616 := rfl
  simp only [wrapSub, hw]
  omega

theorem wrapAdd_small {a b : ℕ} (h : a + b < word) : wrapAdd a b = a + b := Nat.mod_eq_of_lt h

theorem wrapSub_one_ne {n : ℕ} (h : n < word) : wrapSub n 1 ≠ n := by
  have hw : word = 18446744073709551616 := rfl
  have hlt : n < 18446744073709551616 := h
  rw [wrapSub, hw]
  omega

theorem wrapSub_small {a b : ℕ} (h : b ≤ a) (ha : a < word) : wrapSub a b = a - b := by
  have := wrapSub_mod h
  rwa [Nat.mod_eq_of_lt ha, Nat.mod_eq_of_lt (Nat.lt_of_le_of_lt (Nat.sub_le a b) ha)] at this

inductive Side
  | buy
  | sell
  deriving DecidableEq, Repr, Inhabited

inductive OrderType
  | limit
  | market
  deriving DecidableEq, Repr, Inhabited

inductive TimeInForce
  | gfd
  | ioc
  | fok
  deriving DecidableEq, Repr, Inhabited

inductive CommandType
  | newOrder
  | cancelOrder
  | replaceOrder
  deriving DecidableEq, Repr, Inhabited

inductive RejectReason
  | none
  | invalidMessage
  | unknownSymbol
  | invalidPrice
  | invalidQuantity
  | duplicateClientOrderId
  | unknownOrder
  | notOrderOwner
  | unsupportedOrderType
  | unsupportedTimeInForce
  | gatewayError
  | capacityExhausted
  | matchingEngineError
  deriving DecidableEq, Repr, Inhabited

structure OrderBookConfig where
  maxActiveOrders : ℕ
  priceLevelCount : ℕ
  orderLookupCapacity : ℕ
  deriving DecidableEq, Repr

def defaultOrderBookConfig : OrderBookConfig :=
  { maxActiveOrders := 262144, priceLevelCount := 100000, orderLookupCapacity := 524288 }

structure NewOrderCommand where
  seq : ℕ
  price : ℕ
  quantity : ℕ
  clientOrderId : ℕ
  clientId : ℕ
  symbolId : ℕ
  side : Side
  orderType : OrderType
  tif : TimeInForce
  deriving DecidableEq, Repr

structure CancelOrderCommand where
  seq : ℕ
  orderId : ℕ
  clientOrderId : ℕ
  clientId : ℕ
  symbolId : ℕ
  deriving DecidableEq, Repr

structure ReplaceOrderCommand where
  seq : ℕ
  newPrice : ℕ
  newQuantity : ℕ
  oldClientOrderId : ℕ
  newClientOrderId : ℕ
  clientId : ℕ
  symbolId : ℕ
  deriving DecidableEq, Repr

inductive EngineCommand
  | newOrder (command : NewOrderCommand)
  | cancelOrder (command : CancelOrderCommand)
  | replaceOrder (command : ReplaceOrderCommand)
  deriving DecidableEq, Repr

structure OrderAcceptedEvent where
  seq : ℕ
  orderId : ℕ
  clientOrderId : ℕ
  clientId : ℕ
  symbolId : ℕ
  side : Side
  orderType : OrderType
  tif : TimeInForce
  price : ℕ
  quantity : ℕ
  deriving DecidableEq, Repr

structure CommandRejectedEvent where
  seq : ℕ
  clientOrderId : ℕ
  clientId : ℕ
  symbolId : ℕ
  commandType : CommandType
  reason : RejectReason
  deriving DecidableEq, Repr

structure OrderRestedEvent where
  seq : ℕ
  orderId : ℕ
  clientOrderId : ℕ
  clientId : ℕ
  symbolId : ℕ
  side : Side
  price : ℕ
  remainingQuantity : ℕ
  deriving DecidableEq, Repr

structure TradeExecutedEvent where
  seq : ℕ
  tradeId : ℕ
  symbolId : ℕ
  price : ℕ
  quantity : ℕ
  aggressingSide : Side
  aggressingOrderId : ℕ
  aggressingClientOrderId : ℕ
  aggressingClientId : ℕ
  aggressingRemainingQuantity : ℕ
  restingOrderId : ℕ
  restingClientOrderId : ℕ
  restingClientId : ℕ
  restingRemainingQuantity : ℕ
  deriving DecidableEq, Repr

structure OrderCancelledEvent where
  seq : ℕ
  orderId : ℕ
  clientOrderId : ℕ
  clientId : ℕ
  symbolId : ℕ
  side : Side
  price : ℕ
  cancelledQuantity : ℕ
  deriving DecidableEq, Repr

structure OrderExpiredEvent where
  seq : ℕ
  orderId : ℕ
  clientOrderId : ℕ
  clientId : ℕ
  symbolId : ℕ
  expiredQuantity : ℕ
  deriving DecidableEq, Repr

structure OrderReplacedEvent where
  seq : ℕ
  orderId : ℕ
  oldClientOrderId : ℕ
  newClientOrderId : ℕ
  clientId : ℕ
  symbolId : ℕ
  newPrice : ℕ
  newQuantity : ℕ
  deriving DecidableEq, Repr

inductive EngineEvent
  | orderAccepted (event : OrderAcceptedEvent)
  | commandRejected (event : CommandRejectedEvent)
  | orderRested (event : OrderRestedEvent)
  | tradeExecuted (event : TradeExecutedEvent)
  | orderCancelled (event : OrderCancelledEvent)
  | orderExpired (event : OrderExpiredEvent)
  | orderReplaced (event : OrderReplacedEvent)
  deriving DecidableEq, Repr

/-- What stops the program instead of a result: a failed assertion (a null dereference among them),
a call of `std::terminate`, or a loop that outlives its fuel. -/
inductive Fault
  | assertion
  | terminate
  | outOfFuel
  deriving DecidableEq, Repr

def ensure (c : Prop) [Decidable c] : Except Fault Unit :=
  if c then .ok () else .error .assertion

theorem ensure_ok {c : Prop} [Decidable c] (h : c) : ensure c = .ok () := if_pos h

theorem bind_ok {ε α β : Type} {x : Except ε α} {f : α → Except ε β} {b : β} (h : x >>= f = .ok b) :
    ∃ a, x = .ok a ∧ f a = .ok b := by
  cases x with
  | error e => cases h
  | ok a => exact ⟨a, rfl, h⟩

theorem ok_bind {ε α β : Type} (a : α) (f : α → Except ε β) : (Except.ok a >>= f) = f a := rfl

end Sixchange
