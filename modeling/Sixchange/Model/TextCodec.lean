import Sixchange.Model.Core
import Mathlib.Data.Nat.Digits.Defs

/-!
The messages between a client and the gateway, and the text they are read from and written to. A
`std::string_view` is the list of its bytes.
-/

namespace Sixchange

abbrev Bytes := List UInt8

def ascii (s : String) : Bytes := s.toList.map fun c => c.toNat.toUInt8

structure NewOrderRequest where
  clientOrderId : ℕ
  symbol : Bytes
  side : Side
  orderType : OrderType
  tif : TimeInForce
  price : ℕ
  quantity : ℕ
  deriving DecidableEq, Repr

structure CancelOrderRequest where
  clientOrderId : ℕ
  symbol : Bytes
  deriving DecidableEq, Repr

structure OrderAccepted where
  clientOrderId : ℕ
  orderId : ℕ
  deriving DecidableEq, Repr

structure OrderCancelled where
  clientOrderId : ℕ
  orderId : ℕ
  deriving DecidableEq, Repr

structure OrderRejected where
  clientOrderId : Option ℕ
  reason : RejectReason
  deriving DecidableEq, Repr

inductive InboundMessage
  | newOrder (request : NewOrderRequest)
  | cancelOrder (request : CancelOrderRequest)
  deriving DecidableEq, Repr

inductive OutboundMessage
  | orderAccepted (message : OrderAccepted)
  | orderCancelled (message : OrderCancelled)
  | orderRejected (message : OrderRejected)
  deriving DecidableEq, Repr

def RejectReason.name : RejectReason → String
  | .none => "NONE"
  | .invalidMessage => "INVALID_MESSAGE"
  | .unknownSymbol => "UNKNOWN_SYMBOL"
  | .invalidPrice => "INVALID_PRICE"
  | .invalidQuantity => "INVALID_QUANTITY"
  | .duplicateClientOrderId => "DUPLICATE_CLIENT_ORDER_ID"
  | .unknownOrder => "UNKNOWN_ORDER"
  | .notOrderOwner => "NOT_ORDER_OWNER"
  | .unsupportedOrderType => "UNSUPPORTED_ORDER_TYPE"
  | .unsupportedTimeInForce => "UNSUPPORTED_TIME_IN_FORCE"
  | .gatewayError => "GATEWAY_ERROR"
  | .capacityExhausted => "CAPACITY_EXHAUSTED"
  | .matchingEngineError => "MATCHING_ENGINE_ERROR"

structure TokenCursor where
  remaining : Bytes
  deriving DecidableEq, Repr

namespace TokenCursor

def isBlank (b : UInt8) : Bool := b = 32 ∨ b = 9

variable (tokens : TokenCursor)

def skipWhitespace : TokenCursor := ⟨tokens.remaining.dropWhile isBlank⟩

def next : Option Bytes × TokenCursor :=
  let tokens := tokens.skipWhitespace
  if tokens.remaining.isEmpty then (none, tokens)
  else (some (tokens.remaining.takeWhile (! isBlank ·)), ⟨tokens.remaining.dropWhile (! isBlank ·)⟩)

def empty : Bool := tokens.skipWhitespace.remaining.isEmpty

end TokenCursor

namespace TextCodec

def maxMessageLength : ℕ := 256

abbrev DecodeResult := Except OrderRejected InboundMessage

def isDigit (b : UInt8) : Bool := 48 ≤ b ∧ b ≤ 57

def decimalValue (digits : Bytes) : ℕ := digits.foldl (fun n b => 10 * n + (b.toNat - 48)) 0

/-- `std::from_chars` into an unsigned 64-bit integer: the value, if there is one and it fits, and what
follows the digits. -/
def fromChars (token : Bytes) : Option ℕ × Bytes :=
  let digits := token.takeWhile isDigit
  (if digits.isEmpty ∨ word ≤ decimalValue digits then none else some (decimalValue digits),
    token.dropWhile isDigit)

def parseUnsigned (token : Bytes) : Option ℕ :=
  if token.isEmpty then none
  else
    match fromChars token with
    | (some value, []) => some value
    | _ => none

def parseSide (token : Bytes) : Option Side :=
  if token = ascii "B" then some .buy else if token = ascii "S" then some .sell else none

def parseOrderType (token : Bytes) : Option OrderType :=
  if token = ascii "L" then some .limit else if token = ascii "M" then some .market else none

def parseTimeInForce (token : Bytes) : Option TimeInForce :=
  if token = ascii "GFD" then some .gfd
  else if token = ascii "IOC" then some .ioc
  else if token = ascii "FOK" then some .fok
  else none

def refuse {α : Type} (clientOrderId : Option ℕ) (reason : RejectReason) : Except OrderRejected α :=
  .error { clientOrderId, reason }

def required (tokens : TokenCursor) : Except OrderRejected (Bytes × TokenCursor) :=
  match tokens.next with
  | (none, _) => refuse none .invalidMessage
  | (some token, tokens) => .ok (token, tokens)

def orRefuse {α : Type} (reason : RejectReason) : Option α → Except OrderRejected α
  | none => refuse none reason
  | some a => .ok a

def decodeNewOrder (tokens : TokenCursor) : DecodeResult := do
  let (clientOrderIdToken, tokens) ← required tokens
  let clientOrderId ← orRefuse .invalidMessage (parseUnsigned clientOrderIdToken)
  if clientOrderId < 1 then refuse none .invalidMessage
  else
    let (symbol, tokens) ← required tokens
    let (sideToken, tokens) ← required tokens
    let side ← orRefuse .invalidMessage (parseSide sideToken)
    let (orderTypeToken, tokens) ← required tokens
    let orderType ← orRefuse .invalidMessage (parseOrderType orderTypeToken)
    let (tifToken, tokens) ← required tokens
    let tif ← orRefuse .invalidMessage (parseTimeInForce tifToken)
    let (priceToken, tokens) ← required tokens
    let price ← orRefuse .invalidPrice (parseUnsigned priceToken)
    if price ≤ 0 then refuse none .invalidPrice
    else
      let (quantityToken, tokens) ← required tokens
      let quantity ← orRefuse .invalidQuantity (parseUnsigned quantityToken)
      if quantity ≤ 0 then refuse none .invalidQuantity
      else if tokens.empty = false then refuse none .invalidMessage
      else .ok (.newOrder { clientOrderId, symbol, side, orderType, tif, price, quantity })

def decodeCancelOrder (tokens : TokenCursor) : DecodeResult := do
  let (clientOrderIdToken, tokens) ← required tokens
  let clientOrderId ← orRefuse .invalidMessage (parseUnsigned clientOrderIdToken)
  if clientOrderId = 0 then refuse none .invalidMessage
  else
    match tokens.next with
    | (none, _) => refuse (some clientOrderId) .invalidMessage
    | (some symbol, tokens) =>
      if tokens.empty = false then refuse (some clientOrderId) .invalidMessage
      else .ok (.cancelOrder { clientOrderId, symbol })

def decode (message : Bytes) : DecodeResult :=
  if maxMessageLength < message.length then refuse none .invalidMessage
  else
    let message := if message.getLast? = some 13 then message.dropLast else message
    if message.isEmpty then refuse none .invalidMessage
    else
      let (messageType, tokens) := TokenCursor.next ⟨message⟩
      if messageType = some (ascii "N") then decodeNewOrder tokens
      else if messageType = some (ascii "C") then decodeCancelOrder tokens
      else refuse none .invalidMessage

def decimal (n : ℕ) : Bytes :=
  if n = 0 then ascii "0" else (Nat.digits 10 n).reverse.map fun digit => (48 + digit).toUInt8

def encode : OutboundMessage → Bytes
  | .orderAccepted accepted =>
    ascii "ACCEPTED " ++ decimal accepted.clientOrderId ++ ascii " " ++ decimal accepted.orderId
  | .orderCancelled cancelled =>
    ascii "CANCELLED " ++ decimal cancelled.clientOrderId ++ ascii " " ++ decimal cancelled.orderId
  | .orderRejected rejected =>
    let clientOrderId :=
      match rejected.clientOrderId with
      | some clientOrderId => decimal clientOrderId
      | none => ascii "-"
    ascii "REJECTED " ++ clientOrderId ++ ascii " " ++ ascii rejected.reason.name

end TextCodec

end Sixchange
