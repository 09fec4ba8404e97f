import Sixchange.Model.TextCodec
import Sixchange.Theory.Words

/-!
The grammar of the inbound messages, and what a message outside of it is refused with. Nothing here
follows the decoder.
-/

namespace Sixchange.Grammar

def IsBlank (b : UInt8) : Prop := b = 32 ∨ b = 9

instance : DecidablePred IsBlank := fun b => inferInstanceAs (Decidable (b = 32 ∨ b = 9))

def IsDigit (b : UInt8) : Prop := 48 ≤ b ∧ b ≤ 57

instance : DecidablePred IsDigit := fun b => inferInstanceAs (Decidable (48 ≤ b ∧ b ≤ 57))

def AllDigits (token : Bytes) : Prop := ∀ b ∈ token, IsDigit b

instance : DecidablePred AllDigits := fun token => List.decidableBAll IsDigit token

def tokens (message : Bytes) : List Bytes := Words.words (fun b => decide (IsBlank b)) message

def withoutReturn (message : Bytes) : Bytes :=
  if message.getLast? = some 13 then message.dropLast else message

def value (digits : Bytes) : ℕ := Nat.ofDigits 10 (digits.reverse.map fun b => b.toNat - 48)

def number (token : Bytes) : Option ℕ :=
  if token ≠ [] ∧ AllDigits token ∧ 1 ≤ value token ∧ value token < 2 ^ 64 then some (value token)
  else none

def side (token : Bytes) : Option Side :=
  if token = ascii "B" then some .buy else if token = ascii "S" then some .sell else none

def orderType (token : Bytes) : Option OrderType :=
  if token = ascii "L" then some .limit else if token = ascii "M" then some .market else none

def tif (token : Bytes) : Option TimeInForce :=
  if token = ascii "GFD" then some .gfd
  else if token = ascii "IOC" then some .ioc
  else if token = ascii "FOK" then some .fok
  else none

def newOrder : List Bytes → Option NewOrderRequest
  | [idField, symbol, sideField, typeField, tifField, priceField, quantityField] => do
    let clientOrderId ← number idField
    let side ← side sideField
    let orderType ← orderType typeField
    let tif ← tif tifField
    let price ← number priceField
    let quantity ← number quantityField
    some { clientOrderId, symbol, side, orderType, tif, price, quantity }
  | _ => none

/-- Why a field fails, if it does: it is missing, or it is there and bad. -/
def failure (bad : RejectReason) (good : Bytes → Bool) : Option Bytes → Option RejectReason
  | none => some .invalidMessage
  | some token => if good token then none else some bad

def newOrderFailures (fields : List Bytes) : List (Option RejectReason) :=
  [failure .invalidMessage (fun token => (number token).isSome) fields[0]?,
    failure .invalidMessage (fun _ => true) fields[1]?,
    failure .invalidMessage (fun token => (side token).isSome) fields[2]?,
    failure .invalidMessage (fun token => (orderType token).isSome) fields[3]?,
    failure .invalidMessage (fun token => (tif token).isSome) fields[4]?,
    failure .invalidPrice (fun token => (number token).isSome) fields[5]?,
    failure .invalidQuantity (fun token => (number token).isSome) fields[6]?,
    if 7 < fields.length then some .invalidMessage else none]

def refused (clientOrderId : Option ℕ) (reason : RejectReason) : TextCodec.DecodeResult :=
  .error { clientOrderId, reason }

def readNewOrder (fields : List Bytes) : TextCodec.DecodeResult :=
  match newOrder fields with
  | some request => .ok (.newOrder request)
  | none => refused none (((newOrderFailures fields).findSome? id).getD .none)

def readCancelOrder : List Bytes → TextCodec.DecodeResult
  | [] => refused none .invalidMessage
  | idField :: fields =>
    match number idField, fields with
    | none, _ => refused none .invalidMessage
    | some clientOrderId, [symbol] => .ok (.cancelOrder { clientOrderId, symbol })
    | some clientOrderId, _ => refused (some clientOrderId) .invalidMessage

def read (message : Bytes) : TextCodec.DecodeResult :=
  if 256 < message.length then refused none .invalidMessage
  else
    match tokens (withoutReturn message) with
    | [] => refused none .invalidMessage
    | messageType :: fields =>
      if messageType = ascii "N" then readNewOrder fields
      else if messageType = ascii "C" then readCancelOrder fields
      else refused none .invalidMessage

end Sixchange.Grammar
