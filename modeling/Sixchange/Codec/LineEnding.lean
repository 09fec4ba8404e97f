import Sixchange.Codec.Decoding

namespace Sixchange

open TextCodec

namespace Grammar

/-- Whether a message that is no longer than it may be is refused without a client order id and without a better
reason than that it is invalid. -/
def Malformed (message : Bytes) : Prop :=
  match tokens message with
  | [] => True
  | messageType :: fields =>
    if messageType = ascii "N" then (newOrderFailures fields).findSome? id = some .invalidMessage
    else if messageType = ascii "C" then fields.head?.bind number = none
    else True

variable {fields : List Bytes} {message : Bytes}

theorem readNewOrder_malformed :
    readNewOrder fields = refused none .invalidMessage ↔
      (newOrderFailures fields).findSome? id = some .invalidMessage := by
  refine ⟨fun h => ?_, readNewOrder_refused⟩
  rw [readNewOrder] at h
  cases hrequest : newOrder fields with
  | some request =>
    rw [hrequest] at h
    cases h
  | none =>
    rw [hrequest] at h
    have hreason := congrArg OrderRejected.reason (Except.error.inj h)
    cases hfirst : (newOrderFailures fields).findSome? id with
    | none =>
      rw [hfirst] at hreason
      cases hreason
    | some reason =>
      rw [hfirst] at hreason
      exact congrArg some hreason

theorem readCancelOrder_malformed :
    readCancelOrder fields = refused none .invalidMessage ↔ fields.head?.bind number = none := by
  cases fields with
  | nil => exact iff_of_true rfl rfl
  | cons idField fields =>
    rw [List.head?_cons, Option.bind_some]
    cases hid : number idField with
    | none => simp only [readCancelOrder, hid]
    | some clientOrderId =>
      refine iff_of_false ?_ (Option.some_ne_none clientOrderId)
      cases fields with
      | nil => simp [readCancelOrder, hid, refused]
      | cons symbol extra => cases extra <;> simp [readCancelOrder, hid, refused]

end Grammar

open Grammar

variable {message : Bytes}

theorem decodeStripped_malformed : decodeStripped message = refuse none .invalidMessage ↔ Malformed message := by
  rw [decodeStripped_eq, Malformed]
  cases tokens message with
  | nil => exact iff_of_true rfl trivial
  | cons messageType fields =>
    dsimp only
    split_ifs
    · exact readNewOrder_malformed
    · exact readCancelOrder_malformed
    · exact iff_of_true rfl trivial

theorem decode_long (h : 256 < message.length) : decode message = refuse none .invalidMessage := if_pos h

theorem decode_plain (hlength : message.length ≤ 256) (hlast : message.getLast? ≠ some 13) :
    decode message = decodeStripped message := by
  rw [decode_eq, if_neg (Nat.not_lt_of_le hlength), withoutReturn, if_neg hlast]

theorem decode_return (hlength : message.length < 256) : decode (message ++ [13]) = decodeStripped message := by
  have hlength' : ¬ 256 < (message ++ [13]).length := by
    rw [List.length_append, List.length_singleton]
    omega
  rw [decode_eq, if_neg hlength', withoutReturn, if_pos List.getLast?_concat, List.dropLast_concat]

theorem decode_return_iff (hlast : message.getLast? ≠ some 13) :
    decode (message ++ [13]) = decode message ↔ (message.length = 256 → Malformed message) := by
  have hlength : (message ++ [13]).length = message.length + 1 := List.length_append
  obtain hshort | heq | hlong := Nat.lt_trichotomy message.length 256
  · rw [decode_return hshort, decode_plain hshort.le hlast]
    exact iff_of_true rfl (fun h => absurd h hshort.ne)
  · rw [decode_long (by omega), decode_plain heq.le hlast, eq_comm, decodeStripped_malformed]
    exact ⟨fun h _ => h, fun h => h heq⟩
  · rw [decode_long (by omega), decode_long hlong]
    exact iff_of_true rfl (fun h => absurd h hlong.ne')

theorem decode_return_short : decode (ascii "C 7 AAPL " ++ [13]) = decode (ascii "C 7 AAPL ") :=
  (decode_return_iff (by decide)).mpr (fun h => absurd h (by decide))

theorem decode_return_limit :
    let message := ascii "C 7 AAPL" ++ List.replicate 248 32
    message.length = 256 ∧ message.getLast? ≠ some 13 ∧
      decode message = .ok (.cancelOrder { clientOrderId := 7, symbol := ascii "AAPL" }) ∧
      decode (message ++ [13]) = .error { clientOrderId := none, reason := .invalidMessage } ∧
      decode (message ++ [13]) ≠ decode message := by
  intro message
  have hlength : message.length = 256 := by decide +kernel
  have hread : decode message = .ok (.cancelOrder { clientOrderId := 7, symbol := ascii "AAPL" }) := by decide +kernel
  have hrefused : decode (message ++ [13]) = .error { clientOrderId := none, reason := .invalidMessage } := by
    apply decode_long
    rw [List.length_append, hlength]
    decide
  refine ⟨hlength, by decide +kernel, hread, hrefused, ?_⟩
  rw [hread, hrefused]
  exact nofun

end Sixchange
