import Mathlib.Data.Nat.Digits.Lemmas
import Sixchange.Codec.Decoding

namespace Sixchange

open TextCodec

namespace Grammar

def IsPlain (b : UInt8) : Prop := b ≠ 9 ∧ b ≠ 10 ∧ b ≠ 13 ∧ b ≠ 32

instance : DecidablePred IsPlain := fun b => inferInstanceAs (Decidable (b ≠ 9 ∧ b ≠ 10 ∧ b ≠ 13 ∧ b ≠ 32))

def AllPlain (word : Bytes) : Prop := ∀ b ∈ word, IsPlain b

instance : DecidablePred AllPlain := fun word => List.decidableBAll IsPlain word

def reasons : List RejectReason :=
  [.none, .invalidMessage, .unknownSymbol, .invalidPrice, .invalidQuantity, .duplicateClientOrderId, .unknownOrder,
    .notOrderOwner, .unsupportedOrderType, .unsupportedTimeInForce, .gatewayError, .capacityExhausted,
    .matchingEngineError]

def readReason (word : Bytes) : Option RejectReason := reasons.find? (ascii ·.name = word)

def readResponse (line : Bytes) : Option OutboundMessage :=
  match line.splitOn 32 with
  | [kind, idField, last] =>
    if kind = ascii "ACCEPTED" then
      some (.orderAccepted { clientOrderId := value idField, orderId := value last })
    else if kind = ascii "CANCELLED" then
      some (.orderCancelled { clientOrderId := value idField, orderId := value last })
    else if kind = ascii "REJECTED" then
      (readReason last).map fun reason =>
        .orderRejected { clientOrderId := if idField = ascii "-" then none else some (value idField), reason }
    else none
  | _ => none

def readResponses (stream : Bytes) : List OutboundMessage := (stream.splitOn 10).filterMap readResponse

end Grammar

namespace TextCodec

open Grammar

theorem mem_decimal {n : ℕ} {b : UInt8} (h : b ∈ decimal n) : 48 ≤ b.toNat ∧ b.toNat ≤ 57 := by
  unfold decimal at h
  split_ifs at h
  · rw [show ascii "0" = [48] from rfl, List.mem_singleton] at h
    subst h
    decide
  · obtain ⟨digit, hdigit, rfl⟩ := List.mem_map.mp h
    have hlt : digit < 10 := Nat.digits_lt_base (by decide) (List.mem_reverse.mp hdigit)
    rw [Nat.toUInt8, UInt8.toNat_ofNat']
    omega

theorem value_digits (n : ℕ) : value ((Nat.digits 10 n).reverse.map fun digit => (48 + digit).toUInt8) = n := by
  have hdigits : (Nat.digits 10 n).map (fun digit => (48 + digit).toUInt8.toNat - 48) = Nat.digits 10 n := by
    refine (List.map_congr_left fun digit hdigit => ?_).trans (List.map_id _)
    have hlt : digit < 10 := Nat.digits_lt_base (by decide) hdigit
    rw [Nat.toUInt8, UInt8.toNat_ofNat', id]
    omega
  rw [value, ← List.map_reverse, List.reverse_reverse, List.map_map]
  exact (congrArg (Nat.ofDigits 10) hdigits).trans (Nat.ofDigits_digits 10 n)

theorem value_decimal (n : ℕ) : value (decimal n) = n := by
  rw [decimal]
  split_ifs with h
  · rw [h]
    rfl
  · exact value_digits n

theorem decimal_ne_nil (n : ℕ) : decimal n ≠ [] := by
  rw [decimal]
  split_ifs with h
  · decide
  · rwa [Ne, List.map_eq_nil_iff, List.reverse_eq_nil_iff, Nat.digits_eq_nil_iff_eq_zero]

theorem isPlain_of_mem_decimal {n : ℕ} {b : UInt8} (h : b ∈ decimal n) : IsPlain b := by
  have hb := (mem_decimal h).1
  refine ⟨?_, ?_, ?_, ?_⟩ <;> rintro rfl <;> exact absurd hb (by decide)

theorem decimal_ne_hyphen (n : ℕ) : decimal n ≠ ascii "-" := by
  intro h
  have hmem : (45 : UInt8) ∈ decimal n := h ▸ (by decide)
  exact absurd (mem_decimal hmem).1 (by decide)

theorem allPlain_name (reason : RejectReason) : AllPlain (ascii reason.name) := by
  cases reason <;> decide

theorem name_ne_nil (reason : RejectReason) : ascii reason.name ≠ [] := by
  cases reason <;> decide

theorem readReason_name (reason : RejectReason) : readReason (ascii reason.name) = some reason := by
  cases reason <;> decide

def idWord : Option ℕ → Bytes
  | some clientOrderId => decimal clientOrderId
  | none => ascii "-"

def responseWords : OutboundMessage → List Bytes
  | .orderAccepted accepted => [ascii "ACCEPTED", decimal accepted.clientOrderId, decimal accepted.orderId]
  | .orderCancelled cancelled => [ascii "CANCELLED", decimal cancelled.clientOrderId, decimal cancelled.orderId]
  | .orderRejected rejected => [ascii "REJECTED", idWord rejected.clientOrderId, ascii rejected.reason.name]

theorem idWord_plain (clientOrderId : Option ℕ) :
    idWord clientOrderId ≠ [] ∧ AllPlain (idWord clientOrderId) := by
  cases clientOrderId with
  | none => decide
  | some clientOrderId => exact ⟨decimal_ne_nil _, fun _ => isPlain_of_mem_decimal⟩

theorem responseWords_plain (message : OutboundMessage) :
    ∀ word ∈ responseWords message, word ≠ [] ∧ AllPlain word := by
  have hdecimal (n : ℕ) : decimal n ≠ [] ∧ AllPlain (decimal n) :=
    ⟨decimal_ne_nil n, fun _ => isPlain_of_mem_decimal⟩
  cases message with
  | orderAccepted accepted =>
    simp only [responseWords, List.forall_mem_cons]
    exact ⟨by decide, hdecimal _, hdecimal _, List.forall_mem_nil _⟩
  | orderCancelled cancelled =>
    simp only [responseWords, List.forall_mem_cons]
    exact ⟨by decide, hdecimal _, hdecimal _, List.forall_mem_nil _⟩
  | orderRejected rejected =>
    simp only [responseWords, List.forall_mem_cons]
    exact ⟨by decide, idWord_plain _, ⟨name_ne_nil _, allPlain_name _⟩, List.forall_mem_nil _⟩

theorem encode_eq (message : OutboundMessage) : encode message = [32].intercalate (responseWords message) := by
  cases message with
  | orderAccepted accepted => simp [encode, responseWords, ascii]
  | orderCancelled cancelled => simp [encode, responseWords, ascii]
  | orderRejected rejected => cases h : rejected.clientOrderId <;> simp [encode, responseWords, idWord, ascii, h]

theorem responseWords_three (message : OutboundMessage) :
    ∃ kind id last, responseWords message = [kind, id, last] := by
  cases message <;> exact ⟨_, _, _, rfl⟩

theorem encode_layout (message : OutboundMessage) :
    ∃ kind id last, encode message = kind ++ 32 :: id ++ 32 :: last ∧
      ∀ word ∈ [kind, id, last], word ≠ [] ∧ AllPlain word := by
  obtain ⟨kind, id, last, hwords⟩ := responseWords_three message
  refine ⟨kind, id, last, ?_, hwords ▸ responseWords_plain message⟩
  rw [encode_eq, hwords]
  simp

theorem encode_words (message : OutboundMessage) : (encode message).splitOn 32 = responseWords message := by
  rw [encode_eq]
  obtain ⟨kind, id, last, hwords⟩ := responseWords_three message
  refine List.splitOn_intercalate 32 (fun word hword hspace => ?_) (hwords ▸ List.cons_ne_nil kind [id, last])
  exact ((responseWords_plain message word hword).2 32 hspace).2.2.2 rfl

theorem mem_encode {message : OutboundMessage} {b : UInt8} (h : b ∈ encode message) : b = 32 ∨ IsPlain b := by
  obtain ⟨kind, id, last, heq, hplain⟩ := encode_layout message
  simp only [List.forall_mem_cons] at hplain
  simp only [heq, List.mem_append, List.mem_cons] at h
  obtain ((h | rfl | h) | rfl | h) := h
  · exact .inr (hplain.1.2 b h)
  · exact .inl rfl
  · exact .inr (hplain.2.1.2 b h)
  · exact .inl rfl
  · exact .inr (hplain.2.2.1.2 b h)

theorem not_mem_encode {message : OutboundMessage} {b : UInt8} (hspace : b ≠ 32) (hplain : ¬ IsPlain b) :
    b ∉ encode message :=
  fun h => (mem_encode h).elim hspace hplain

theorem newline_not_mem_encode (message : OutboundMessage) : 10 ∉ encode message :=
  not_mem_encode (by decide) (by decide)

theorem readResponse_encode (message : OutboundMessage) : readResponse (encode message) = some message := by
  rw [readResponse, encode_words]
  cases message with
  | orderAccepted accepted => simp only [responseWords, if_true, value_decimal]
  | orderCancelled cancelled =>
    have hkind : ascii "CANCELLED" ≠ ascii "ACCEPTED" := by decide
    simp only [responseWords, if_neg hkind, if_true, value_decimal]
  | orderRejected rejected =>
    have hkind : ascii "REJECTED" ≠ ascii "ACCEPTED" := by decide
    have hkind' : ascii "REJECTED" ≠ ascii "CANCELLED" := by decide
    simp only [responseWords, if_neg hkind, if_neg hkind', if_true, readReason_name, Option.map_some]
    obtain ⟨_ | clientOrderId, reason⟩ := rejected
    · rfl
    · simp only [idWord, if_neg (decimal_ne_hyphen clientOrderId), value_decimal]

theorem readResponses_encode (messages : List OutboundMessage) :
    readResponses (messages.flatMap fun message => encode message ++ ascii "\n") = messages := by
  induction messages with
  | nil => rfl
  | cons message messages ih =>
    rw [List.flatMap_cons, List.append_assoc, readResponses]
    change ((encode message ++ 10 :: _).splitOn 10).filterMap readResponse = _
    rw [List.splitOn_append_cons_self_of_not_mem (newline_not_mem_encode message),
      List.filterMap_cons_some (readResponse_encode message)]
    exact congrArg (message :: ·) ih

theorem encode_unambiguous :
    Function.Injective encode ∧ (∀ message, readResponse (encode message) = some message) ∧
      (∀ message, ∃ kind id last, encode message = kind ++ 32 :: id ++ 32 :: last ∧
        ∀ word ∈ [kind, id, last], word ≠ [] ∧ AllPlain word) ∧
      (∀ message, 10 ∉ encode message ∧ 13 ∉ encode message ∧ 9 ∉ encode message) ∧
      ∀ messages, readResponses (messages.flatMap fun message => encode message ++ ascii "\n") = messages := by
  refine ⟨fun a b h => ?_, readResponse_encode, encode_layout, fun message => ?_, readResponses_encode⟩
  · have hread := readResponse_encode a
    rw [h, readResponse_encode b] at hread
    exact (Option.some.inj hread).symm
  · exact ⟨newline_not_mem_encode message, not_mem_encode (by decide) (by decide),
      not_mem_encode (by decide) (by decide)⟩

end TextCodec

end Sixchange
