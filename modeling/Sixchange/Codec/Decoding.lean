import Mathlib.Data.List.Induction
import Sixchange.Codec.Grammar

namespace Sixchange

open TextCodec

namespace Grammar

theorem parseSide_eq : parseSide = side := rfl

theorem parseOrderType_eq : parseOrderType = orderType := rfl

theorem parseTimeInForce_eq : parseTimeInForce = tif := rfl

theorem decimalValue_eq (digits : Bytes) : decimalValue digits = value digits := by
  induction digits using List.reverseRecOn with
  | nil => rfl
  | append_singleton digits b ih =>
    have hvalue : value (digits ++ [b]) = (b.toNat - 48) + 10 * value digits := by
      rw [value, List.reverse_append, List.map_append]
      exact Nat.ofDigits_cons
    rw [decimalValue] at ih ⊢
    rw [List.foldl_append, ih, hvalue]
    exact Nat.add_comm _ _

theorem parseUnsigned_eq (token : Bytes) : parseUnsigned token =
    if token ≠ [] ∧ AllDigits token ∧ value token < word then some (value token) else none := by
  rw [parseUnsigned]
  by_cases hempty : token = []
  · rw [if_pos (List.isEmpty_iff.mpr hempty), if_neg (fun h => h.1 hempty)]
  rw [if_neg (mt List.isEmpty_iff.mp hempty)]
  by_cases hdigits : ∀ b ∈ token, IsDigit b
  · have htake : token.takeWhile TextCodec.isDigit = token :=
      List.takeWhile_eq_self_iff.mpr fun b hb => decide_eq_true (hdigits b hb)
    have hdrop : token.dropWhile TextCodec.isDigit = [] :=
      List.dropWhile_eq_nil_iff.mpr fun b hb => decide_eq_true (hdigits b hb)
    rw [fromChars, htake, hdrop, decimalValue_eq]
    by_cases hlt : value token < word
    · have hfits : ¬ (token.isEmpty = true ∨ word ≤ value token) := by simp [hempty, hlt]
      simp only [if_neg hfits, if_pos (show token ≠ [] ∧ AllDigits token ∧ value token < word from
        ⟨hempty, hdigits, hlt⟩)]
    · have hbig : token.isEmpty = true ∨ word ≤ value token := .inr (Nat.le_of_not_lt hlt)
      simp only [if_pos hbig, if_neg (fun h : token ≠ [] ∧ AllDigits token ∧ value token < word =>
        hlt h.2.2)]
  -- something follows the digits
  · have hdrop : token.dropWhile TextCodec.isDigit ≠ [] := by
      rw [Ne, List.dropWhile_eq_nil_iff]
      exact fun h => hdigits fun b hb => of_decide_eq_true (h b hb)
    have hbad : ¬ (token ≠ [] ∧ AllDigits token ∧ value token < word) := fun h => hdigits h.2.1
    rw [if_neg hbad, fromChars]
    obtain ⟨b, rest, hrest⟩ := List.exists_cons_of_ne_nil hdrop
    rw [hrest]
    split
    · next h => cases (Prod.mk.inj h).2
    · rfl

theorem number_eq (token : Bytes) : number token = (parseUnsigned token).filter (0 < ·) := by
  rw [parseUnsigned_eq, number]
  by_cases hgood : token ≠ [] ∧ AllDigits token ∧ value token < word
  · rw [if_pos hgood, Option.filter_some]
    apply if_congr ?_ rfl rfl
    rw [decide_eq_true_eq]
    exact ⟨fun h => h.2.2.1, fun h => ⟨hgood.1, hgood.2.1, h, hgood.2.2⟩⟩
  · rw [if_neg hgood, if_neg (fun h => hgood ⟨h.1, h.2.1, h.2.2.2⟩)]
    rfl

section Cursor

variable {cursor : TokenCursor} {token : Bytes} {fields : List Bytes}

theorem tokens_eq (cursor : TokenCursor) : tokens cursor.remaining =
    if cursor.skipWhitespace.remaining.isEmpty then []
    else cursor.skipWhitespace.remaining.takeWhile (! TokenCursor.isBlank ·) ::
      tokens (cursor.skipWhitespace.remaining.dropWhile (! TokenCursor.isBlank ·)) :=
  Words.words_eq cursor.remaining

theorem empty_eq (cursor : TokenCursor) : cursor.empty = (tokens cursor.remaining).isEmpty := by
  rw [tokens_eq, TokenCursor.empty]
  split_ifs with h
  · exact h
  · exact Bool.eq_false_iff.mpr h

theorem next_nil (h : tokens cursor.remaining = []) : cursor.next.1 = none := by
  rw [tokens_eq] at h
  rw [TokenCursor.next]
  split_ifs at h ⊢
  rfl

theorem next_cons (h : tokens cursor.remaining = token :: fields) :
    ∃ cursor', cursor.next = (some token, cursor') ∧ tokens cursor'.remaining = fields := by
  rw [tokens_eq] at h
  rw [TokenCursor.next]
  split_ifs at h ⊢
  obtain ⟨rfl, hfields⟩ := List.cons.inj h
  exact ⟨_, rfl, hfields⟩

end Cursor

section Stages

variable {β : Type} {result : DecodeResult}

theorem read_required {cursor : TokenCursor} {next : Bytes × TokenCursor → DecodeResult}
    (hmissing : tokens cursor.remaining = [] → result = refused none .invalidMessage)
    (hnext : ∀ token cursor', tokens cursor.remaining = token :: tokens cursor'.remaining →
      next (token, cursor') = result) :
    (required cursor >>= next) = result := by
  unfold required
  cases h : tokens cursor.remaining with
  | nil =>
    have hnone := next_nil h
    rcases hc : cursor.next with ⟨_ | token, cursor'⟩
    · exact (hmissing h).symm
    · rw [hc] at hnone
      cases hnone
  | cons token fields =>
    obtain ⟨cursor', hc, rfl⟩ := next_cons h
    rw [hc]
    exact hnext token cursor' h

theorem read_field {reason : RejectReason} {field : Option β} {next : β → DecodeResult}
    (hbad : field = none → result = refused none reason) (hnext : ∀ b, field = some b → next b = result) :
    (orRefuse reason field >>= next) = result := by
  cases field with
  | none => exact (hbad rfl).symm
  | some b => exact hnext b rfl

theorem read_number {zero : ℕ → Prop} [DecidablePred zero] (hzero : ∀ n, zero n ↔ n = 0) {reason : RejectReason}
    {token : Bytes} {next : ℕ → DecodeResult} (hbad : number token = none → result = refused none reason)
    (hnext : ∀ n, number token = some n → next n = result) :
    (orRefuse reason (parseUnsigned token) >>= fun n => if zero n then refuse none reason else next n) = result := by
  rw [number_eq] at hbad hnext
  apply read_field
  · intro h
    apply hbad
    rw [h]
    rfl
  · intro n h
    rw [h, Option.filter_some] at hbad hnext
    by_cases hn : n = 0
    · rw [if_pos ((hzero n).mpr hn)]
      exact (hbad (if_neg (by simp [hn]))).symm
    · rw [if_neg (mt (hzero n).mp hn)]
      exact hnext n (if_pos (decide_eq_true (Nat.pos_of_ne_zero hn)))

end Stages

section Fields

variable {fields : List Bytes}

theorem failures_none {request : NewOrderRequest} (h : newOrder fields = some request) :
    (newOrderFailures fields).findSome? id = none := by
  unfold newOrder at h
  split at h
  · simp only [Option.bind_eq_bind, Option.bind_eq_some_iff] at h
    obtain ⟨_, hid, _, hside, _, htype, _, htif, _, hprice, _, hquantity, -⟩ := h
    simp [newOrderFailures, failure, hid, hside, htype, htif, hprice, hquantity]
  · cases h

theorem readNewOrder_refused {reason : RejectReason} (h : (newOrderFailures fields).findSome? id = some reason) :
    readNewOrder fields = refused none reason := by
  rw [readNewOrder, h]
  cases hrequest : newOrder fields with
  | none => rfl
  | some request =>
    rw [failures_none hrequest] at h
    cases h

theorem read_next {cursor₀ cursor : TokenCursor} {next : Bytes × TokenCursor → DecodeResult} (read : List Bytes)
    (hread : tokens cursor₀.remaining = read ++ tokens cursor.remaining)
    (hmissing : (newOrderFailures read).findSome? id = some .invalidMessage)
    (hnext : ∀ token cursor', tokens cursor₀.remaining = read ++ token :: tokens cursor'.remaining →
      next (token, cursor') = readNewOrder (tokens cursor₀.remaining)) :
    (required cursor >>= next) = readNewOrder (tokens cursor₀.remaining) := by
  apply read_required
  · intro hend
    rw [hread, hend, List.append_nil]
    exact readNewOrder_refused hmissing
  · intro token cursor' htoken
    apply hnext
    rw [hread, htoken]

end Fields

theorem decodeCancelOrder_eq (cursor : TokenCursor) :
    decodeCancelOrder cursor = readCancelOrder (tokens cursor.remaining) := by
  apply read_required
  · intro h₀
    rw [h₀]
    rfl
  intro idField cursor₁ h₀
  apply read_number (fun n => Iff.rfl)
  · intro hid
    simp only [h₀, readCancelOrder, hid]
  intro id hid
  rw [h₀]
  cases h₁ : tokens cursor₁.remaining with
  | nil =>
    have hnone := next_nil h₁
    rcases hc : cursor₁.next with ⟨_ | token, cursor₂⟩
    · simp only [readCancelOrder, hid]
      rfl
    · rw [hc] at hnone
      cases hnone
  | cons symbol fields =>
    obtain ⟨cursor₂, hc, rfl⟩ := next_cons h₁
    simp only [hc, empty_eq, readCancelOrder, hid]
    cases tokens cursor₂.remaining <;> rfl

theorem decodeNewOrder_eq (cursor : TokenCursor) :
    decodeNewOrder cursor = readNewOrder (tokens cursor.remaining) := by
  apply read_next [] rfl rfl
  intro idField cursor₁ h
  apply read_number (fun n => Nat.lt_one_iff)
  · intro hid
    rw [h]
    apply readNewOrder_refused
    simp [newOrderFailures, failure, hid]
  intro id hid
  apply read_next [idField] h
  · simp [newOrderFailures, failure, hid]
  intro symbol cursor₂ h
  apply read_next [idField, symbol] h
  · simp [newOrderFailures, failure, hid]
  intro sideField cursor₃ h
  rw [parseSide_eq]
  apply read_field
  · intro hside
    rw [h]
    apply readNewOrder_refused
    simp [newOrderFailures, failure, hid, hside]
  intro sd hside
  apply read_next [idField, symbol, sideField] h
  · simp [newOrderFailures, failure, hid, hside]
  intro typeField cursor₄ h
  rw [parseOrderType_eq]
  apply read_field
  · intro htype
    rw [h]
    apply readNewOrder_refused
    simp [newOrderFailures, failure, hid, hside, htype]
  intro orderType htype
  apply read_next [idField, symbol, sideField, typeField] h
  · simp [newOrderFailures, failure, hid, hside, htype]
  intro tifField cursor₅ h
  rw [parseTimeInForce_eq]
  apply read_field
  · intro htif
    rw [h]
    apply readNewOrder_refused
    simp [newOrderFailures, failure, hid, hside, htype, htif]
  intro tif htif
  apply read_next [idField, symbol, sideField, typeField, tifField] h
  · simp [newOrderFailures, failure, hid, hside, htype, htif]
  intro priceField cursor₆ h
  apply read_number (fun n => Nat.le_zero)
  · intro hprice
    rw [h]
    apply readNewOrder_refused
    simp [newOrderFailures, failure, hid, hside, htype, htif, hprice]
  intro price hprice
  apply read_next [idField, symbol, sideField, typeField, tifField, priceField] h
  · simp [newOrderFailures, failure, hid, hside, htype, htif, hprice]
  intro quantityField cursor₇ h
  apply read_number (fun n => Nat.le_zero)
  · intro hquantity
    rw [h]
    apply readNewOrder_refused
    simp [newOrderFailures, failure, hid, hside, htype, htif, hprice, hquantity]
  intro quantity hquantity
  rw [h, empty_eq]
  cases tokens cursor₇.remaining with
  | nil => simp [readNewOrder, newOrder, hid, hside, htype, htif, hprice, hquantity]
  | cons extra fields =>
    symm
    apply readNewOrder_refused
    simp [newOrderFailures, failure, hid, hside, htype, htif, hprice, hquantity]

end Grammar

def decodeStripped (message : Bytes) : DecodeResult :=
  if message.isEmpty then refuse none .invalidMessage
  else
    let (messageType, tokens) := TokenCursor.next ⟨message⟩
    if messageType = some (ascii "N") then decodeNewOrder tokens
    else if messageType = some (ascii "C") then decodeCancelOrder tokens
    else refuse none .invalidMessage

theorem decode_eq (message : Bytes) : decode message =
    if 256 < message.length then refuse none .invalidMessage
    else decodeStripped (Grammar.withoutReturn message) := rfl

theorem decodeStripped_eq (message : Bytes) : decodeStripped message =
    match Grammar.tokens message with
    | [] => refuse none .invalidMessage
    | messageType :: fields =>
      if messageType = ascii "N" then Grammar.readNewOrder fields
      else if messageType = ascii "C" then Grammar.readCancelOrder fields
      else refuse none .invalidMessage := by
  rw [decodeStripped]
  by_cases hempty : message.isEmpty = true
  · rw [if_pos hempty, List.isEmpty_iff.mp hempty]
    rfl
  rw [if_neg hempty]
  cases h : Grammar.tokens message with
  | nil =>
    have hnone : (TokenCursor.next ⟨message⟩).1 = none := Grammar.next_nil h
    simp only [hnone]
    rfl
  | cons messageType fields =>
    obtain ⟨cursor, hc, rfl⟩ := @Grammar.next_cons ⟨message⟩ _ _ h
    simp only [hc, Option.some.injEq, Grammar.decodeNewOrder_eq, Grammar.decodeCancelOrder_eq]

theorem decode_eq_grammar (message : Bytes) : decode message = Grammar.read message := by
  rw [decode_eq, Grammar.read]
  split_ifs
  · rfl
  · exact decodeStripped_eq (Grammar.withoutReturn message)

example : Grammar.read (ascii "\tN 007  ABC B L GFD 100 18446744073709551615 \r") =
    .ok (.newOrder {
      clientOrderId := 7, symbol := ascii "ABC", side := .buy, orderType := .limit, tif := .gfd, price := 100
      quantity := 18446744073709551615 }) := by decide +kernel

end Sixchange
