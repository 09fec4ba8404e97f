import Sixchange.Codec.Decoding
import Sixchange.Codec.Encoding
import Sixchange.Model.Program

namespace Sixchange

open TextCodec Grammar

def OrderType.letter : OrderType → Bytes
  | .limit => ascii "L"
  | .market => ascii "M"

def TimeInForce.letters : TimeInForce → Bytes
  | .gfd => ascii "GFD"
  | .ioc => ascii "IOC"
  | .fok => ascii "FOK"

def Side.letter : Side → Bytes
  | .buy => ascii "B"
  | .sell => ascii "S"

namespace InboundMessage

def words : InboundMessage → List Bytes
  | .newOrder request => [ascii "N", decimal request.clientOrderId, request.symbol, request.side.letter,
      request.orderType.letter, request.tif.letters, decimal request.price, decimal request.quantity]
  | .cancelOrder request => [ascii "C", decimal request.clientOrderId, request.symbol]

def line (request : InboundMessage) : Bytes := [32].intercalate request.words

def symbol : InboundMessage → Bytes
  | .newOrder request => request.symbol
  | .cancelOrder request => request.symbol

def numbers : InboundMessage → List ℕ
  | .newOrder request => [request.clientOrderId, request.price, request.quantity]
  | .cancelOrder request => [request.clientOrderId]

structure Writable (request : InboundMessage) : Prop where
  numbers : ∀ n ∈ request.numbers, 0 < n ∧ n < word
  symbol_ne_nil : request.symbol ≠ []
  symbol_plain : AllPlain request.symbol
  length_le : request.line.length ≤ 256

end InboundMessage

theorem number_decimal {n : ℕ} (h : 0 < n ∧ n < word) : number (decimal n) = some n := by
  have hdigits : AllDigits (decimal n) := by
    intro b hb
    obtain ⟨hlow, hhigh⟩ := mem_decimal hb
    exact ⟨UInt8.le_iff_toNat_le.mpr hlow, UInt8.le_iff_toNat_le.mpr hhigh⟩
  rw [number, value_decimal, if_pos ⟨decimal_ne_nil n, hdigits, h⟩]

namespace InboundMessage.Writable

variable {request : InboundMessage}

theorem words_plain (h : request.Writable) : ∀ word ∈ request.words, word ≠ [] ∧ AllPlain word := by
  have hdecimal : ∀ n, decimal n ≠ [] ∧ AllPlain (decimal n) :=
    fun n => ⟨decimal_ne_nil n, fun _ => isPlain_of_mem_decimal⟩
  have hsymbol := And.intro h.symbol_ne_nil h.symbol_plain
  cases request with
  | newOrder request =>
    have hside : request.side.letter ≠ [] ∧ AllPlain request.side.letter := by cases request.side <;> decide
    have htype : request.orderType.letter ≠ [] ∧ AllPlain request.orderType.letter := by
      cases request.orderType <;> decide
    have htif : request.tif.letters ≠ [] ∧ AllPlain request.tif.letters := by cases request.tif <;> decide
    simp only [words, List.forall_mem_cons]
    exact ⟨by decide, hdecimal _, hsymbol, hside, htype, htif, hdecimal _, hdecimal _, List.forall_mem_nil _⟩
  | cancelOrder request =>
    simp only [words, List.forall_mem_cons]
    exact ⟨by decide, hdecimal _, hsymbol, List.forall_mem_nil _⟩

theorem mem_line (h : request.Writable) {b : UInt8} (hb : b ∈ request.line) : b = 32 ∨ IsPlain b := by
  rcases Words.mem_intercalate hb with he | ⟨word, hword, hb⟩
  · exact .inl he
  · exact .inr ((h.words_plain word hword).2 b hb)

theorem not_mem_line (h : request.Writable) {b : UInt8} (hspace : b ≠ 32) (hplain : ¬ IsPlain b) : b ∉ request.line :=
  fun hb => (h.mem_line hb).elim hspace hplain

theorem tokens_line (h : request.Writable) : tokens (withoutReturn request.line) = request.words := by
  have hreturn : request.line.getLast? ≠ some 13 := fun hlast =>
    h.not_mem_line (by decide) (by decide) (List.mem_of_getLast? hlast)
  rw [withoutReturn, if_neg hreturn]
  apply Words.words_intercalate
  · decide
  · intro word hword
    obtain ⟨hne, hplain⟩ := h.words_plain word hword
    refine ⟨hne, fun b hb => decide_eq_false ?_⟩
    rintro (rfl | rfl)
    · exact (hplain 32 hb).2.2.2 rfl
    · exact (hplain 9 hb).1 rfl

theorem decode_line (h : request.Writable) : decode request.line = .ok request := by
  have hnumbers := h.numbers
  rw [decode_eq, if_neg (Nat.not_lt.mpr h.length_le), decodeStripped_eq, h.tokens_line]
  cases request with
  | newOrder request =>
    simp only [InboundMessage.numbers, List.forall_mem_cons] at hnumbers
    obtain ⟨hid, hprice, hquantity, -⟩ := hnumbers
    have hside : side request.side.letter = some request.side := by cases request.side <;> rfl
    have htype : orderType request.orderType.letter = some request.orderType := by cases request.orderType <;> rfl
    have htif : tif request.tif.letters = some request.tif := by cases request.tif <;> rfl
    simp only [words, if_true, readNewOrder, Grammar.newOrder, number_decimal hid, number_decimal hprice,
      number_decimal hquantity, hside, htype, htif]
    rfl
  | cancelOrder request =>
    simp only [InboundMessage.numbers, List.forall_mem_cons] at hnumbers
    simp only [words, readCancelOrder, number_decimal hnumbers.1]
    rfl

end InboundMessage.Writable

theorem getLines_flatMap {lines : List Bytes} (h : ∀ line ∈ lines, 10 ∉ line) :
    Cli.getLines (lines.flatMap (· ++ [10])) = lines := by
  have hsplit : (lines.flatMap (· ++ [10])).splitOn 10 = lines ++ [[]] := by
    induction lines with
    | nil => rfl
    | cons line lines ih =>
      rw [List.forall_mem_cons] at h
      have hline : ∀ b ∈ line, (b == 10) = false := by
        intro b hb
        simp only [beq_eq_false_iff_ne]
        exact fun he => h.1 (he ▸ hb)
      rw [List.flatMap_cons, List.append_assoc, List.singleton_append, List.splitOn,
        List.splitOnP_append_cons_of_forall_mem hline 10 (by decide)]
      exact congrArg (line :: ·) (ih h.2)
  unfold Cli.getLines
  rw [hsplit]
  simp

theorem getLines_requests {requests : List InboundMessage} (h : ∀ request ∈ requests, request.Writable) :
    Cli.getLines (requests.flatMap fun request => request.line ++ [10]) = requests.map InboundMessage.line := by
  have hlines : requests.flatMap (fun request => request.line ++ [10]) =
      (requests.map InboundMessage.line).flatMap (· ++ [10]) := by rw [List.flatMap_map]
  rw [hlines, getLines_flatMap]
  intro line hline
  obtain ⟨request, hrequest, rfl⟩ := List.mem_map.mp hline
  exact (h request hrequest).not_mem_line (by decide) (by decide)

theorem decode_requests {requests : List InboundMessage} (h : ∀ request ∈ requests, request.Writable) :
    (requests.map InboundMessage.line).map decode = requests.map .ok := by
  rw [List.map_map]
  apply List.map_congr_left
  intro request hrequest
  exact (h request hrequest).decode_line

theorem requests_read_back {requests : List InboundMessage} (h : ∀ request ∈ requests, request.Writable) :
    Cli.getLines (requests.flatMap fun request => request.line ++ [10]) = requests.map InboundMessage.line ∧
      (Cli.getLines (requests.flatMap fun request => request.line ++ [10])).map decode = requests.map .ok := by
  rw [getLines_requests h]
  exact ⟨rfl, decode_requests h⟩

def quoteAndCancel : List InboundMessage :=
  [.newOrder { clientOrderId := 7, symbol := ascii "AAPL", side := .sell, orderType := .limit, tif := .gfd, price := 100
               quantity := 10 },
    .cancelOrder { clientOrderId := 7, symbol := ascii "AAPL" }]

theorem requests_read_back_sample :
    Cli.getLines (quoteAndCancel.flatMap fun request => request.line ++ [10]) = quoteAndCancel.map InboundMessage.line ∧
      (Cli.getLines (quoteAndCancel.flatMap fun request => request.line ++ [10])).map decode =
        quoteAndCancel.map .ok := by
  apply requests_read_back
  simp only [quoteAndCancel, List.forall_mem_cons]
  refine ⟨⟨?_, by decide, by decide, by decide +kernel⟩, ⟨?_, by decide, by decide, by decide +kernel⟩,
    List.forall_mem_nil _⟩
  · simp only [InboundMessage.numbers, List.forall_mem_cons]
    exact ⟨by decide, by decide, by decide, List.forall_mem_nil _⟩
  · simp only [InboundMessage.numbers, List.forall_mem_cons]
    exact ⟨by decide, List.forall_mem_nil _⟩

end Sixchange
