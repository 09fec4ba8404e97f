import Sixchange.Market.Stacks
import Sixchange.Model.StressGenerator
import Sixchange.Stress.Conversation
import Sixchange.Theory.Scripts

namespace Sixchange

open TextCodec Scripts

namespace CommandGenerator

def text (generator : CommandGenerator) : Bytes := generator.stdout ++ generator.buffer.flatten

theorem flush_stdout (generator : CommandGenerator) : generator.flush.stdout = generator.text := by
  unfold flush text
  split_ifs with hempty
  · rw [List.isEmpty_iff.mp hempty, List.flatten_nil, List.append_nil]
  · rfl

theorem flush_keeps (generator : CommandGenerator) : generator.flush.orderCount = generator.orderCount ∧
    generator.flush.cancelCount = generator.cancelCount := by
  unfold flush
  split_ifs <;> exact ⟨rfl, rfl⟩

theorem emit_cases (generator : CommandGenerator) (line : Bytes) :
    ∃ stdout buffer, generator.emit line = { generator with stdout, buffer } ∧
      stdout ++ buffer.flatten = generator.text ++ line := by
  have htext : generator.stdout ++ (generator.buffer ++ [line]).flatten = generator.text ++ line := by
    rw [text, List.flatten_append, List.flatten_singleton, List.append_assoc]
  unfold emit
  dsimp only
  split_ifs
  · refine ⟨generator.stdout ++ (generator.buffer ++ [line]).flatten, [], ?_, ?_⟩
    · unfold flush
      simp
    · rw [List.flatten_nil, List.append_nil]
      exact htext
  · exact ⟨_, _, rfl, htext⟩

structure Wrote (orders cancels : ℕ) (requests : List InboundMessage) (generator : CommandGenerator) : Prop where
  symbol_eq : generator.symbol = ascii "AAPL"
  nextClientOrderId_eq : generator.nextClientOrderId = 1000 + orders
  orderCount_eq : generator.orderCount = orders
  cancelCount_eq : generator.cancelCount = cancels
  text_eq : generator.text = requests.flatMap fun request => request.line ++ [10]

namespace Wrote

variable {orders cancels : ℕ} {requests : List InboundMessage} {generator : CommandGenerator}

theorem create : Wrote 0 0 [] (.create (ascii "AAPL")) := ⟨rfl, rfl, rfl, rfl, rfl⟩

theorem text_concat (h : Wrote orders cancels requests generator) (request : InboundMessage) :
    generator.text ++ (request.line ++ [10]) = (requests ++ [request]).flatMap fun request => request.line ++ [10] := by
  rw [h.text_eq, List.flatMap_append, List.flatMap_singleton]

theorem newOrder (h : Wrote orders cancels requests generator) (side : Side) (price quantity : ℕ) :
    (generator.newOrder side price quantity).1 = 1000 + orders ∧
      Wrote (orders + 1) cancels (requests ++ [.newOrder (orderRequest 999 orders side price quantity)])
        (generator.newOrder side price quantity).2 := by
  refine ⟨h.nextClientOrderId_eq, ?_⟩
  have hside : side.text = side.letter := by cases side <;> rfl
  have hid : 1000 + orders = 999 + (orders + 1) := by omega
  have hline : ascii "N " ++ decimal generator.nextClientOrderId ++ ascii " " ++ generator.symbol ++ ascii " " ++
      side.text ++ ascii " L GFD " ++ decimal price ++ ascii " " ++ decimal quantity ++ ascii "\n" =
      (InboundMessage.newOrder (orderRequest 999 orders side price quantity)).line ++ [10] := by
    rw [h.nextClientOrderId_eq, h.symbol_eq, hside, hid]
    simp [InboundMessage.line, InboundMessage.words, orderRequest, List.intercalate, OrderType.letter,
      TimeInForce.letters, ascii]
  unfold CommandGenerator.newOrder
  dsimp only
  rw [hline]
  obtain ⟨stdout, buffer, hemit, htext⟩ := emit_cases
    { generator with nextClientOrderId := generator.nextClientOrderId + 1 }
    ((InboundMessage.newOrder (orderRequest 999 orders side price quantity)).line ++ [10])
  rw [hemit]
  refine ⟨h.symbol_eq, ?_, ?_, h.cancelCount_eq, htext.trans (h.text_concat _)⟩
  · exact congrArg Nat.succ h.nextClientOrderId_eq
  · exact congrArg Nat.succ h.orderCount_eq

theorem cancel (h : Wrote orders cancels requests generator) (orderId : ℕ) :
    Wrote orders (cancels + 1) (requests ++ [.cancelOrder (cancelRequest 999 orderId)])
      (generator.cancel (999 + orderId)) := by
  have hline : ascii "C " ++ decimal (999 + orderId) ++ ascii " " ++ generator.symbol ++ ascii "\n" =
      (InboundMessage.cancelOrder (cancelRequest 999 orderId)).line ++ [10] := by
    rw [h.symbol_eq]
    simp [InboundMessage.line, InboundMessage.words, cancelRequest, List.intercalate, ascii]
  unfold CommandGenerator.cancel
  dsimp only
  rw [hline]
  obtain ⟨stdout, buffer, hemit, htext⟩ := generator.emit_cases
    ((InboundMessage.cancelOrder (cancelRequest 999 orderId)).line ++ [10])
  rw [hemit]
  exact ⟨h.symbol_eq, h.nextClientOrderId_eq, h.orderCount_eq, congrArg Nat.succ h.cancelCount_eq,
    htext.trans (h.text_concat _)⟩

end Wrote

end CommandGenerator

structure Tally where
  orders : ℕ
  cancels : ℕ
  trades : ℕ
  deriving DecidableEq, Repr

def Standing {rng : Random} (config : OrderBookConfig) (session : Session) (tally : Tally)
    (P : (Side → List RestingOrder) → Prop) (s : CommandGenerator × rng.State) : Prop :=
  ∃ requests desk, Conversation config 999 session requests desk ∧
    CommandGenerator.Wrote tally.orders tally.cancels requests s.1 ∧ desk.market.accepted = tally.orders ∧
    desk.market.trades = tally.trades ∧ P desk.market.book

theorem Standing.imp {rng : Random} {config : OrderBookConfig} {session : Session} {tally : Tally}
    {P Q : (Side → List RestingOrder) → Prop} {s : CommandGenerator × rng.State} (h : Standing config session tally P s)
    (hbook : ∀ book, P book → Q book) : Standing config session tally Q s := by
  obtain ⟨requests, desk, hconversation, hwrote, haccepted, htrades, hP⟩ := h
  exact ⟨requests, desk, hconversation, hwrote, haccepted, htrades, hbook _ hP⟩

structure Placeable (config : OrderBookConfig) (orders price quantity : ℕ) : Prop where
  ids : 1000 + orders < word
  levels : config.priceLevelCount ≤ word
  price : 0 < price ∧ price < config.priceLevelCount
  quantity : 0 < quantity ∧ quantity < word

namespace Script

variable {rng : Random} {config : OrderBookConfig} {session : Session} {tally : Tally} {α : Type}
  {P Q : (Side → List RestingOrder) → Prop} {post : α → CommandGenerator × rng.State → Prop}

theorem of_book {script : Script rng α} (h : Ensures (Standing config session tally Q) script post)
    (hbook : ∀ book, P book → Q book) : Ensures (Standing config session tally P) script post :=
  h.of_pre fun _ hs => hs.imp hbook

theorem randrange_then {next : ℕ → Script rng α} {n : ℕ} (hpos : 0 < n)
    (hnext : ∀ value, value < n → Ensures (Standing config session tally P) (next value) post) :
    Ensures (Standing config session tally P) (randrange n >>= next) post := by
  rintro ⟨generator, state⟩ h
  exact hnext _ (rng.randrange_lt n state hpos) (generator, (rng.randrange n state).2) h

theorem randint_then {next : ℕ → Script rng α} {a b : ℕ} (hle : a ≤ b)
    (hnext : ∀ value, a ≤ value → value ≤ b → Ensures (Standing config session tally P) (next value) post) :
    Ensures (Standing config session tally P) (randint a b >>= next) post := by
  unfold randint
  rw [bind_assoc]
  refine randrange_then (by omega) ?_
  intro value hvalue
  rw [pure_bind]
  exact hnext _ (Nat.le_add_right _ _) (by omega)

theorem newOrder_then {next : ℕ → Script rng α} {side : Side} {price quantity trades : ℕ}
    (hplaceable : Placeable config tally.orders price quantity)
    (hroom : ∀ book, P book → (book .buy ++ book .sell).length < config.maxActiveOrders)
    (hbook : ∀ book, P book → ∃ s, sweep (side.opposite.crosses price) quantity (book side.opposite) = s ∧
      s.fills.length = trades ∧ Q (settle book (heldOrder 999 tally.orders side price quantity) s))
    (hnext : Ensures (Standing config session ⟨tally.orders + 1, tally.cancels, tally.trades + trades⟩ Q)
      (next (1000 + tally.orders)) post) :
    Ensures (Standing config session tally P) (newOrder side price quantity >>= next) post := by
  rintro ⟨generator, state⟩ ⟨requests, desk, hconversation, hwrote, haccepted, htrades, hP⟩
  obtain ⟨s, hsweep, hfills, hQ⟩ := hbook _ hP
  have hfree : desk.market.ids.length ≠ config.maxActiveOrders := by
    rw [Market.ids, List.length_map]
    exact Nat.ne_of_lt (hroom _ hP)
  have hids := hplaceable.ids
  obtain ⟨desk', hconversation', hmarket⟩ := hconversation.order
    (by omega) hplaceable.price hplaceable.levels hplaceable.quantity hfree
  have hlt : desk.market.accepted + 1 < word := by omega
  have hbook' := Desk.accept_book hlt 999 side price quantity
  have htrades' : desk'.market.trades = desk.market.trades + s.fills.length := by
    rw [hmarket, ← hsweep]
    rfl
  have haccepted' : desk'.market.accepted = tally.orders + 1 := by
    rw [hmarket, ← haccepted]
    rfl
  rw [← hmarket, haccepted, hsweep] at hbook'
  rw [haccepted] at hconversation'
  obtain ⟨hid, hwrote'⟩ := hwrote.newOrder side price quantity
  change post (next (generator.newOrder side price quantity).1 _).1
    (next (generator.newOrder side price quantity).1 _).2
  rw [hid]
  apply hnext
  refine ⟨_, desk', hconversation', hwrote', haccepted', ?_, ?_⟩
  · rw [htrades', htrades, hfills]
  · rw [hbook']
    exact hQ

theorem ensures_cancel {accepted : ℕ} (hids : 999 + tally.orders < word)
    (hrests : ∀ book, P book → ∃ sd, ∃ r ∈ book sd, r.orderId = accepted + 1)
    (hbook : ∀ book, P book → Q fun sd => (book sd).filter (·.orderId ≠ accepted + 1)) :
    Ensures (Standing config session tally P) (cancel (1000 + accepted) : Script rng Unit)
      fun _ => Standing config session ⟨tally.orders, tally.cancels + 1, tally.trades⟩ Q := by
  rintro ⟨generator, state⟩ ⟨requests, desk, hconversation, hwrote, haccepted, htrades, hP⟩
  obtain ⟨desk', hconversation', hmarket⟩ := hconversation.withdrawal (haccepted ▸ hids)
    (Market.mem_ids.mpr (hrests _ hP))
  have hid : 1000 + accepted = 999 + (accepted + 1) := by omega
  rw [hid]
  refine ⟨_, desk', hconversation', hwrote.cancel _, ?_, ?_, ?_⟩ <;> rw [hmarket]
  · exact haccepted
  · exact htrades
  · exact hbook _ hP

end Script

end Sixchange
