import Sixchange.Gateway.Consistency
import Sixchange.Gateway.Responses
import Sixchange.Market.Exchange
import Sixchange.Market.Turnover
import Sixchange.Model.Program

/-!
The whole program against a reference that has neither an order book nor a tokenizer: requests are what
the grammar says, and orders are matched in the list of their arrivals.
-/

namespace Sixchange

open PriorityList
open scoped List

structure Office where
  exchange : Exchange
  clientOrders : ℕ → Option ℕ

namespace Office

def empty : Office := { exchange := .empty, clientOrders := fun _ => none }

def command (request : NewOrderRequest) : NewOrderCommand :=
  { seq := 0, price := request.price, quantity := request.quantity, clientOrderId := request.clientOrderId
    clientId := 1, symbolId := 0, side := request.side, orderType := request.orderType, tif := request.tif }

variable (config : OrderBookConfig) (office : Office)

def newOrder (request : NewOrderRequest) : Office × OutboundMessage :=
  if (office.clientOrders request.clientOrderId).isSome then
    (office, OrderRejected.message request.clientOrderId .duplicateClientOrderId)
  else if request.symbol ≠ ascii "AAPL" then (office, OrderRejected.message request.clientOrderId .unknownSymbol)
  else
    match office.exchange.refusal 0 config (command request) with
    | some reason => (office, OrderRejected.message request.clientOrderId reason)
    | none =>
      let orderId := office.exchange.nextOrderId
      ({ exchange := (office.exchange.submit 0 config (command request)).1
         clientOrders := Function.update office.clientOrders request.clientOrderId (some orderId) },
        OrderAccepted.message request.clientOrderId orderId)

def cancelOrder (request : CancelOrderRequest) : Office × OutboundMessage :=
  if request.symbol ≠ ascii "AAPL" then (office, OrderRejected.message request.clientOrderId .unknownSymbol)
  else
    match office.clientOrders request.clientOrderId with
    | none => (office, OrderRejected.message request.clientOrderId .unknownOrder)
    | some orderId =>
      if orderId ∈ office.exchange.resting.map RestingOrder.orderId then
        ({ office with exchange := { office.exchange with
            resting := office.exchange.resting.filter (·.orderId ≠ orderId) } },
          OrderCancelled.message request.clientOrderId orderId)
      else (office, OrderRejected.message request.clientOrderId .unknownOrder)

def handle : InboundMessage → Office × OutboundMessage
  | .newOrder request => office.newOrder config request
  | .cancelOrder request => office.cancelOrder request

def reply (message : OutboundMessage) : Bytes := [32].intercalate (TextCodec.responseWords message) ++ [10]

def answer (line : Bytes) : Office × Bytes :=
  match Grammar.read line with
  | .error refusal => (office, reply (.orderRejected refusal))
  | .ok request =>
    let (office, message) := office.handle config request
    (office, reply message)

end Office

theorem Exchange.submit_seq (exchange : Exchange) (config : OrderBookConfig) (command : NewOrderCommand) (seq : ℕ) :
    (exchange.submit 0 config { command with seq }).1 = (exchange.submit 0 config command).1 := by
  have hrefusal : exchange.refusal 0 config { command with seq } = exchange.refusal 0 config command := rfl
  unfold Exchange.submit
  rw [hrefusal]
  cases exchange.refusal 0 config command <;> rfl

theorem Arrivals.remove {market : Market} {exchange : Exchange} (h : Arrivals market exchange) (orderId : ℕ) :
    Arrivals (market.remove orderId)
      { exchange with resting := exchange.resting.filter (·.orderId ≠ orderId) } := by
  refine ⟨fun sd => ?_, h.nextOrderId_eq, h.nextTradeId_eq⟩
  dsimp only [Market.remove]
  rw [h.book, ← prioritize_filter, List.filter_comm]

theorem Arrivals.mem_iff {market : Market} {exchange : Exchange} (h : Arrivals market exchange) {orderId : ℕ} :
    orderId ∈ exchange.resting.map RestingOrder.orderId ↔ (market.lookup orderId).isSome := by
  rw [(h.perm.map _).mem_iff, Market.lookup, List.find?_isSome, List.mem_map]
  simp

structure Mirrors (config : OrderBookConfig) (desk : Desk) (messages : List OutboundMessage) (office : Office) :
    Prop where
  consistent : Consistent config desk messages
  arrivals : Arrivals desk.market office.exchange
  clientOrders_eq : office.clientOrders = desk.clientOrders
  covered : desk.market.TradesCovered

namespace Mirrors

variable {config : OrderBookConfig} {desk : Desk} {messages : List OutboundMessage} {office : Office}

theorem empty (config : OrderBookConfig) : Mirrors config .empty [] .empty :=
  ⟨.empty config, .empty, rfl, .empty⟩

theorem turned_away (h : Mirrors config desk messages office) {request : InboundMessage} {reason : RejectReason}
    (hcommand : desk.command request = .error reason) :
    office.handle config request = (office, OrderRejected.message request.clientOrderId reason) := by
  unfold Desk.command at hcommand
  cases request with
  | newOrder request =>
    dsimp only at hcommand
    rw [Office.handle, Office.newOrder, h.clientOrders_eq]
    split_ifs at hcommand ⊢ <;> obtain rfl := Except.error.inj hcommand <;> rfl
  | cancelOrder request =>
    dsimp only at hcommand
    rw [Office.handle, Office.cancelOrder, h.clientOrders_eq]
    split_ifs at hcommand ⊢
    · obtain rfl := Except.error.inj hcommand
      rfl
    · cases horder : desk.clientOrders request.clientOrderId with
      | none =>
        rw [horder] at hcommand
        obtain rfl := Except.error.inj hcommand
        rfl
      | some orderId =>
        rw [horder] at hcommand
        cases hcommand

theorem refusal_eq (h : Mirrors config desk messages office) (hlt : desk.market.accepted < word)
    (request : NewOrderRequest) : desk.market.refusal 0 config (desk.newOrderCommand request) =
      office.exchange.refusal 0 config (Office.command request) :=
  h.arrivals.refusal_eq 0 config (h.consistent.numbered.nextId_fresh hlt) (desk.newOrderCommand request)

theorem submitted (h : Mirrors config desk messages office) {request : NewOrderRequest}
    (hnew : desk.clientOrders request.clientOrderId = none) (hsymbol : request.symbol = ascii "AAPL") :
    office.handle config (.newOrder request) =
      match office.exchange.refusal 0 config (Office.command request) with
      | some reason => (office, OrderRejected.message request.clientOrderId reason)
      | none =>
        ({ exchange := (office.exchange.submit 0 config (Office.command request)).1
           clientOrders :=
             Function.update office.clientOrders request.clientOrderId (some office.exchange.nextOrderId) },
          OrderAccepted.message request.clientOrderId office.exchange.nextOrderId) := by
  rw [Office.handle, Office.newOrder, h.clientOrders_eq, hnew, Option.isSome_none, if_neg Bool.false_ne_true,
    if_neg (not_not.mpr hsymbol)]

theorem withdrawing (h : Mirrors config desk messages office) {request : CancelOrderRequest} {orderId : ℕ}
    (hsymbol : request.symbol = ascii "AAPL") (horder : desk.clientOrders request.clientOrderId = some orderId) :
    office.handle config (.cancelOrder request) =
      if (desk.market.lookup orderId).isSome then
        ({ office with exchange := { office.exchange with
            resting := office.exchange.resting.filter (·.orderId ≠ orderId) } },
          OrderCancelled.message request.clientOrderId orderId)
      else (office, OrderRejected.message request.clientOrderId .unknownOrder) := by
  rw [Office.handle, Office.cancelOrder, h.clientOrders_eq, if_neg (not_not.mpr hsymbol), horder]
  exact if_congr h.arrivals.mem_iff rfl rfl

theorem accept (h : Mirrors config desk messages office) {request : NewOrderRequest}
    (hrefusal : desk.market.refusal 0 config (desk.newOrderCommand request) = none)
    (hlt : desk.market.accepted + 1 < word) :
    desk.market.nextId = office.exchange.nextOrderId ∧
      Arrivals (desk.market.accept (desk.newOrderCommand request))
        (office.exchange.submit 0 config (Office.command request)).1 := by
  have hcovered := (h.covered.accept (desk.newOrderCommand request)).trades_le
  have htrades : desk.market.trades + (desk.market.swept (desk.newOrderCommand request)).fills.length < word :=
    hcovered.trans_lt hlt
  have hexchange : office.exchange.refusal 0 config (desk.newOrderCommand request) = none :=
    (h.refusal_eq (Nat.lt_of_succ_lt hlt) request).symm.trans hrefusal
  obtain ⟨-, harrivals⟩ := h.arrivals.accept h.consistent.numbered hexchange hlt htrades
  refine ⟨(Market.nextId_small hlt).trans h.arrivals.nextOrderId_eq.symm, ?_⟩
  rwa [← Exchange.submit_seq _ _ _ desk.nextSequence]

theorem handle (h : Mirrors config desk messages office) (request : InboundMessage)
    (hlt : desk.market.accepted + 1 < word) :
    (desk.handle config request).2.messages = [(office.handle config request).2] ∧
      Mirrors config (desk.handle config request).1 (messages ++ (desk.handle config request).2.messages)
        (office.handle config request).1 ∧
      (desk.handle config request).1.market.accepted ≤ desk.market.accepted + 1 := by
  have hcases := Desk.handle_cases config desk request
  have hkeep : (desk.handle config request).1.market.accepted ≤ desk.market.accepted + 1 →
      Consistent config (desk.handle config request).1 (messages ++ (desk.handle config request).2.messages) :=
    fun hle => h.consistent.handle request (hle.trans_lt hlt)
  have hsmall := Nat.lt_of_succ_lt hlt
  generalize desk.handle config request = outcome at hcases hkeep ⊢
  cases hcases with
  | turnedAway hcommand =>
    rw [h.turned_away hcommand]
    exact ⟨rfl, ⟨hkeep (Nat.le_succ _), h.arrivals, h.clientOrders_eq, h.covered⟩, Nat.le_succ _⟩
  | refused hnew hsymbol hrefusal =>
    rw [h.submitted hnew hsymbol, ← h.refusal_eq hsmall, hrefusal]
    exact ⟨rfl, ⟨hkeep (Nat.le_succ _), h.arrivals, h.clientOrders_eq, h.covered⟩, Nat.le_succ _⟩
  | @accepted request hnew hsymbol hrefusal =>
    obtain ⟨hid, harrivals⟩ := h.accept hrefusal hlt
    rw [h.submitted hnew hsymbol, ← h.refusal_eq hsmall, hrefusal]
    dsimp only
    rw [← hid, h.clientOrders_eq]
    exact ⟨rfl, ⟨hkeep (Nat.le_refl _), harrivals, rfl, h.covered.accept _⟩, Nat.le_refl _⟩
  | unknown hsymbol horder hlookup =>
    rw [h.withdrawing hsymbol horder, hlookup, Option.isSome_none, if_neg Bool.false_ne_true]
    exact ⟨rfl, ⟨hkeep (Nat.le_succ _), h.arrivals, h.clientOrders_eq, h.covered⟩, Nat.le_succ _⟩
  | foreign hsymbol horder hlookup howner =>
    -- the order was recorded under the client order id that it holds
    obtain ⟨hclient, howned⟩ := h.consistent.lookup_owned hlookup
    rcases howner with howner | howner
    · exact absurd hclient howner
    · exact absurd (h.consistent.injective _ _ _ howned horder) howner
  | @withdrawn request orderId order hsymbol horder hlookup hclient hclientOrder =>
    rw [h.withdrawing hsymbol horder, hlookup, Option.isSome_some, if_pos rfl]
    exact ⟨rfl, ⟨hkeep (Nat.le_succ _), h.arrivals.remove orderId, h.clientOrders_eq, h.covered.remove orderId⟩,
      Nat.le_succ _⟩

end Mirrors

theorem reply_eq (message : OutboundMessage) : Cli.onOutboundMessage message = Office.reply message :=
  Cli.onOutboundMessage_words message

theorem decode_eq_read (line : Bytes) : TextCodec.decode line = Grammar.read line := by
  rw [decode_eq, Grammar.read]
  split_ifs
  · rfl
  · exact decodeStripped_eq _

def Follows (config : OrderBookConfig) (session : Session) (office : Office) (accepted : ℕ) : Prop :=
  ∃ desk queues messages, Serves config session desk queues ∧ Mirrors config desk messages office ∧
    desk.market.accepted ≤ accepted

namespace Follows

variable {config : OrderBookConfig} {session : Session} {office : Office} {accepted : ℕ}

theorem step (h : Follows config session office accepted) (hlt : accepted + 1 < word) (line : Bytes) :
    ∃ session', Cli.step session line = .ok (session', (office.answer config line).2) ∧
      Follows config session' (office.answer config line).1 (accepted + 1) := by
  obtain ⟨desk, queues, messages, hserves, hmirrors, hle⟩ := h
  unfold Cli.step Office.answer
  rw [decode_eq_read]
  cases Grammar.read line with
  | error refusal =>
    dsimp only
    rw [reply_eq]
    exact ⟨session, rfl, desk, queues, messages, hserves, hmirrors, Nat.le_succ_of_le hle⟩
  | ok request =>
    obtain ⟨session', queues', hrun, hserves', -⟩ := hserves.handle request
    obtain ⟨hmessages, hmirrors', haccepted⟩ := hmirrors.handle request
      (Nat.lt_of_le_of_lt (Nat.succ_le_succ hle) hlt)
    refine ⟨session', ?_, _, queues', _, hserves', hmirrors', haccepted.trans (Nat.succ_le_succ hle)⟩
    dsimp only
    rw [hrun, ok_bind]
    dsimp only
    rw [hmessages, List.flatMap_singleton, reply_eq]

theorem run (h : Follows config session office accepted) (lines : List Bytes)
    (hlt : accepted + lines.length < word) :
    ∃ final, Cli.run session lines = .ok (final, (Transducer.trace (Office.answer config) office lines).2) ∧
      Follows config final (Transducer.trace (Office.answer config) office lines).1 (accepted + lines.length) := by
  induction lines generalizing session office accepted with
  | nil => exact ⟨session, rfl, h⟩
  | cons line lines ih =>
    rw [List.length_cons] at hlt
    obtain ⟨session', hstep, hfollows⟩ := h.step (by omega) line
    obtain ⟨final, hrun, hfinal⟩ := ih hfollows (by omega)
    refine ⟨final, Transducer.run_cons_ok hstep hrun, ?_⟩
    rw [List.length_cons, Nat.add_comm lines.length, ← Nat.add_assoc]
    exact hfinal

end Follows

theorem Opened.follows {config : OrderBookConfig} {session : Session} (h : Opened config session) :
    Follows config session .empty 0 := ⟨.empty, _, [], h.serves, .empty config, Nat.le_refl 0⟩

namespace Cli

theorem pieces_length_le {pieces : List Bytes} (hne : pieces ≠ []) :
    pieces.length ≤ ([10].intercalate pieces).length + 1 ∧
      (pieces.getLast? ≠ some [] → pieces.length ≤ ([10].intercalate pieces).length) := by
  induction pieces with
  | nil => exact absurd rfl hne
  | cons piece pieces ih =>
    cases pieces with
    | nil =>
      refine ⟨by simp, fun hlast => ?_⟩
      have hpiece : piece ≠ [] := by simpa using hlast
      simpa [Nat.succ_le_iff] using List.length_pos_iff.mpr hpiece
    | cons next pieces =>
      obtain ⟨hle, hlast⟩ := ih (List.cons_ne_nil _ _)
      rw [List.getLast?_cons_cons, List.intercalate_cons_cons]
      simp only [List.length_append, List.length_cons] at hle hlast ⊢
      refine ⟨by omega, fun h => ?_⟩
      have hle' := hlast h
      omega

theorem getLines_length_le (input : Bytes) : (getLines input).length ≤ input.length := by
  obtain ⟨hle, hlast⟩ := pieces_length_le (List.splitOn_ne_nil 10 input)
  rw [List.intercalate_splitOn] at hle hlast
  unfold getLines
  dsimp only
  split_ifs with hempty
  · rw [List.length_dropLast]
    omega
  · exact hlast hempty

def reference (config : OrderBookConfig) (input : Bytes) : Outputs :=
  let (office, answers) := Transducer.trace (Office.answer config) .empty (getLines input)
  { out := answers.flatten
    err := ascii "execution= " ++ TextCodec.decimal (office.exchange.nextTradeId - 1) ++ ascii "\n" }

theorem main_eq_reference {config : OrderBookConfig} {session : Session} (h : Opened config session)
    (input : Bytes) (hlt : input.length < word) : main config input = some (.ok (reference config input)) := by
  have hlines : 0 + (getLines input).length < word := by
    rw [Nat.zero_add]
    exact (getLines_length_le input).trans_lt hlt
  obtain ⟨final, hrun, desk, queues, messages, hserves, hmirrors, hle⟩ := h.follows.run (getLines input) hlines
  have htrades : desk.market.trades < word := (hmirrors.covered.trades_le.trans hle).trans_lt hlines
  have hcount : final.engine.executionCount =
      (Transducer.trace (Office.answer config) .empty (getLines input)).1.exchange.nextTradeId - 1 := by
    rw [hmirrors.arrivals.nextTradeId_eq, Nat.add_sub_cancel]
    exact hserves.engine.executionCount_eq.trans (Nat.mod_eq_of_lt htrades)
  rw [main, h.created, Option.map_some, hrun, ok_bind]
  dsimp only
  rw [hcount]
  rfl

def sampleInput : Bytes := ascii "N 1 AAPL S L GFD 5 10\nN 2 AAPL B L GFD 5 20\nC 2 AAPL\nX"

theorem main_eq_reference_default : main defaultOrderBookConfig sampleInput =
    some (.ok (reference defaultOrderBookConfig sampleInput)) := by
  obtain ⟨session, h⟩ := Opened.default
  exact main_eq_reference h sampleInput (by decide)

example : (reference defaultOrderBookConfig sampleInput).out =
    ascii "ACCEPTED 1 1\nACCEPTED 2 2\nCANCELLED 2 2\nREJECTED - INVALID_MESSAGE\n" := by decide +kernel

end Cli

end Sixchange
