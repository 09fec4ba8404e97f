import Sixchange.Engine.Capacity
import Sixchange.Gateway.Reference
import Sixchange.Logging.File
import Sixchange.Model.Warnings

namespace Sixchange

namespace OrderPool

theorem allocate_capacity (pool : OrderPool) : pool.allocate.2.capacity = pool.capacity := by
  unfold allocate
  split
  · rfl
  · split_ifs <;> rfl

end OrderPool

namespace OrderBook

variable (names : FunctionNames) {book book' : OrderBook} {command : NewOrderCommand} {orderId : ℕ}

theorem admitWarnings_refused {reason : RejectReason} (hinserted : ∀ x pool, book.orders.allocate = (some x, pool) →
      (book.ordersById.insert book.bucket orderId x).1 = .inserted)
    (hrefused : book.admitOrder command orderId = (book', .error reason)) :
    book.admitWarnings names command orderId =
      if reason = .capacityExhausted then [poolExhausted names command.seq orderId book.orders.capacity] else [] := by
  unfold admitOrder at hrefused
  unfold admitWarnings
  by_cases hsymbol : command.symbolId ≠ book.symbolId
  · rw [if_pos hsymbol] at hrefused ⊢
    obtain rfl := Except.error.inj (Prod.mk.inj hrefused).2
    rfl
  rw [if_neg hsymbol] at hrefused ⊢
  by_cases hquantity : command.quantity = 0
  · rw [if_pos hquantity] at hrefused ⊢
    obtain rfl := Except.error.inj (Prod.mk.inj hrefused).2
    rfl
  rw [if_neg hquantity] at hrefused ⊢
  by_cases hprice : book.config.priceLevelCount ≤ command.price
  · rw [if_pos hprice] at hrefused ⊢
    obtain rfl := Except.error.inj (Prod.mk.inj hrefused).2
    rfl
  rw [if_neg hprice] at hrefused ⊢
  rcases halloc : book.orders.allocate with ⟨_ | x, pool⟩
  · have hcapacity := book.orders.allocate_capacity
    rw [halloc] at hrefused hcapacity
    obtain rfl := Except.error.inj (Prod.mk.inj hrefused).2
    dsimp only at hcapacity ⊢
    rw [hcapacity, if_pos rfl]
  · have hinsert := hinserted x pool halloc
    rw [halloc] at hrefused
    dsimp only at hrefused
    rcases hresult : book.ordersById.insert book.bucket orderId x with ⟨result, ordersById⟩
    rw [hresult] at hinsert hrefused
    dsimp only at hinsert
    subst hinsert
    cases (Prod.mk.inj hrefused).2

theorem admitWarnings_admitted {x : Slot} (hadmitted : book.admitOrder command orderId = (book', .ok x)) :
    book.admitWarnings names command orderId = [] := by
  unfold admitOrder at hadmitted
  unfold admitWarnings
  split_ifs at hadmitted ⊢ with hsymbol hquantity hprice
  · rfl
  · rfl
  · rfl
  · rcases halloc : book.orders.allocate with ⟨_ | x, pool⟩
    · rw [halloc] at hadmitted
      cases (Prod.mk.inj hadmitted).2
    · rw [halloc] at hadmitted
      dsimp only at hadmitted ⊢
      rcases hresult : book.ordersById.insert book.bucket orderId x with ⟨result, ordersById⟩
      rw [hresult] at hadmitted
      cases result with
      | inserted => rfl
      | duplicateKey => cases (Prod.mk.inj hadmitted).2
      | full => cases (Prod.mk.inj hadmitted).2

theorem executeWarnings_executed {x : Slot} {executed : OrderBook × List MatchExecution × NewOrderOutcome}
    (h : book.execute x = .ok executed) : book.executeWarnings names x = [] := by
  unfold execute at h
  obtain ⟨-, -, hmatched⟩ := bind_ok h
  obtain ⟨matched, hmatch, hrest⟩ := bind_ok hmatched
  unfold executeWarnings
  rw [hmatch]
  dsimp only at hrest ⊢
  split_ifs at hrest ⊢ with hremaining herased
  · rfl
  · rfl
  · obtain ⟨u, hensure, -⟩ := bind_ok hrest
    unfold ensure at hensure
    rw [if_neg herased] at hensure
    cases hensure

theorem cancelWarnings_erased {command : CancelOrderCommand}
    (h : (book.cancel command).2 ≠ .error .matchingEngineError) : book.cancelWarnings names command = [] := by
  unfold cancel at h
  unfold cancelWarnings
  split_ifs at h ⊢ with hsymbol
  · rfl
  · cases hfind : book.ordersById.find book.bucket command.orderId with
    | none => rfl
    | some x =>
      rw [hfind] at h
      dsimp only at h ⊢
      split_ifs at h ⊢ with howner herased
      · rfl
      · rfl
      · rcases hresult : (book.unlink x).ordersById.erase (book.unlink x).bucket command.orderId with
          ⟨erased, ordersById⟩
        rw [hresult] at h herased
        obtain rfl := Bool.eq_false_of_not_eq_true herased
        exact absurd rfl h

end OrderBook

structure Refusal where
  sequence : ℕ
  orderId : ℕ
  deriving DecidableEq, Repr

structure Refusal.Fits (refusal : Refusal) : Prop where
  sequence : refusal.sequence < word
  orderId : refusal.orderId < word

def EngineEvent.noRoom (orderId : ℕ) : EngineEvent → Option Refusal
  | .commandRejected event =>
    if event.reason = .capacityExhausted then some { sequence := event.seq, orderId } else none
  | _ => none

theorem noRoom_rejected (command : NewOrderCommand) (reason : RejectReason) (orderId : ℕ) :
    [rejection (.newOrder command) reason].filterMap (EngineEvent.noRoom orderId) =
      if reason = .capacityExhausted then [{ sequence := command.seq, orderId }] else [] := by
  by_cases hreason : reason = .capacityExhausted
  · subst hreason
    rfl
  · rw [List.filterMap_cons, rejection, EngineEvent.noRoom, if_neg hreason, if_neg hreason]
    rfl

theorem noRoom_acceptEvents (market : Market) (command : NewOrderCommand) (orderId : ℕ) :
    (market.acceptEvents command).filterMap (EngineEvent.noRoom orderId) = [] := by
  rw [List.filterMap_eq_nil_iff]
  intro event hevent
  cases event with
  | commandRejected event => exact absurd hevent Market.not_mem_acceptEvents
  | _ => rfl

def Transcript.refusals (accepted : ℕ) (transcript : Transcript) : ℕ × List Refusal :=
  (accepted + transcript.events.countP EngineEvent.isAccepted,
    transcript.events.filterMap (EngineEvent.noRoom (accepted + 1)))

def Refusal.call (names : FunctionNames) (config : OrderBookConfig) (refusal : Refusal) : LogCall :=
  OrderBook.poolExhausted names refusal.sequence refusal.orderId config.maxActiveOrders

namespace Serves

variable (names : FunctionNames) {config : OrderBookConfig} {session : Session} {desk : Desk}
  {queues : Side → List Slot}

theorem newOrderWarnings_refused (h : Serves config session desk queues) (hn : desk.market.Numbered)
    (hlt : desk.market.accepted + 1 < word) {command : NewOrderCommand} {reason : RejectReason}
    (hrefusal : desk.market.refusal 0 config command = some reason) :
    session.newOrderWarnings names command =
      ([rejection (.newOrder command) reason].filterMap (EngineEvent.noRoom (desk.market.accepted + 1))).map
        (Refusal.call names config) := by
  have hid : session.engine.nextOrderId = desk.market.accepted + 1 :=
    h.engine.nextOrderId_eq.trans (Market.nextId_small hlt)
  rw [Market.refusal] at hrefusal
  unfold Session.newOrderWarnings
  by_cases htype : command.orderType ≠ .limit
  · rw [if_pos htype] at hrefusal ⊢
    obtain rfl := Option.some.inj hrefusal
    rfl
  rw [if_neg htype] at hrefusal ⊢
  by_cases htif : command.tif ≠ .gfd
  · rw [if_pos htif] at hrefusal ⊢
    obtain rfl := Option.some.inj hrefusal
    rfl
  rw [if_neg htif] at hrefusal ⊢
  obtain ⟨book', hrefused, -⟩ := h.engine.shows.admit_refused hrefusal
  rw [← h.engine.nextOrderId_eq] at hrefused
  have hinserted := (h.engine.capacityExact hn (Nat.lt_of_succ_lt hlt)).inserted
  have hcapacity : session.engine.orderBook.orders.capacity = config.maxActiveOrders :=
    h.engine.inv.capacity_eq.trans (congrArg OrderBookConfig.maxActiveOrders h.engine.config_eq)
  dsimp only
  rw [OrderBook.admitWarnings_refused names hinserted hrefused, hrefused, hcapacity, hid]
  dsimp only
  rw [List.append_nil, noRoom_rejected]
  split_ifs <;> rfl

theorem newOrderWarnings_accepted (h : Serves config session desk queues) {request : NewOrderRequest}
    (hnew : desk.clientOrders request.clientOrderId = none)
    (hrefusal : desk.market.refusal 0 config (desk.newOrderCommand request) = none) :
    session.newOrderWarnings names (desk.newOrderCommand request) = [] := by
  rw [Market.refusal] at hrefusal
  split_ifs at hrefusal with htype htif
  obtain ⟨book₁, x, book₂, queues₂, hadmitted, hexecute, -⟩ := h.engine.shows.submit hrefusal
  rw [← h.engine.nextOrderId_eq] at hadmitted
  unfold Session.newOrderWarnings
  rw [if_neg htype, if_neg htif]
  dsimp only
  rw [OrderBook.admitWarnings_admitted names hadmitted, hadmitted]
  dsimp only
  rw [OrderBook.executeWarnings_executed names hexecute, List.append_nil, List.nil_append]
  unfold OrderGateway.eventWarnings
  dsimp only
  have hunused : ¬ (session.gateway.clientOrders (desk.newOrderCommand request).clientOrderId).isSome = true := by
    rw [h.clientOrders_eq]
    simp [Desk.newOrderCommand, hnew]
  rw [if_neg hunused, ite_self]

theorem cancelWarnings_eq (h : Serves config session desk queues) (command : CancelOrderCommand) :
    session.engine.orderBook.cancelWarnings names command = [] :=
  OrderBook.cancelWarnings_erased names (h.engine.inv.cancel_erases command)

theorem turnedAwayWarnings (h : Serves config session desk queues) {request : InboundMessage} {reason : RejectReason}
    (hcommand : desk.command request = .error reason) : session.handleWarnings names request = [] := by
  unfold Desk.command at hcommand
  unfold Session.handleWarnings OrderGateway.resolveSymbol
  rw [h.clientOrders_eq]
  cases request with
  | newOrder request =>
    dsimp only at hcommand ⊢
    by_cases hdup : (desk.clientOrders request.clientOrderId).isSome
    · rw [if_pos hdup]
    rw [if_neg hdup] at hcommand ⊢
    by_cases hsymbol : request.symbol = ascii "AAPL"
    · rw [if_neg (not_not.mpr hsymbol)] at hcommand
      cases hcommand
    · rw [if_neg hsymbol]
  | cancelOrder request =>
    dsimp only at hcommand ⊢
    by_cases hsymbol : request.symbol = ascii "AAPL"
    · rw [if_neg (not_not.mpr hsymbol)] at hcommand
      rw [if_pos hsymbol]
      dsimp only
      cases horder : desk.clientOrders request.clientOrderId with
      | none => rfl
      | some orderId =>
        rw [horder] at hcommand
        cases hcommand
    · rw [if_neg hsymbol]

theorem submittedWarnings_new (h : Serves config session desk queues) {request : NewOrderRequest}
    (hnew : desk.clientOrders request.clientOrderId = none) (hsymbol : request.symbol = ascii "AAPL") :
    session.handleWarnings names (.newOrder request) =
      session.processWarnings names (.newOrder (desk.newOrderCommand request)) := by
  rw [Session.handleWarnings, h.clientOrders_eq, hnew, Option.isSome_none, if_neg Bool.false_ne_true,
    OrderGateway.resolveSymbol, if_pos hsymbol, h.clientId_eq]
  unfold Desk.newOrderCommand
  rw [← h.nextSequence_eq]
  rfl

theorem submittedWarnings_cancel (h : Serves config session desk queues) {request : CancelOrderRequest} {orderId : ℕ}
    (hsymbol : request.symbol = ascii "AAPL") (horder : desk.clientOrders request.clientOrderId = some orderId) :
    session.handleWarnings names (.cancelOrder request) =
      session.processWarnings names (.cancelOrder (desk.cancelOrderCommand request orderId)) := by
  rw [Session.handleWarnings, OrderGateway.resolveSymbol, if_pos hsymbol, h.clientOrders_eq]
  dsimp only
  rw [horder, h.clientId_eq]
  unfold Desk.cancelOrderCommand
  rw [← h.nextSequence_eq]
  rfl

theorem handleWarnings_eq (h : Serves config session desk queues) (hn : desk.market.Numbered)
    (hlt : desk.market.accepted + 1 < word) (request : InboundMessage) :
    session.handleWarnings names request =
        ((desk.handle config request).2.refusals desk.market.accepted).2.map (Refusal.call names config) ∧
      (desk.handle config request).1.market.accepted =
        ((desk.handle config request).2.refusals desk.market.accepted).1 := by
  have hcases := Desk.handle_cases config desk request
  generalize desk.handle config request = outcome at hcases ⊢
  cases hcases with
  | turnedAway hcommand => exact ⟨h.turnedAwayWarnings names hcommand, rfl⟩
  | @refused request reason hnew hsymbol hrefusal =>
    rw [h.submittedWarnings_new names hnew hsymbol, Session.processWarnings,
      h.newOrderWarnings_refused names hn hlt hrefusal]
    exact ⟨rfl, rfl⟩
  | @accepted request hnew hsymbol hrefusal =>
    rw [h.submittedWarnings_new names hnew hsymbol, Session.processWarnings,
      h.newOrderWarnings_accepted names hnew hrefusal]
    unfold Transcript.refusals
    rw [noRoom_acceptEvents, Market.countP_acceptEvents desk.market _ (fun _ => rfl) fun _ => rfl]
    exact ⟨rfl, rfl⟩
  | @unknown request orderId hsymbol horder hlookup =>
    rw [h.submittedWarnings_cancel names hsymbol horder, Session.processWarnings, h.cancelWarnings_eq]
    exact ⟨rfl, rfl⟩
  | @foreign request orderId order hsymbol horder hlookup howner =>
    rw [h.submittedWarnings_cancel names hsymbol horder, Session.processWarnings, h.cancelWarnings_eq]
    exact ⟨rfl, rfl⟩
  | @withdrawn request orderId order hsymbol horder hlookup hclient hclientOrder =>
    rw [h.submittedWarnings_cancel names hsymbol horder, Session.processWarnings, h.cancelWarnings_eq]
    exact ⟨rfl, rfl⟩

end Serves

namespace Desk

variable {config : OrderBookConfig} {desk : Desk}

theorem accepted_handle_le (config : OrderBookConfig) (desk : Desk) (request : InboundMessage) :
    (desk.handle config request).1.market.accepted ≤ desk.market.accepted + 1 := by
  have hcases := Desk.handle_cases config desk request
  generalize desk.handle config request = outcome at hcases ⊢
  cases hcases with
  | accepted => exact Nat.le_refl _
  | _ => exact Nat.le_succ _

theorem nextSequence_handle_lt (hseq : desk.nextSequence < word) (request : InboundMessage) :
    (desk.handle config request).1.nextSequence < word := by
  have hcases := Desk.handle_cases config desk request
  generalize desk.handle config request = outcome at hcases ⊢
  cases hcases with
  | turnedAway => exact hseq
  | _ => exact Nat.mod_lt _ (by decide)

theorem refusals_length_le (config : OrderBookConfig) (desk : Desk) (request : InboundMessage) (accepted : ℕ) :
    ((desk.handle config request).2.refusals accepted).2.length ≤ 1 := by
  have hcases := Desk.handle_cases config desk request
  generalize desk.handle config request = outcome at hcases ⊢
  cases hcases with
  | accepted hnew hsymbol hrefusal =>
    unfold Transcript.refusals
    rw [noRoom_acceptEvents]
    exact Nat.zero_le 1
  | turnedAway => exact Nat.zero_le 1
  | _ => exact List.length_filterMap_le _ _

theorem refusals_fit (hseq : desk.nextSequence < word) (hlt : desk.market.accepted + 1 < word)
    (request : InboundMessage) :
    ∀ refusal ∈ ((desk.handle config request).2.refusals desk.market.accepted).2, refusal.Fits := by
  have hcases := Desk.handle_cases config desk request
  generalize desk.handle config request = outcome at hcases ⊢
  cases hcases with
  | refused hnew hsymbol hrefusal =>
    unfold Transcript.refusals
    rw [noRoom_rejected]
    intro refusal hmem
    split_ifs at hmem
    · rw [List.mem_singleton.mp hmem]
      exact ⟨hseq, hlt⟩
    · cases hmem
  | accepted hnew hsymbol hrefusal =>
    unfold Transcript.refusals
    rw [noRoom_acceptEvents]
    exact List.forall_mem_nil _
  | _ => exact List.forall_mem_nil _

end Desk

namespace Cli

open AsyncFileLogger

def requests (lines : List Bytes) : List InboundMessage := lines.filterMap fun line => (TextCodec.decode line).toOption

theorem requests_error {line : Bytes} {refusal : OrderRejected} (h : TextCodec.decode line = .error refusal)
    (lines : List Bytes) : requests (line :: lines) = requests lines :=
  List.filterMap_cons_none (congrArg Except.toOption h)

theorem requests_ok {line : Bytes} {request : InboundMessage} (h : TextCodec.decode line = .ok request)
    (lines : List Bytes) : requests (line :: lines) = request :: requests lines :=
  List.filterMap_cons_some (congrArg Except.toOption h)

def refusals (transcripts : List Transcript) : List Refusal :=
  (Transducer.trace Transcript.refusals 0 transcripts).2.flatten

theorem runWarnings_eq (names : FunctionNames) {config : OrderBookConfig} {session : Session} {desk : Desk}
    {queues : Side → List Slot} {messages : List OutboundMessage} (h : Serves config session desk queues)
    (hc : Consistent config desk messages) (hseq : desk.nextSequence < word) (lines : List Bytes)
    (hlt : desk.market.accepted + lines.length < word) :
    ∃ final transcripts, session.run (requests lines) = .ok (final, transcripts) ∧
      let refusals := (Transducer.trace Transcript.refusals desk.market.accepted transcripts).2.flatten
      runWarnings names session lines = refusals.map (Refusal.call names config) ∧
        refusals.length ≤ lines.length ∧ ∀ refusal ∈ refusals, refusal.Fits := by
  induction lines generalizing session desk queues messages with
  | nil => exact ⟨session, [], rfl, rfl, Nat.le_refl 0, List.forall_mem_nil _⟩
  | cons line lines ih =>
    rw [List.length_cons] at hlt
    unfold runWarnings stepWarnings step
    cases hdecode : TextCodec.decode line with
    | error refusal =>
      rw [requests_error hdecode]
      obtain ⟨final, transcripts, hrest, hlogged, hlength, hfits⟩ := ih h hc hseq (by omega)
      exact ⟨final, transcripts, hrest, hlogged, Nat.le_succ_of_le hlength, hfits⟩
    | ok request =>
      rw [requests_ok hdecode]
      obtain ⟨session', queues', hrun, h', -⟩ := h.handle request
      have hle := desk.accepted_handle_le config request
      obtain ⟨hwarnings, haccepted⟩ := h.handleWarnings_eq names hc.numbered (by omega) request
      obtain ⟨final, transcripts, hrest, hlogged, hlength, hfits⟩ :=
        ih h' (hc.handle request (by omega)) (Desk.nextSequence_handle_lt hseq request) (by omega)
      refine ⟨final, _, Transducer.run_cons_ok hrun hrest, ?_, ?_, ?_⟩
      · dsimp only
        rw [hwarnings, hrun, ok_bind]
        dsimp only
        rw [hlogged, Transducer.trace_cons, List.flatten_cons, List.map_append, haccepted]
      · have hone := desk.refusals_length_le config request desk.market.accepted
        rw [Transducer.trace_cons, List.flatten_cons, List.length_append, List.length_cons, ← haccepted]
        omega
      · rw [Transducer.trace_cons, List.flatten_cons, ← haccepted]
        intro refusal hmem
        rcases List.mem_append.mp hmem with hmem | hmem
        · exact Desk.refusals_fit hseq (by omega) request refusal hmem
        · exact hfits refusal hmem

end Cli

namespace Refusal

open AsyncFileLogger

variable (names : FunctionNames) (config : OrderBookConfig) (refusal : Refusal)

def record : LogRecord where
  level := .warning
  functionName := names.admitOrder
  format := (refusal.call names config).format
  arguments := (refusal.call names config).captureArguments

def message : Bytes :=
  ascii "Order pool exhausted sequence=" ++ TextCodec.decimal refusal.sequence ++ ascii ", order_id=" ++
    TextCodec.decimal refusal.orderId ++ ascii ", capacity=" ++ TextCodec.decimal config.maxActiveOrders

def lineEntry (now : LocalTime) : Line Refusal → LogEntry
  | .record refusal =>
    { timestamp := writeTimestamp now, level := ascii "WARNING", function := shortFunctionName names.admitOrder
      message := refusal.message config }
  | .dropped count =>
    { timestamp := writeTimestamp now, level := ascii "WARNING", function := ascii "AsyncFileLogger::run"
      message := ascii "Dropped log records count=" ++ TextCodec.decimal count }

variable {names config refusal}

theorem oneLine_call (hname : 10 ∉ names.admitOrder) : (refusal.call names config).OneLine := by
  refine ⟨hname, by change 10 ∉ ascii _; decide, fun value hvalue => ?_⟩
  obtain ⟨n, -, rfl⟩ := List.mem_map.mp hvalue
  trivial

theorem toNat_ofNat {n : ℕ} (h : n < word) : (UInt64.ofNat n).toNat = n := UInt64.toNat_ofNat_of_lt h

theorem output_record (doubleText : UInt64 → Bytes) (h : refusal.Fits) (hcapacity : config.maxActiveOrders < word) :
    output doubleText (writeFormattedMessage (refusal.record names config).format
      (refusal.record names config).arguments) = refusal.message config := by
  have hformat : (refusal.record names config).format =
      template [ascii "Order pool exhausted sequence=", ascii ", order_id=", ascii ", capacity="] := by
    change ascii _ = _
    decide
  rw [writeFormattedMessage, hformat, output_template doubleText _ (by decide +kernel) rfl]
  change _ ++ TextCodec.decimal _ ++ (_ ++ TextCodec.decimal _ ++ (_ ++ TextCodec.decimal _ ++ [])) = _
  rw [toNat_ofNat h.sequence, toNat_ofNat h.orderId, toNat_ofNat hcapacity]
  simp [message]

theorem entry_line {doubleText : UInt64 → Bytes} (now : LocalTime) {line : Line Refusal}
    (hfits : ∀ refusal, line = .record refusal → refusal.Fits) (hcapacity : config.maxActiveOrders < word) :
    entry doubleText now (line.map (record names config)) = lineEntry names config now line := by
  cases line with
  | record refusal =>
    rw [lineEntry, ← output_record doubleText (hfits refusal rfl) hcapacity]
    rfl
  | dropped count => rfl

end Refusal

namespace Cli

open AsyncFileLogger
open scoped List

theorem mainRecords_eq (names : FunctionNames) {config : OrderBookConfig} {session : Session}
    (h : Opened config session) {input : Bytes} (hlt : input.length < word) :
    ∃ final transcripts, session.run (requests (getLines input)) = .ok (final, transcripts) ∧
      mainRecords names config input =
        ((refusals transcripts).map (Refusal.call names config)).filterMap (enqueue .warning) ∧
      (refusals transcripts).length < word ∧ ∀ refusal ∈ refusals transcripts, refusal.Fits := by
  have hlines : (getLines input).length < word := (getLines_length_le input).trans_lt hlt
  have hstart : Desk.empty.market.accepted + (getLines input).length < word := (Nat.zero_add _).trans_lt hlines
  obtain ⟨final, transcripts, hrun, hlogged, hlength, hfits⟩ :=
    runWarnings_eq names h.serves (.empty config) (by decide) (getLines input) hstart
  refine ⟨final, transcripts, hrun, ?_, hlength.trans_lt hlines, hfits⟩
  rw [mainRecords, h.created]
  dsimp only
  rw [hlogged]
  rfl

theorem readAll_refusals (config : OrderBookConfig) {names : FunctionNames} (hname : 10 ∉ names.admitOrder)
    {doubleText : UInt64 → Bytes} (hdouble : ∀ bits, 10 ∉ doubleText bits) {refusals : List Refusal}
    (hlength : refusals.length < word) (storage : ℕ → LogRecord) (clock : ℕ → LocalTime) (schedule : List Thread) :
    let records := (refusals.map (Refusal.call names config)).filterMap (enqueue .warning)
    let final := (Threads.start storage records).interleave schedule
    LogEntry.readAll (fileText doubleText clock final.lines) =
      final.lines.mapIdx fun n line => entry doubleText (clock n) line := by
  intro records final
  have hcalls : ∀ call ∈ refusals.map (Refusal.call names config), call.OneLine := by
    intro call hcall
    obtain ⟨refusal, -, rfl⟩ := List.mem_map.mp hcall
    exact Refusal.oneLine_call hname
  have hshort : records.length < word := by
    apply (List.length_filterMap_le _ _).trans_lt
    rwa [List.length_map]
  exact ((Threads.Tracked.start storage records).interleave hshort schedule).readAll_lines hdouble hcalls clock

theorem refusals_logged {config : OrderBookConfig} {session : Session} (h : Opened config session) (input : Bytes)
    (hlt : input.length < word) {names : FunctionNames} (hname : 10 ∉ names.admitOrder) {doubleText : UInt64 → Bytes}
    (hdouble : ∀ bits, 10 ∉ doubleText bits) (storage : ℕ → LogRecord) (clock : ℕ → LocalTime) (schedule : List Thread)
    (hreturned : ((Threads.start storage (mainRecords names config input)).interleave schedule).worker = .returned) :
    ∃ final transcripts lines, session.run (requests (getLines input)) = .ok (final, transcripts) ∧
      LogEntry.readAll (fileText doubleText clock
        ((Threads.start storage (mainRecords names config input)).interleave schedule).lines) =
          lines.mapIdx (fun n line => Refusal.lineEntry names config (clock n) line) ∧
      writtenRecords lines <+ refusals transcripts ∧
      (writtenRecords lines).length + (writtenDropped lines).sum = (refusals transcripts).length ∧
      ((refusals transcripts).length ≤ queueCapacity → lines = (refusals transcripts).map .record) := by
  obtain ⟨final, transcripts, hrun, hrecords, hlength, hfits⟩ := mainRecords_eq names h hlt
  have hmap : mainRecords names config input = (refusals transcripts).map (Refusal.record names config) := by
    rw [hrecords, List.filterMap_map]
    exact congrFun List.filterMap_eq_map _
  have hread := readAll_refusals config hname hdouble hlength storage clock schedule
  rw [← hrecords, hmap] at hread
  rw [hmap] at hreturned ⊢
  obtain ⟨lines, hlines, htold, hcount, hfew⟩ := lines_of_values _ hlength storage schedule hreturned
  have hcapacity : config.maxActiveOrders < word := h.serves.engine.config_eq ▸ h.serves.engine.inv.capacity_lt
  refine ⟨final, transcripts, lines, hrun, ?_, htold, hcount, hfew⟩
  rw [hread, hlines, mapIdx_map, List.mapIdx_eq_mapIdx_iff]
  intro i hi
  apply Refusal.entry_line (clock i) _ hcapacity
  intro refusal hline
  exact hfits refusal (htold.subset (List.mem_filterMap.mpr ⟨_, List.getElem_mem hi, by rw [hline]⟩))

def sampleNames : FunctionNames where
  admitOrder := ascii "std::expected<Order*, RejectReason> sixchange::OrderBook::admit(const NewOrderCommand&, OrderId)"
  execute := ascii "NewOrderOutcome sixchange::OrderBook::execute(Order*, MatchSink)"
  cancel := ascii "CancelResult sixchange::OrderBook::cancel(const CancelOrderCommand&)"
  onEngineEvent := ascii "void sixchange::OrderGateway::on_engine_event(const EngineEvent&)"

def narrowConfig : OrderBookConfig := { maxActiveOrders := 1, priceLevelCount := 8, orderLookupCapacity := 2 }

def crowdedInput : Bytes := ascii "N 1 AAPL S L GFD 5 10\nN 2 AAPL S L GFD 6 10\n"

def crowdedThreads : Threads LogRecord :=
  (Threads.start (fun _ => ⟨.trace, [], [], ⟨[], Nat.zero_le _⟩⟩)
    (mainRecords sampleNames narrowConfig crowdedInput)).interleave
      (List.replicate 6 .producer ++ .destructor :: List.replicate 19 .worker)

theorem narrow_opened : ∃ session, Opened narrowConfig session := by
  have hsome : (Session.create narrowConfig).isSome = true := rfl
  obtain ⟨session, hsession⟩ := Option.isSome_iff_exists.mp hsome
  exact ⟨session, by decide, hsession⟩

theorem refusals_logged_crowded : ∃ session, Opened narrowConfig session ∧
    ∃ final transcripts lines, session.run (requests (getLines crowdedInput)) = .ok (final, transcripts) ∧
      LogEntry.readAll (fileText (fun _ => []) (fun n => ⟨2026, 3, 4, 5, 6, 7, n⟩) crowdedThreads.lines) =
        lines.mapIdx (fun n line => Refusal.lineEntry sampleNames narrowConfig ⟨2026, 3, 4, 5, 6, 7, n⟩ line) ∧
      writtenRecords lines <+ refusals transcripts ∧
      (writtenRecords lines).length + (writtenDropped lines).sum = (refusals transcripts).length ∧
      ((refusals transcripts).length ≤ queueCapacity → lines = (refusals transcripts).map .record) := by
  obtain ⟨session, h⟩ := narrow_opened
  exact ⟨session, h, refusals_logged h crowdedInput (by decide) (by decide) (fun _ => List.not_mem_nil) _ _ _
    (by decide +kernel)⟩

example : fileText (fun _ => []) (fun n => ⟨2026, 3, 4, 5, 6, 7, n⟩) crowdedThreads.lines =
    ascii "2026-03-04T05:06:07.000000 WARNING OrderBook::admit " ++
      ascii "Order pool exhausted sequence=2, order_id=2, capacity=1\n" := by
  decide +kernel

end Cli

end Sixchange
