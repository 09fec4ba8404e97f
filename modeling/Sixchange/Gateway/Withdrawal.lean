import Sixchange.Engine.BestPrices
import Sixchange.Gateway.Agreement
import Sixchange.Gateway.Issued

namespace Sixchange

open Market

structure Trade where
  restingClientOrderId : ℕ
  aggressingClientOrderId : ℕ
  price : ℕ
  quantity : ℕ
  restingOrderId : ℕ
  aggressingOrderId : ℕ
  deriving DecidableEq, Repr

def EngineEvent.trade : EngineEvent → Option Trade
  | .tradeExecuted event => some {
      restingClientOrderId := event.restingClientOrderId, aggressingClientOrderId := event.aggressingClientOrderId
      price := event.price, quantity := event.quantity, restingOrderId := event.restingOrderId
      aggressingOrderId := event.aggressingOrderId }
  | _ => none

def Transcript.trades (transcript : Transcript) : List Trade := transcript.events.filterMap EngineEvent.trade

def tradesIn (transcripts : List Transcript) : List Trade := transcripts.flatMap Transcript.trades

def OutboundMessage.reason : OutboundMessage → Option RejectReason
  | .orderRejected rejected => some rejected.reason
  | _ => none

def Trade.renumber (gap : ℕ) (trade : Trade) : Trade :=
  { trade with
    restingOrderId := closeGap gap trade.restingOrderId
    aggressingOrderId := closeGap gap trade.aggressingOrderId }

def OutboundMessage.renumber (gap : ℕ) : OutboundMessage → OutboundMessage
  | .orderAccepted accepted => .orderAccepted { accepted with orderId := closeGap gap accepted.orderId }
  | .orderCancelled cancelled => .orderCancelled { cancelled with orderId := closeGap gap cancelled.orderId }
  | .orderRejected rejected => .orderRejected rejected

def Fill.trade (command : NewOrderCommand) (orderId : ℕ) (fill : Fill) : Trade where
  restingClientOrderId := fill.resting.clientOrderId
  aggressingClientOrderId := command.clientOrderId
  price := fill.resting.price
  quantity := fill.quantity
  restingOrderId := fill.resting.orderId
  aggressingOrderId := orderId

theorem trade_tradeEvents (command : NewOrderCommand) (orderId trades : ℕ) (fills : List Fill) :
    (tradeEvents command orderId trades fills).filterMap EngineEvent.trade =
      fills.map (Fill.trade command orderId) := by
  induction fills generalizing trades with
  | nil => rfl
  | cons fill fills ih => exact congrArg (fill.trade command orderId :: ·) (ih (trades + 1))

theorem trade_acceptEvents (market : Market) (command : NewOrderCommand) :
    (market.acceptEvents command).filterMap EngineEvent.trade =
      (market.swept command).fills.map (Fill.trade command market.nextId) := by
  have hlast : (if 0 < (market.swept command).unfilled then
      [rested command market.nextId (market.swept command).unfilled] else []).filterMap EngineEvent.trade = [] := by
    split_ifs <;> rfl
  unfold acceptEvents
  rw [List.filterMap_cons, List.filterMap_append, trade_tradeEvents, hlast, List.append_nil]
  rfl

/-- What a request leads to where there is room for all orders, where the order that the client knows as `c`
gets the id `gap`, and where this order does not trade. -/
structure Quiet (c gap : ℕ) (transcript : Transcript) : Prop where
  room : ∀ message ∈ transcript.messages, message.reason ≠ some .capacityExhausted
  named : ∀ c' id, OrderAccepted.message c' id ∈ transcript.messages → (c' = c ↔ id = gap)
  untraded : ∀ trade ∈ transcript.trades, trade.restingOrderId ≠ gap ∧ trade.aggressingOrderId ≠ gap

structure Parted (c gap : ℕ) (desk desk' : Desk) : Prop where
  market : Without gap desk.market desk'.market
  clientOrders_eq : ∀ c' ≠ c, desk'.clientOrders c' = (desk.clientOrders c').map (closeGap gap)
  named : ∀ c' id, desk.clientOrders c' = some id → (c' = c ↔ id = gap)

namespace Parted

variable {config : OrderBookConfig} {c gap : ℕ} {desk desk' : Desk} {messages : List OutboundMessage}
  {request : InboundMessage} {outcome : Desk × Transcript}

theorem empty (c : ℕ) {gap : ℕ} : Parted c gap .empty .empty := by
  refine ⟨⟨fun _ => rfl, ?_, rfl⟩, fun _ _ => rfl, fun c' id h => nomatch h⟩
  exact (if_neg (Nat.not_le.mpr (arrival_pos gap))).symm

theorem nextSequence (h : Parted c gap desk desk') (nextSequence nextSequence' : ℕ) :
    Parted c gap { desk with nextSequence } { desk' with nextSequence := nextSequence' } :=
  ⟨h.market, h.clientOrders_eq, h.named⟩

theorem none_iff (h : Parted c gap desk desk') {c' : ℕ} (hne : c' ≠ c) :
    desk'.clientOrders c' = none ↔ desk.clientOrders c' = none := by
  rw [h.clientOrders_eq c' hne, Option.map_eq_none_iff]

theorem known (h : Parted c gap desk desk') {c' id : ℕ} (hne : c' ≠ c) (hid : desk.clientOrders c' = some id) :
    desk'.clientOrders c' = some (closeGap gap id) ∧ id ≠ gap := by
  refine ⟨?_, fun he => hne ((h.named c' id hid).mpr he)⟩
  rw [h.clientOrders_eq c' hne, hid]
  rfl

theorem command_error (h : Parted c gap desk desk') (hne : request.clientOrderId ≠ c) {reason : RejectReason}
    (hcommand : desk.command request = .error reason) : desk'.command request = .error reason := by
  cases request with
  | newOrder request =>
    change request.clientOrderId ≠ c at hne
    have hused : (desk'.clientOrders request.clientOrderId).isSome =
        (desk.clientOrders request.clientOrderId).isSome := by
      rw [h.clientOrders_eq _ hne, Option.isSome_map]
    unfold Desk.command at hcommand ⊢
    dsimp only at hcommand ⊢
    rw [hused]
    split_ifs at hcommand ⊢ <;> exact hcommand
  | cancelOrder request =>
    change request.clientOrderId ≠ c at hne
    unfold Desk.command at hcommand ⊢
    dsimp only at hcommand ⊢
    rw [h.clientOrders_eq _ hne]
    split_ifs at hcommand ⊢
    · exact hcommand
    · cases horder : desk.clientOrders request.clientOrderId with
      | none =>
        rw [horder] at hcommand
        exact hcommand
      | some orderId =>
        rw [horder] at hcommand
        cases hcommand

theorem refusal_eq (h : Parted c gap desk desk') (hi : Issued config desk messages) (hgap : gap < word)
    {request : NewOrderRequest} (hnew : desk.clientOrders request.clientOrderId = none)
    (hvalid : request.clientOrderId < word)
    (hfull : desk.market.refusal 0 config (desk.newOrderCommand request) ≠ some .capacityExhausted) :
    desk'.market.refusal 0 config (desk'.newOrderCommand request) =
      desk.market.refusal 0 config (desk.newOrderCommand request) :=
  h.market.refusal_eq hi.market_arrived hgap (hi.accepted_lt hnew hvalid) hi.room hfull

theorem lookup_eq (h : Parted c gap desk desk') (hi : Issued config desk messages) (hgap : gap < word) {c' id : ℕ}
    (hne : c' ≠ c) (hid : desk.clientOrders c' = some id) :
    desk'.clientOrders c' = some (closeGap gap id) ∧
      desk'.market.lookup (closeGap gap id) = (desk.market.lookup id).map (RestingOrder.renumber gap) := by
  obtain ⟨hid', hother⟩ := h.known hne hid
  exact ⟨hid', h.market.lookup_eq hi.market_arrived hgap (hi.arrived c' id hid).1 hother⟩

theorem named_accept (h : Parted c gap desk desk') {clientOrderId id : ℕ} (hid : clientOrderId = c ↔ id = gap)
    (c' id' : ℕ) (hc' : Function.update desk.clientOrders clientOrderId (some id) c' = some id') :
    c' = c ↔ id' = gap := by
  by_cases he : c' = clientOrderId
  · rw [he, Function.update_self] at hc'
    obtain rfl := Option.some.inj hc'
    rw [he]
    exact hid
  · rw [Function.update_of_ne he] at hc'
    exact h.named c' id' hc'

theorem accept (h : Parted c gap desk desk') {clientOrderId id id' : ℕ} (hne : clientOrderId ≠ c) (hid : id ≠ gap)
    (hid' : id' = closeGap gap id) {market market' : Market} (hmarket : Without gap market market')
    (nextSequence nextSequence' : ℕ) :
    Parted c gap { market, clientOrders := Function.update desk.clientOrders clientOrderId (some id), nextSequence }
      { market := market', clientOrders := Function.update desk'.clientOrders clientOrderId (some id')
        nextSequence := nextSequence' } := by
  refine ⟨hmarket, ?_, h.named_accept (iff_of_false hne hid)⟩
  intro c' hc'
  dsimp only
  by_cases he : c' = clientOrderId
  · rw [he, Function.update_self, Function.update_self, hid']
    rfl
  · rw [Function.update_of_ne he, Function.update_of_ne he, h.clientOrders_eq c' hc']

theorem accept_own (h : Parted c gap desk desk') {clientOrderId id : ℕ} (he : clientOrderId = c) (hid : id = gap)
    {market : Market} (hmarket : Without gap market desk'.market) (nextSequence nextSequence' : ℕ) :
    Parted c gap { market, clientOrders := Function.update desk.clientOrders clientOrderId (some id), nextSequence }
      { desk' with nextSequence := nextSequence' } := by
  refine ⟨hmarket, ?_, h.named_accept (iff_of_true he hid)⟩
  intro c' hc'
  have hother : c' ≠ clientOrderId := fun heq => hc' (heq.trans he)
  dsimp only
  rw [Function.update_of_ne hother, h.clientOrders_eq c' hc']

theorem quiet_fills {request : NewOrderRequest} {sent : List OutboundMessage} {command : Option EngineCommand}
    (hquiet : Quiet c gap ⟨command, desk.market.acceptEvents (desk.newOrderCommand request), sent⟩) :
    ∀ fill ∈ (desk.market.swept (desk.newOrderCommand request)).fills,
      fill.resting.orderId ≠ gap ∧ desk.market.nextId ≠ gap := by
  intro fill hfill
  refine hquiet.untraded (fill.trade (desk.newOrderCommand request) desk.market.nextId) ?_
  unfold Transcript.trades
  rw [trade_acceptEvents]
  exact List.mem_map_of_mem hfill

theorem skip (h : Parted c gap desk desk') (hi : Issued config desk messages)
    (he : request.clientOrderId = c) (hvalid : request.clientOrderId < word)
    (hhandled : Desk.Handled config desk request outcome) (hquiet : Quiet c gap outcome.2) :
    Parted c gap outcome.1 desk' ∧ outcome.2.trades = [] := by
  cases hhandled with
  | turnedAway => exact ⟨h, rfl⟩
  | refused => exact ⟨h.nextSequence _ _, rfl⟩
  | @accepted request hnew hsymbol hrefusal =>
    have hnext : desk.market.nextId = gap := (hquiet.named _ _ (List.mem_singleton_self _)).mp he
    have hfills : (desk.market.swept (desk.newOrderCommand request)).fills = [] := by
      apply List.eq_nil_iff_forall_not_mem.mpr
      exact fun fill hfill => (quiet_fills hquiet fill hfill).2 hnext
    refine ⟨h.accept_own he hnext (h.market.accept_gap hi.sound (hi.accepted_lt hnew hvalid) hnext hfills) _ _, ?_⟩
    unfold Transcript.trades
    rw [trade_acceptEvents, hfills]
    rfl
  | unknown => exact ⟨h.nextSequence _ _, rfl⟩
  | foreign => exact ⟨h.nextSequence _ _, rfl⟩
  | @withdrawn request orderId order hsymbol horder hlookup hclient hclientOrder =>
    obtain rfl := (h.named _ _ horder).mp he
    exact ⟨⟨h.market.remove_gap, h.clientOrders_eq, h.named⟩, rfl⟩

theorem keep (h : Parted c gap desk desk') (hi : Issued config desk messages) (hgap : gap < word)
    (hne : request.clientOrderId ≠ c) (hvalid : request.clientOrderId < word)
    (hhandled : Desk.Handled config desk request outcome) (hquiet : Quiet c gap outcome.2) :
    ∃ outcome', Desk.Handled config desk' request outcome' ∧ Parted c gap outcome.1 outcome'.1 ∧
      outcome'.2.messages = outcome.2.messages.map (OutboundMessage.renumber gap) ∧
      outcome'.2.trades = outcome.2.trades.map (Trade.renumber gap) := by
  cases hhandled with
  | turnedAway hcommand => exact ⟨_, .turnedAway (h.command_error hne hcommand), h, rfl, rfl⟩
  | @refused request reason hnew hsymbol hrefusal =>
    have hfull : desk.market.refusal 0 config (desk.newOrderCommand request) ≠ some .capacityExhausted := by
      rw [hrefusal]
      exact hquiet.room _ (List.mem_singleton_self _)
    have hrefusal' := (h.refusal_eq hi hgap hnew hvalid hfull).trans hrefusal
    exact ⟨_, .refused ((h.none_iff hne).mpr hnew) hsymbol hrefusal', h.nextSequence _ _, rfl, rfl⟩
  | @accepted request hnew hsymbol hrefusal =>
    have hlt := hi.accepted_lt hnew hvalid
    have hfull : desk.market.refusal 0 config (desk.newOrderCommand request) ≠ some .capacityExhausted := by
      rw [hrefusal]
      exact (Option.some_ne_none _).symm
    have hrefusal' := (h.refusal_eq hi hgap hnew hvalid hfull).trans hrefusal
    have hnamed := hquiet.named _ _ (List.mem_singleton_self _)
    have hnext : desk.market.nextId ≠ gap := fun he => hne (hnamed.mpr he)
    have hfills := fun fill hfill => (quiet_fills hquiet fill hfill).1
    have hnextId := h.market.nextId_eq hlt hnext hgap
    have hswept : desk'.market.swept (desk'.newOrderCommand request) = _ := h.market.swept_eq hi.sound hfills
    have hmarket := h.market.accept hi.sound hlt hgap hnext hfills
    refine ⟨_, .accepted ((h.none_iff hne).mpr hnew) hsymbol hrefusal', h.accept hne hnext hnextId hmarket _ _, ?_, ?_⟩
    · rw [hnextId]
      rfl
    · unfold Transcript.trades
      dsimp only
      rw [trade_acceptEvents, trade_acceptEvents, hswept, hnextId]
      simp only [Swept.map, List.map_map]
      rfl
  | @unknown request orderId hsymbol horder hlookup =>
    obtain ⟨horder', hlookup'⟩ := h.lookup_eq hi hgap hne horder
    rw [hlookup] at hlookup'
    exact ⟨_, .unknown hsymbol horder' hlookup', h.nextSequence _ _, rfl, rfl⟩
  | @foreign request orderId order hsymbol horder hlookup howner =>
    obtain ⟨horder', hlookup'⟩ := h.lookup_eq hi hgap hne horder
    rw [hlookup] at hlookup'
    exact ⟨_, .foreign hsymbol horder' hlookup' howner, h.nextSequence _ _, rfl, rfl⟩
  | @withdrawn request orderId order hsymbol horder hlookup hclient hclientOrder =>
    obtain ⟨horder', hlookup'⟩ := h.lookup_eq hi hgap hne horder
    rw [hlookup] at hlookup'
    have hmarket := h.market.remove hi.market_arrived hgap (hi.arrived _ _ horder).1 (h.known hne horder).2
    exact ⟨_, .withdrawn hsymbol horder' hlookup' hclient hclientOrder, ⟨hmarket, h.clientOrders_eq, h.named⟩,
      rfl, rfl⟩

end Parted

structure Renumbered (gap : ℕ) (book book' : OrderBook) : Prop where
  levelOrders : ∀ side index,
    book'.levelOrders side index = (book.levelOrders side index).map (RestingOrder.renumber gap)
  bestBid_eq : book'.bestBid = book.bestBid
  bestAsk_eq : book'.bestAsk = book.bestAsk

theorem Refines.renumbered {symbolId gap : ℕ} {config : OrderBookConfig} {engine engine' : MatchingEngine}
    {market market' : Market} {queues queues' : Side → List Slot} (hr : Refines symbolId config engine market queues)
    (hr' : Refines symbolId config engine' market' queues') (h : Without gap market market')
    (hgone : gap ∉ market.ids) : Renumbered gap engine.orderBook engine'.orderBook := by
  have hbook : ∀ sd, market'.book sd = (market.book sd).map (RestingOrder.renumber gap) := by
    intro sd
    rw [h.book, without, List.filter_eq_self.mpr]
    intro r hr
    exact decide_eq_true fun he => hgone (mem_ids.mpr ⟨sd, r, hr, he⟩)
  have hbest : ∀ sd, (engine'.orderBook.sides sd).best = (engine.orderBook.sides sd).best := by
    intro sd
    rw [hr'.best_eq, hr.best_eq, hbook, List.head?_map, Option.map_map]
    rfl
  refine ⟨fun sd p => ?_, hbest .buy, hbest .sell⟩
  rw [hr'.levelOrders_eq, hr.levelOrders_eq, hbook, List.filter_map]
  rfl

theorem desk_issued (config : OrderBookConfig) {requests : List InboundMessage}
    (hvalid : ∀ request ∈ requests, request.clientOrderId < word) :
    Issued config (Transducer.trace (Desk.handle config) .empty requests).1
      (sentMessages (Transducer.trace (Desk.handle config) .empty requests).2) := by
  let see (sent : List OutboundMessage) (transcript : Transcript) := sent ++ transcript.messages
  have hstep : ∀ desk sent (request : InboundMessage), request.clientOrderId < word → Issued config desk sent →
      Issued config (desk.handle config request).1 (see sent (desk.handle config request).2) :=
    fun desk sent request hvalid h => h.handle hvalid
  have hend := Transducer.trace_observes_of hstep (Issued.empty config) hvalid
  rw [List.foldl_append_eq_append, List.nil_append, ← List.flatMap_def] at hend
  exact hend

theorem desk_parted (config : OrderBookConfig) {requests : List InboundMessage} {c gap : ℕ} (hgap : gap < word)
    (hvalid : ∀ request ∈ requests, request.clientOrderId < word)
    (hquiet : ∀ transcript ∈ (Transducer.trace (Desk.handle config) .empty requests).2, Quiet c gap transcript) :
    let run := Transducer.trace (Desk.handle config) .empty requests
    let run' := Transducer.trace (Desk.handle config) .empty (requests.filter (·.clientOrderId ≠ c))
    Parted c gap run.1 run'.1 ∧
      run'.2.map Transcript.messages = (Transducer.answersTo (·.clientOrderId ≠ c) requests run.2).map
        (fun transcript => transcript.messages.map (OutboundMessage.renumber gap)) ∧
      tradesIn run'.2 = (tradesIn run.2).map (Trade.renumber gap) := by
  let R (desk desk' : Desk) : Prop := (∃ messages, Issued config desk messages) ∧ Parted c gap desk desk'
  let answered (transcript : Transcript) := transcript.messages.map (OutboundMessage.renumber gap)
  let traded (transcript : Transcript) := transcript.trades.map (Trade.renumber gap)
  have hdrop : ∀ (desk desk' : Desk) (request : InboundMessage), R desk desk' → request.clientOrderId < word →
      decide (request.clientOrderId ≠ c) = false → Quiet c gap (desk.handle config request).2 →
      R (desk.handle config request).1 desk' ∧ traded (desk.handle config request).2 = [] := by
    rintro desk desk' request ⟨⟨messages, hi⟩, hp⟩ hvalid hkeep hquiet
    have he : request.clientOrderId = c := not_not.mp (of_decide_eq_false hkeep)
    obtain ⟨hp', htrades⟩ := hp.skip hi he hvalid (Desk.handle_cases config desk request) hquiet
    exact ⟨⟨⟨_, hi.handle hvalid⟩, hp'⟩, congrArg (List.map (Trade.renumber gap)) htrades⟩
  have hkeep : ∀ (desk desk' : Desk) (request : InboundMessage), R desk desk' → request.clientOrderId < word →
      decide (request.clientOrderId ≠ c) = true → Quiet c gap (desk.handle config request).2 →
      R (desk.handle config request).1 (desk'.handle config request).1 ∧
        (desk'.handle config request).2.messages = answered (desk.handle config request).2 ∧
        (desk'.handle config request).2.trades = traded (desk.handle config request).2 := by
    rintro desk desk' request ⟨⟨messages, hi⟩, hp⟩ hvalid hkeep hquiet
    obtain ⟨outcome', hhandled, hp', hmessages, htrades⟩ :=
      hp.keep hi hgap (of_decide_eq_true hkeep) hvalid (Desk.handle_cases config desk request) hquiet
    rw [hhandled.eq]
    exact ⟨⟨⟨_, hi.handle hvalid⟩, hp'⟩, hmessages, htrades⟩
  have hstart : R .empty .empty := ⟨⟨_, .empty config⟩, .empty c⟩
  obtain ⟨hend, hmessages, htrades⟩ := Transducer.trace_filter hdrop hkeep hstart hvalid hquiet
  refine ⟨hend.2, hmessages, ?_⟩
  unfold tradesIn
  rw [htrades, List.map_flatMap]

/-- An order that is accepted and cancelled without having traded might as well not have been sent: all but
its own requests is answered as if it had not been, but for the numbers of the orders behind it. -/
theorem cancelled_leaves_no_trace {config : OrderBookConfig} {session : Session} (h : Opened config session)
    {requests : List InboundMessage} (hvalid : ∀ request ∈ requests, request.clientOrderId < word) :
    ∃ final transcripts, session.run requests = .ok (final, transcripts) ∧
      ∀ c gap, (∀ message ∈ sentMessages transcripts, message.reason ≠ some .capacityExhausted) →
        OrderAccepted.message c gap ∈ sentMessages transcripts →
        (∀ trade ∈ tradesIn transcripts, trade.restingOrderId ≠ gap ∧ trade.aggressingOrderId ≠ gap) →
        (∃ id, OrderCancelled.message c id ∈ sentMessages transcripts) →
        ∃ final' transcripts', session.run (requests.filter (·.clientOrderId ≠ c)) = .ok (final', transcripts') ∧
          tradesIn transcripts' = (tradesIn transcripts).map (Trade.renumber gap) ∧
          transcripts'.map Transcript.messages =
            (Transducer.answersTo (·.clientOrderId ≠ c) requests transcripts).map
              (fun transcript => transcript.messages.map (OutboundMessage.renumber gap)) ∧
          Renumbered gap final.engine.orderBook final'.engine.orderBook ∧
          ∀ id < word, ∀ id' < word, id ≠ gap → id' ≠ gap → arrival id < arrival id' →
            arrival (closeGap gap id) < arrival (closeGap gap id') := by
  obtain ⟨final, queues, hrun, hserves⟩ := h.run requests
  refine ⟨final, _, hrun, fun c gap hroom haccepted huntraded hcancelled => ?_⟩
  have hi := desk_issued config hvalid
  have hknown := (hi.recorded c gap).mpr haccepted
  have hgap := (hi.arrived c gap hknown).1
  have hgone : gap ∉ (Transducer.trace (Desk.handle config) .empty requests).1.market.ids := by
    obtain ⟨id, hid⟩ := hcancelled
    obtain ⟨hsome, hgone⟩ := hi.gone c id hid
    obtain rfl := Option.some.inj (hknown.symm.trans hsome)
    exact hgone
  have hquiet : ∀ transcript ∈ (Transducer.trace (Desk.handle config) .empty requests).2,
      Quiet c gap transcript := by
    intro transcript ht
    refine ⟨fun message hm => hroom message (List.mem_flatMap_of_mem ht hm), fun c' id hm => ?_,
      fun trade htrade => huntraded trade (List.mem_flatMap_of_mem ht htrade)⟩
    have hid := (hi.recorded c' id).mpr (List.mem_flatMap_of_mem ht hm)
    constructor
    · rintro rfl
      exact Option.some.inj (hid.symm.trans hknown)
    · rintro rfl
      exact hi.injective c' c id hid hknown
  obtain ⟨hp, hmessages, htrades⟩ := desk_parted config hgap hvalid hquiet
  obtain ⟨final', queues', hrun', hserves'⟩ := h.run (requests.filter (·.clientOrderId ≠ c))
  refine ⟨final', _, hrun', htrades, hmessages, hserves.engine.renumbered hserves'.engine hp.market hgone, ?_⟩
  exact fun id hid id' hid' hne hne' => closeGap_strictMono hgap hid hid' hne hne'

def sampleWithdrawal : List InboundMessage :=
  [.newOrder { clientOrderId := 7, symbol := ascii "AAPL", side := .buy, orderType := .limit, tif := .gfd
               price := 100, quantity := 10 },
    .newOrder { clientOrderId := 8, symbol := ascii "AAPL", side := .buy, orderType := .limit, tif := .gfd
                price := 100, quantity := 5 },
    .newOrder { clientOrderId := 9, symbol := ascii "AAPL", side := .sell, orderType := .limit, tif := .gfd
                price := 90, quantity := 4 },
    .cancelOrder { clientOrderId := 8, symbol := ascii "AAPL" }]

theorem cancelled_leaves_no_trace_default : ∃ session, Opened defaultOrderBookConfig session ∧
    ∃ final transcripts final' transcripts', session.run sampleWithdrawal = .ok (final, transcripts) ∧
      session.run (sampleWithdrawal.filter (·.clientOrderId ≠ 8)) = .ok (final', transcripts') ∧
      tradesIn transcripts' = (tradesIn transcripts).map (Trade.renumber 2) ∧
      Renumbered 2 final.engine.orderBook final'.engine.orderBook := by
  obtain ⟨session, h⟩ := Opened.default
  have hvalid : ∀ request ∈ sampleWithdrawal, request.clientOrderId < word := by decide
  obtain ⟨final, transcripts, hrun, hnotrace⟩ := cancelled_leaves_no_trace h hvalid
  have htranscripts := h.transcripts_eq hrun
  obtain ⟨final', transcripts', hrun', htrades, -, hbooks, -⟩ := hnotrace 8 2 (by rw [htranscripts]; decide)
    (by rw [htranscripts]; decide) (by rw [htranscripts]; decide) ⟨2, by rw [htranscripts]; decide⟩
  exact ⟨session, h, final, transcripts, final', transcripts', hrun, hrun', htrades, hbooks⟩

end Sixchange
