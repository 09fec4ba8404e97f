import Sixchange.Market.Conservation

namespace Sixchange

open Account

def EngineCommand.seq : EngineCommand → ℕ
  | .newOrder command => command.seq
  | .cancelOrder command => command.seq
  | .replaceOrder command => command.seq

namespace EngineEvent

def seq : EngineEvent → ℕ
  | .orderAccepted event => event.seq
  | .commandRejected event => event.seq
  | .orderRested event => event.seq
  | .tradeExecuted event => event.seq
  | .orderCancelled event => event.seq
  | .orderExpired event => event.seq
  | .orderReplaced event => event.seq

def acceptedId : EngineEvent → Option ℕ
  | .orderAccepted event => some event.orderId
  | _ => none

def tradeId : EngineEvent → Option ℕ
  | .tradeExecuted event => some event.tradeId
  | _ => none

def leaves (id : ℕ) : EngineEvent → Option ℕ
  | .orderAccepted event => if event.orderId = id then some event.quantity else none
  | .tradeExecuted event =>
    if event.restingOrderId = id then some event.restingRemainingQuantity
    else if event.aggressingOrderId = id then some event.aggressingRemainingQuantity
    else none
  | .orderRested event => if event.orderId = id then some event.remainingQuantity else none
  | .orderCancelled event => if event.orderId = id then some 0 else none
  | _ => none

end EngineEvent

def acceptedIds (log : List EngineEvent) : List ℕ := log.filterMap EngineEvent.acceptedId

def tradeIds (log : List EngineEvent) : List ℕ := log.filterMap EngineEvent.tradeId

def lastRemaining (id : ℕ) (log : List EngineEvent) : Option ℕ :=
  log.foldl (fun remaining event => (event.leaves id).or remaining) none

inductive Traded : ℕ → List TradeExecutedEvent → ℕ → Prop
  | nil {quantity : ℕ} : Traded quantity [] quantity
  | cons {quantity left : ℕ} {event : TradeExecutedEvent} {events : List TradeExecutedEvent}
      (hpos : 0 < event.quantity) (hdrop : event.aggressingRemainingQuantity + event.quantity = quantity)
      (h : Traded event.aggressingRemainingQuantity events left) : Traded quantity (event :: events) left

structure Filled (accepted : OrderAcceptedEvent) (trades : List TradeExecutedEvent)
    (rested : Option OrderRestedEvent) (left : ℕ) : Prop where
  traded : Traded accepted.quantity trades left
  decreasing : (accepted.quantity :: trades.map TradeExecutedEvent.aggressingRemainingQuantity).IsChain (· > ·)
  aggressor : ∀ trade ∈ trades, trade.aggressingOrderId = accepted.orderId
  rested_iff : rested.isSome ↔ 0 < left
  rested_eq : ∀ event ∈ rested, event.orderId = accepted.orderId ∧ event.remainingQuantity = left

inductive Answer : List EngineEvent → Prop
  | rejected (event : CommandRejectedEvent) : Answer [.commandRejected event]
  | cancelled (event : OrderCancelledEvent) : Answer [.orderCancelled event]
  | accepted (event : OrderAcceptedEvent) (trades : List TradeExecutedEvent) (rested : Option OrderRestedEvent)
      (left : ℕ) (h : Filled event trades rested left) :
      Answer (.orderAccepted event :: (trades.map .tradeExecuted ++ rested.toList.map .orderRested))

structure Answered (command : EngineCommand) (events : List EngineEvent) : Prop where
  seq : ∀ event ∈ events, event.seq = command.seq
  answer : Answer events

theorem Traded.decreasing {quantity left : ℕ} {trades : List TradeExecutedEvent} (h : Traded quantity trades left) :
    (quantity :: trades.map TradeExecutedEvent.aggressingRemainingQuantity).IsChain (· > ·) := by
  induction h with
  | nil => exact .singleton _
  | cons hpos hdrop _ ih =>
    rw [List.map_cons]
    exact List.isChain_cons_cons.mpr ⟨by omega, ih⟩

section Sweep

variable (command : NewOrderCommand) (orderId : ℕ)

theorem traded_eq (tradeId : ℕ) (fill : Fill) : ∃ trade,
    traded command orderId tradeId fill = .tradeExecuted trade ∧
    trade.quantity = fill.quantity ∧ trade.aggressingRemainingQuantity = fill.aggressingRemaining ∧
    trade.seq = command.seq ∧ trade.aggressingOrderId = orderId :=
  ⟨_, rfl, rfl, rfl, rfl, rfl⟩

theorem sweep_traded (crosses : ℕ → Bool) {l : List RestingOrder} (hpos : ∀ r ∈ l, 0 < r.remainingQuantity)
    (quantity n : ℕ) : ∃ trades : List TradeExecutedEvent,
      tradeEvents command orderId n (sweep crosses quantity l).fills = trades.map .tradeExecuted ∧
      Traded quantity trades (sweep crosses quantity l).unfilled ∧
      ∀ trade ∈ trades, trade.seq = command.seq ∧ trade.aggressingOrderId = orderId := by
  induction l generalizing quantity n with
  | nil => exact ⟨[], rfl, .nil, fun trade h => absurd h List.not_mem_nil⟩
  | cons r rs ih =>
    rw [List.forall_mem_cons] at hpos
    rw [sweep]
    split_ifs with hgo hlt
    · obtain ⟨trade, htrade, hquantity, hleft, hterms⟩ := traded_eq command orderId ((n + 1) % word)
        ⟨r, quantity, 0, r.remainingQuantity - quantity⟩
      refine ⟨[trade], congrArg (fun event => [event]) htrade, .cons ?_ ?_ (hleft ▸ .nil), ?_⟩
      · exact hquantity ▸ hgo.1
      · rw [hquantity, hleft, Nat.zero_add]
      · exact List.forall_mem_singleton.mpr hterms
    · obtain ⟨trade, htrade, hquantity, hleft, hterm⟩ := traded_eq command orderId ((n + 1) % word)
        ⟨r, r.remainingQuantity, quantity - r.remainingQuantity, 0⟩
      obtain ⟨trades, htrades, htraded, hterms⟩ := ih hpos.2 (quantity - r.remainingQuantity) (n + 1)
      refine ⟨trade :: trades, ?_, .cons ?_ ?_ (hleft ▸ htraded), ?_⟩
      · rw [tradeEvents, htrades, htrade]
        rfl
      · exact hquantity ▸ hpos.1
      · rw [hquantity, hleft, Nat.sub_add_cancel (Nat.le_of_not_lt hlt)]
      · exact List.forall_mem_cons.mpr ⟨hterm, hterms⟩
    · exact ⟨[], rfl, .nil, fun trade h => absurd h List.not_mem_nil⟩

theorem acceptedIds_tradeEvents (n : ℕ) (fills : List Fill) :
    acceptedIds (tradeEvents command orderId n fills) = [] := by
  induction fills generalizing n with
  | nil => rfl
  | cons fill fills ih => exact ih (n + 1)

theorem tradeIds_tradeEvents (fills : List Fill) {n : ℕ} (hlt : n + fills.length < word) :
    tradeIds (tradeEvents command orderId n fills) = List.range' (n + 1) fills.length := by
  induction fills generalizing n with
  | nil => rfl
  | cons fill fills ih =>
    rw [List.length_cons] at hlt
    have hid : (n + 1) % word = n + 1 := Nat.mod_eq_of_lt (by omega)
    rw [tradeEvents, List.length_cons, List.range'_succ, ← ih (by omega), hid]
    rfl

end Sweep

namespace Market

variable {symbolId : ℕ} {config : OrderBookConfig} {market : Market}

theorem answered_accept (hs : market.Sound config) (command : NewOrderCommand) :
    Answered (.newOrder command) (market.acceptEvents command) := by
  obtain ⟨trades, htrades, htraded, hterms⟩ := sweep_traded command market.nextId
    (command.side.opposite.crosses command.price) (hs.quantity command.side.opposite) command.quantity market.trades
  have hform : ∃ (event : OrderAcceptedEvent) (rested : Option OrderRestedEvent),
      market.acceptEvents command =
        .orderAccepted event :: (trades.map .tradeExecuted ++ rested.toList.map .orderRested) ∧
      event.seq = command.seq ∧ (∀ event' ∈ rested, event'.seq = command.seq) ∧
      Filled event trades rested (market.swept command).unfilled := by
    unfold acceptEvents
    split_ifs with hleft
    · refine ⟨_, some _, congrArg₂ _ rfl (congrArg₂ _ htrades rfl), rfl, ?_, htraded, htraded.decreasing,
        fun trade h => (hterms trade h).2, iff_of_true rfl hleft, ?_⟩
      · rintro event' ⟨⟩
        rfl
      · rintro event' ⟨⟩
        exact ⟨rfl, rfl⟩
    · refine ⟨_, none, congrArg₂ _ rfl (congrArg₂ _ htrades rfl), rfl, ?_, htraded, htraded.decreasing,
        fun trade h => (hterms trade h).2, iff_of_false Bool.false_ne_true hleft, ?_⟩
      · rintro event' ⟨⟩
      · rintro event' ⟨⟩
  obtain ⟨event, rested, hevents, hseq, hrested, hfilled⟩ := hform
  rw [hevents]
  refine ⟨?_, .accepted event trades rested _ hfilled⟩
  rw [List.forall_mem_cons, List.forall_mem_append, List.forall_mem_map, List.forall_mem_map]
  exact ⟨hseq, fun trade h => (hterms trade h).1, fun event' h => hrested event' (Option.mem_toList.mp h)⟩

theorem answered_rejection (c : EngineCommand) (reason : RejectReason) : Answered c [rejection c reason] := by
  refine ⟨List.forall_mem_singleton.mpr ?_, .rejected _⟩
  cases c <;> rfl

theorem answered_process (hs : market.Sound config) (c : EngineCommand) :
    Answered c (market.process symbolId config c).2 := by
  rcases process_cases symbolId config market c with ⟨reason, he⟩ | ⟨command, rfl, -, he⟩ |
    ⟨command, order, rfl, -, -, -, -, he⟩ <;> rw [he]
  · exact answered_rejection c reason
  · exact answered_accept hs command
  · exact ⟨List.forall_mem_singleton.mpr rfl, .cancelled _⟩

structure Counted (market : Market) (log : List EngineEvent) : Prop where
  accepted : acceptedIds log = List.range' 1 market.accepted
  trades : tradeIds log = List.range' 1 market.trades

theorem acceptedIds_accept (market : Market) (command : NewOrderCommand) :
    acceptedIds (market.acceptEvents command) = [market.nextId] := by
  have hlast : acceptedIds (if 0 < (market.swept command).unfilled then
      [rested command market.nextId (market.swept command).unfilled] else []) = [] := by
    split_ifs <;> rfl
  have htrades := acceptedIds_tradeEvents command market.nextId market.trades (market.swept command).fills
  unfold acceptedIds at hlast htrades ⊢
  have hfirst : (Sixchange.accepted command market.nextId).acceptedId = some market.nextId := rfl
  rw [acceptEvents, List.filterMap_cons_some hfirst, List.filterMap_append, htrades, hlast]
  rfl

theorem tradeIds_accept (command : NewOrderCommand) (hlt : (market.accept command).trades < word) :
    tradeIds (market.acceptEvents command) = List.range' (market.trades + 1) (market.swept command).fills.length := by
  have hlast : tradeIds (if 0 < (market.swept command).unfilled then
      [rested command market.nextId (market.swept command).unfilled] else []) = [] := by
    split_ifs <;> rfl
  rw [← tradeIds_tradeEvents command market.nextId _ hlt]
  unfold tradeIds at hlast ⊢
  rw [acceptEvents, List.filterMap_cons_none rfl, List.filterMap_append, hlast, List.append_nil]

theorem Counted.process {log : List EngineEvent} (h : Counted market log) (c : EngineCommand)
    (haccepted : (market.process symbolId config c).1.accepted < word)
    (htrades : (market.process symbolId config c).1.trades < word) :
    Counted (market.process symbolId config c).1 (log ++ (market.process symbolId config c).2) := by
  have hkeep : ∀ event : EngineEvent, event.acceptedId = none → event.tradeId = none →
      ∀ market' : Market, market'.accepted = market.accepted → market'.trades = market.trades →
        Counted market' (log ++ [event]) := by
    intro event hid htrade market' ha ht
    constructor
    · rw [acceptedIds, List.filterMap_append, List.filterMap_cons_none hid, ha, ← h.accepted]
      exact List.append_nil _
    · rw [tradeIds, List.filterMap_append, List.filterMap_cons_none htrade, ht, ← h.trades]
      exact List.append_nil _
  rcases process_cases symbolId config market c with ⟨reason, he⟩ | ⟨command, rfl, -, he⟩ |
    ⟨command, order, rfl, -, -, -, -, he⟩ <;> rw [he] at haccepted htrades ⊢
  · exact hkeep _ rfl rfl _ rfl rfl
  · have hids := acceptedIds_accept market command
    have htradeIds := tradeIds_accept command htrades
    have haccept : (market.accept command).accepted = market.accepted + 1 := rfl
    have htrade : (market.accept command).trades = market.trades + (market.swept command).fills.length := rfl
    rw [nextId_small haccepted] at hids
    constructor
    · rw [acceptedIds, List.filterMap_append, haccept, List.range'_concat, ← h.accepted]
      rw [acceptedIds] at hids
      rw [hids, Nat.one_mul, Nat.add_comm 1]
      rfl
    · rw [tradeIds, List.filterMap_append, htrade, ← List.range'_append_1, ← h.trades, Nat.add_comm 1]
      exact congrArg (tradeIds log ++ ·) htradeIds
  · exact hkeep _ rfl rfl _ rfl rfl

end Market

section Remaining

variable {id : ℕ} {log : List EngineEvent}

theorem leaves_eq (id : ℕ) (event : EngineEvent) :
    event.leaves id = (event.postings id).getLast?.map Posting.leaves := by
  cases event <;> simp only [EngineEvent.leaves, EngineEvent.postings] <;> (try split_ifs) <;> rfl

theorem lastRemaining_eq {s : Option ℕ} (h : Posted none (postings id log) s) : lastRemaining id log = s := by
  unfold lastRemaining
  generalize (none : Option ℕ) = t at h
  induction log generalizing t with
  | nil =>
    cases h
    rfl
  | cons event log ih =>
    rw [postings_cons] at h
    obtain ⟨u, hevent, hlog⟩ := h.split
    rw [List.foldl_cons, leaves_eq, ← hevent.last]
    exact ih u hlog

theorem Audited.drops {account : ℕ → Option ℕ} (h : Audited log account) {earlier later : List EngineEvent}
    {event : TradeExecutedEvent} (hlog : log = earlier ++ .tradeExecuted event :: later) :
    lastRemaining event.aggressingOrderId earlier =
        some (event.quantity + event.aggressingRemainingQuantity) ∧
      lastRemaining event.restingOrderId earlier =
        some (event.quantity + event.restingRemainingQuantity) := by
  have hne : event.aggressingOrderId ≠ event.restingOrderId := by
    apply h.distinct
    rw [hlog]
    exact List.mem_append_right _ List.mem_cons_self
  have hdrop : ∀ id remaining, (EngineEvent.tradeExecuted event).postings id = [.draw event.quantity remaining] →
      lastRemaining id earlier = some (event.quantity + remaining) := by
    intro id remaining hposting
    have hposted := h.posted id
    rw [hlog, postings_append, postings_cons, hposting] at hposted
    obtain ⟨s, hearlier, hlater⟩ := hposted.split
    rw [lastRemaining_eq hearlier]
    cases hlater with
    | cons hstep _ =>
      cases hstep with
      | draw => rfl
  constructor
  · apply hdrop
    simp [EngineEvent.postings, hne.symm]
  · apply hdrop
    simp [EngineEvent.postings, hne]

end Remaining

end Sixchange
