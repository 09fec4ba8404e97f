import Sixchange.Market.Steps
import Mathlib.Data.List.MinMax

namespace Sixchange

open PriorityList
open scoped List

/-- The reference exchange: its resting orders in the order of their arrival, and the ids that come next. -/
structure Exchange where
  resting : List RestingOrder
  nextOrderId : ℕ
  nextTradeId : ℕ

namespace Exchange

def empty : Exchange := { resting := [], nextOrderId := 1, nextTradeId := 1 }

def bestOf (side : Side) (resting : List RestingOrder) : Option RestingOrder :=
  match side with
  | .buy => (resting.filter (·.side = .buy)).argmax RestingOrder.price
  | .sell => (resting.filter (·.side = .sell)).argmin RestingOrder.price

/-- The trades of an incoming order. All but the last take an order off the list, so that the length of the
list is fuel enough. -/
def trade (side : Side) (limit : ℕ) : ℕ → ℕ → List RestingOrder → Swept
  | 0, quantity, resting => ⟨[], quantity, resting⟩
  | fuel + 1, quantity, resting =>
    match bestOf side resting with
    | none => ⟨[], quantity, resting⟩
    | some order =>
      if 0 < quantity ∧ side.crosses limit order.price = true then
        let e := min quantity order.remainingQuantity
        let s := trade side limit fuel (quantity - e)
          (amend order.orderId (order.remainingQuantity - e) resting)
        ⟨⟨order, e, quantity - e, order.remainingQuantity - e⟩ :: s.fills, s.unfilled, s.resting⟩
      else ⟨[], quantity, resting⟩

def tradeEvents (command : NewOrderCommand) (orderId : ℕ) : ℕ → List Fill → List EngineEvent
  | _, [] => []
  | tradeId, fill :: fills => traded command orderId tradeId fill :: tradeEvents command orderId (tradeId + 1) fills

variable (symbolId : ℕ) (config : OrderBookConfig) (exchange : Exchange)

def refusal (command : NewOrderCommand) : Option RejectReason :=
  if command.orderType ≠ .limit then some .unsupportedOrderType
  else if command.tif ≠ .gfd then some .unsupportedTimeInForce
  else if command.symbolId ≠ symbolId then some .unknownSymbol
  else if command.quantity = 0 then some .invalidQuantity
  else if config.priceLevelCount ≤ command.price then some .invalidPrice
  else if exchange.resting.length = config.maxActiveOrders then some .capacityExhausted
  else none

def submit (command : NewOrderCommand) : Exchange × List EngineEvent :=
  match exchange.refusal symbolId config command with
  | some reason => (exchange, [rejection (.newOrder command) reason])
  | none =>
    let orderId := exchange.nextOrderId
    let s := trade command.side.opposite command.price exchange.resting.length command.quantity exchange.resting
    ({ resting := if 0 < s.unfilled then
          s.resting ++ [{ incoming command orderId with remainingQuantity := s.unfilled }]
        else s.resting
       nextOrderId := exchange.nextOrderId + 1
       nextTradeId := exchange.nextTradeId + s.fills.length },
      accepted command orderId :: (tradeEvents command orderId exchange.nextTradeId s.fills ++
        if 0 < s.unfilled then [rested command orderId s.unfilled] else []))

def withdraw (command : CancelOrderCommand) : Exchange × List EngineEvent :=
  if command.symbolId ≠ symbolId then (exchange, [rejection (.cancelOrder command) .unknownSymbol])
  else
    match exchange.resting.find? (·.orderId = command.orderId) with
    | none => (exchange, [rejection (.cancelOrder command) .unknownOrder])
    | some order =>
      if order.clientId ≠ command.clientId ∨ order.clientOrderId ≠ command.clientOrderId then
        (exchange, [rejection (.cancelOrder command) .notOrderOwner])
      else
        ({ exchange with resting := exchange.resting.filter (·.orderId ≠ command.orderId) },
          [withdrawn command.seq symbolId order])

def process : EngineCommand → Exchange × List EngineEvent
  | .newOrder command => exchange.submit symbolId config command
  | .cancelOrder command => exchange.withdraw symbolId command
  | .replaceOrder command => (exchange, [rejection (.replaceOrder command) .matchingEngineError])

end Exchange

structure Arrivals (market : Market) (exchange : Exchange) : Prop where
  book : ∀ sd, market.book sd =
    prioritize sd.better RestingOrder.price (exchange.resting.filter (·.side = sd))
  nextOrderId_eq : exchange.nextOrderId = market.accepted + 1
  nextTradeId_eq : exchange.nextTradeId = market.trades + 1

theorem bestOf_eq (sd : Side) (l : List RestingOrder) :
    Exchange.bestOf sd l = (prioritize sd.better RestingOrder.price (l.filter (·.side = sd))).head? := by
  cases sd with
  | buy =>
    rw [Exchange.bestOf]
    induction l.filter (·.side = Side.buy) using List.reverseRecOn with
    | nil => rfl
    | append_singleton l r ih =>
      rw [List.argmax_concat, ih, prioritize_concat, head_enqueue]
      cases (prioritize Side.buy.better RestingOrder.price l).head? <;> rfl
  | sell =>
    rw [Exchange.bestOf]
    induction l.filter (·.side = Side.sell) using List.reverseRecOn with
    | nil => rfl
    | append_singleton l r ih =>
      rw [List.argmin_concat, ih, prioritize_concat, head_enqueue]
      cases (prioritize Side.sell.better RestingOrder.price l).head? <;> rfl

theorem prioritize_amend (sd : Side) (orderId remainingQuantity : ℕ) (l : List RestingOrder) :
    prioritize sd.better RestingOrder.price (amend orderId remainingQuantity l) =
      amend orderId remainingQuantity (prioritize sd.better RestingOrder.price l) := by
  simp only [amend]
  split_ifs
  · exact prioritize_filter _ l
  · refine prioritize_map (fun r => ?_) l
    split_ifs <;> rfl

theorem amend_head {r : RestingOrder} {rs : List RestingOrder} (quantity : ℕ)
    (hd : ((r :: rs).map RestingOrder.orderId).Nodup) :
    amend r.orderId (r.remainingQuantity - min quantity r.remainingQuantity) (r :: rs) =
      leftOver quantity r ++ rs := by
  rw [amend_cons_self r (fun o ho he => (List.nodup_cons.mp hd).1 (List.mem_map.mpr ⟨o, ho, he⟩)), leftOver]
  by_cases hlt : quantity < r.remainingQuantity
  · rw [if_neg (by omega), if_pos hlt, Nat.min_eq_left (Nat.le_of_lt hlt)]
    rfl
  · rw [if_pos (by omega), if_neg hlt]
    rfl

theorem trade_zero (sd : Side) (limit fuel : ℕ) (l : List RestingOrder) :
    Exchange.trade sd limit fuel 0 l = ⟨[], 0, l⟩ := by
  cases fuel with
  | zero => rfl
  | succ fuel =>
    rw [Exchange.trade]
    cases Exchange.bestOf sd l with
    | none => rfl
    | some r => exact if_neg (fun h => Nat.lt_irrefl 0 h.1)

theorem trade_sweep {sd : Side} {fuel : ℕ} (limit quantity : ℕ) {l : List RestingOrder}
    (hd : (l.map RestingOrder.orderId).Nodup) (hfuel : (l.filter (·.side = sd)).length ≤ fuel) :
    let s := sweep (sd.crosses limit) quantity
      (prioritize sd.better RestingOrder.price (l.filter (·.side = sd)))
    let t := Exchange.trade sd limit fuel quantity l
    t.fills = s.fills ∧ t.unfilled = s.unfilled ∧
      prioritize sd.better RestingOrder.price (t.resting.filter (·.side = sd)) = s.resting ∧
      t.resting.filter (·.side = sd.opposite) = l.filter (·.side = sd.opposite) := by
  induction fuel generalizing quantity l with
  | zero =>
    have hnil := List.length_eq_zero_iff.mp (Nat.le_zero.mp hfuel)
    simp only [Exchange.trade, hnil]
    exact ⟨rfl, rfl, rfl, trivial⟩
  | succ fuel ih =>
    have hbest := bestOf_eq sd l
    have hperm := prioritize_perm sd.better RestingOrder.price (l.filter (·.side = sd))
    rw [Exchange.trade]
    cases hq : prioritize sd.better RestingOrder.price (l.filter (·.side = sd)) with
    | nil =>
      rw [hq, List.head?_nil] at hbest
      rw [hbest]
      exact ⟨rfl, rfl, hq, rfl⟩
    | cons r rs =>
      rw [hq, List.head?_cons] at hbest
      rw [hq] at hperm
      rw [hbest]
      dsimp only
      have hr : r ∈ l ∧ r.side = sd := by
        simpa using hperm.mem_iff.mp List.mem_cons_self
      split_ifs with hgo
      · rw [sweep_cons hgo.1 hgo.2]
        have hids : ((r :: rs).map RestingOrder.orderId).Nodup :=
          (hperm.map _).nodup_iff.mpr (hd.sublist (List.filter_sublist.map _))
        have hside : prioritize sd.better RestingOrder.price
            ((amend r.orderId (r.remainingQuantity - min quantity r.remainingQuantity) l).filter (·.side = sd)) =
            leftOver quantity r ++ rs := by
          rw [filter_amend (fun r _ => rfl), prioritize_amend, hq, amend_head quantity hids]
        have hopposite : (amend r.orderId (r.remainingQuantity - min quantity r.remainingQuantity) l).filter
            (·.side = sd.opposite) = l.filter (·.side = sd.opposite) := by
          rw [filter_amend (fun r _ => rfl)]
          apply amend_of_not_mem
          intro o ho he
          obtain ⟨hol, hos⟩ := List.mem_filter.mp ho
          rw [eq_of_orderId hd hol hr.1 he, hr.2] at hos
          exact Side.opposite_ne sd (of_decide_eq_true hos).symm
        -- a fill that leaves something of the order uses up the quantity
        by_cases hlt : quantity < r.remainingQuantity
        · simp only [Nat.min_eq_left (Nat.le_of_lt hlt), Nat.sub_self, trade_zero, sweep_zero] at hside hopposite ⊢
          exact ⟨trivial, trivial, hside, hopposite⟩
        · have hlen : ((amend r.orderId (r.remainingQuantity - min quantity r.remainingQuantity) l).filter
              (·.side = sd)).length ≤ fuel := by
            have h₁ := (prioritize_perm sd.better RestingOrder.price
              ((amend r.orderId (r.remainingQuantity - min quantity r.remainingQuantity) l).filter
                (·.side = sd))).length_eq
            have h₂ := hperm.length_eq
            rw [hside, leftOver, if_neg hlt, List.nil_append] at h₁
            rw [List.length_cons] at h₂
            omega
          obtain ⟨hfills, hunfilled, hresting, hother⟩ :=
            ih (quantity - min quantity r.remainingQuantity) (amend_nodup hd) hlen
          rw [hside] at hfills hunfilled hresting
          exact ⟨by rw [hfills], hunfilled, hresting, hother.trans hopposite⟩
      · rw [sweep, if_neg hgo]
        exact ⟨rfl, rfl, hq, rfl⟩

theorem tradeEvents_eq {command : NewOrderCommand} {orderId trades : ℕ} {fills : List Fill}
    (hlt : trades + fills.length < word) :
    tradeEvents command orderId trades fills = Exchange.tradeEvents command orderId (trades + 1) fills := by
  induction fills generalizing trades with
  | nil => rfl
  | cons fill fills ih =>
    rw [List.length_cons] at hlt
    rw [tradeEvents, Exchange.tradeEvents, ih (by omega), Nat.mod_eq_of_lt (by omega)]

namespace Arrivals

variable {symbolId : ℕ} {config : OrderBookConfig} {market : Market} {exchange : Exchange}

theorem empty : Arrivals .empty .empty := ⟨fun _ => rfl, rfl, rfl⟩

theorem perm (h : Arrivals market exchange) : exchange.resting ~ market.resting := by
  rw [Market.resting, h.book, h.book]
  have hsell : exchange.resting.filter (·.side = .sell) =
      exchange.resting.filter (fun r => !decide (r.side = .buy)) := by
    apply List.filter_congr
    intro r _
    cases r.side <;> rfl
  rw [hsell]
  exact ((prioritize_perm _ _ _).append (prioritize_perm _ _ _)).trans (List.filter_append_perm _ _) |>.symm

theorem nodup (h : Arrivals market exchange) (hn : market.Numbered) :
    (exchange.resting.map RestingOrder.orderId).Nodup := (h.perm.map _).nodup_iff.mpr hn.nodup

theorem refusal_eq (h : Arrivals market exchange) (symbolId : ℕ) (config : OrderBookConfig)
    (hfresh : market.nextId ∉ market.ids) (command : NewOrderCommand) :
    market.refusal symbolId config command = exchange.refusal symbolId config command := by
  have hlen : market.ids.length = exchange.resting.length := by
    rw [Market.ids, List.length_map, h.perm.length_eq]
  rw [Market.refusal, Exchange.refusal, admitError, hlen, if_neg hfresh]

theorem accept (h : Arrivals market exchange) (hn : market.Numbered) {command : NewOrderCommand}
    (hrefusal : exchange.refusal symbolId config command = none)
    (haccepted : market.accepted + 1 < word)
    (htrades : market.trades + (market.swept command).fills.length < word) :
    market.acceptEvents command = (exchange.submit symbolId config command).2 ∧
      Arrivals (market.accept command) (exchange.submit symbolId config command).1 := by
  have hid : exchange.nextOrderId = market.nextId := by
    rw [h.nextOrderId_eq, Market.nextId_small haccepted]
  obtain ⟨hfills, hunfilled, hresting, hother⟩ := trade_sweep command.price command.quantity (h.nodup hn)
    (List.length_filter_le (·.side = command.side.opposite) exchange.resting)
  rw [← h.book] at hfills hunfilled hresting
  change _ = (market.swept command).fills at hfills
  change _ = (market.swept command).unfilled at hunfilled
  change _ = (market.swept command).resting at hresting
  rw [Side.opposite_opposite] at hother
  rw [Exchange.submit, hrefusal]
  dsimp only
  generalize Exchange.trade command.side.opposite command.price exchange.resting.length command.quantity
    exchange.resting = t at hfills hunfilled hresting hother ⊢
  rw [hfills, hunfilled, hid, h.nextTradeId_eq]
  refine ⟨?_, ?_, ?_, ?_⟩
  · rw [Market.acceptEvents, tradeEvents_eq htrades]
  · intro sd
    rcases Side.eq_or_opposite command.side sd with rfl | rfl
    · rw [Market.accept_side]
      split_ifs with hleft
      · rw [List.filter_append, hother, List.filter_cons_of_pos (by simp [incoming]), List.filter_nil,
          prioritize_concat, h.book]
      · rw [hother, h.book]
    · rw [Market.accept_opposite, ← hresting]
      split_ifs with hleft
      · rw [List.filter_append, List.filter_cons_of_neg, List.filter_nil, List.append_nil]
        exact fun he => Side.opposite_ne command.side (of_decide_eq_true he).symm
      · rfl
  · rw [← hid, h.nextOrderId_eq]
    rfl
  · change market.trades + 1 + _ = market.trades + _ + 1
    omega

theorem withdraw (h : Arrivals market exchange) (hn : market.Numbered) (command : CancelOrderCommand) :
    (market.withdraw symbolId command).2 = (exchange.withdraw symbolId command).2 ∧
      Arrivals (market.withdraw symbolId command).1 (exchange.withdraw symbolId command).1 := by
  have hlookup : market.lookup command.orderId = exchange.resting.find? (·.orderId = command.orderId) :=
    find?_perm h.perm.symm hn.nodup command.orderId
  rw [Market.withdraw, Exchange.withdraw, hlookup]
  split_ifs with hs
  · exact ⟨rfl, h⟩
  · cases exchange.resting.find? (·.orderId = command.orderId) with
    | none => exact ⟨rfl, h⟩
    | some order =>
      dsimp only
      split_ifs with howner
      · exact ⟨rfl, h⟩
      · refine ⟨rfl, fun sd => ?_, h.nextOrderId_eq, h.nextTradeId_eq⟩
        dsimp only [Market.remove]
        rw [h.book, ← prioritize_filter, List.filter_comm]

theorem process (h : Arrivals market exchange) (hn : market.Numbered) (c : EngineCommand)
    (haccepted : (market.process symbolId config c).1.accepted < word)
    (htrades : (market.process symbolId config c).1.trades < word) :
    (market.process symbolId config c).2 = (exchange.process symbolId config c).2 ∧
      Arrivals (market.process symbolId config c).1 (exchange.process symbolId config c).1 := by
  cases c with
  | newOrder command =>
    have hlt := (Market.accepted_le market (.newOrder command)).trans_lt haccepted
    have hrefusal := h.refusal_eq symbolId config (hn.nextId_fresh hlt) command
    simp only [Market.process, Exchange.process, Market.submit] at haccepted htrades ⊢
    cases hr : market.refusal symbolId config command with
    | some reason =>
      rw [Exchange.submit, ← hrefusal, hr]
      exact ⟨rfl, h⟩
    | none =>
      rw [hr] at haccepted htrades
      exact h.accept hn (hrefusal.symm.trans hr) haccepted htrades
  | cancelOrder command => exact h.withdraw hn command
  | replaceOrder command => exact ⟨rfl, h⟩

end Arrivals

end Sixchange
