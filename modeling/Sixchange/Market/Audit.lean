import Sixchange.Market.Replica
import Sixchange.Theory.Trails

/-!
An auditor of the event feed. From the events alone it keeps the replica and the order that is being
matched, and checks of every event that it is the one which price-time priority asks for at that point.
-/

namespace Sixchange

open PriorityList

structure Taker where
  orderId : ℕ
  side : Side
  price : ℕ
  remainingQuantity : ℕ
  deriving DecidableEq, Repr

structure Auditor where
  replica : Replica
  taker : Option Taker

def Taker.after (taker : Taker) (quantity : ℕ) : Option Taker :=
  if taker.remainingQuantity - quantity = 0 then none
  else some { taker with remainingQuantity := taker.remainingQuantity - quantity }

namespace Auditor

def start : Auditor := { replica := .empty, taker := none }

def Holds (replica : Replica) (orderId : ℕ) : Prop := ∃ sd p, ∃ entry ∈ replica sd p, entry.1 = orderId

/-- The trade is with the first order of the best level, at its price, and as large as the two orders allow. -/
structure TradesBest (replica : Replica) (taker : Taker) (event : TradeExecutedEvent) (quantity : ℕ)
    (behind : List (ℕ × ℕ)) : Prop where
  order : event.aggressingOrderId = taker.orderId ∧ event.aggressingSide = taker.side
  front : replica taker.side.opposite event.price = (event.restingOrderId, quantity) :: behind
  best : ∀ p, taker.side.opposite.better p event.price → replica taker.side.opposite p = []
  limit : taker.side.opposite.crosses taker.price event.price = true
  quantity_eq : event.quantity = min taker.remainingQuantity quantity
  positive : 0 < event.quantity
  aggressing : event.aggressingRemainingQuantity = taker.remainingQuantity - event.quantity
  resting : event.restingRemainingQuantity = quantity - event.quantity

structure RestsLast (replica : Replica) (taker : Taker) (event : OrderRestedEvent) : Prop where
  order : event.orderId = taker.orderId ∧ event.side = taker.side ∧ event.price = taker.price
  remaining : event.remainingQuantity = taker.remainingQuantity
  positive : 0 < taker.remainingQuantity
  exhausted : ∀ p, replica taker.side.opposite p ≠ [] → taker.side.opposite.crosses taker.price p = false

inductive Passes : Auditor → EngineEvent → Auditor → Prop
  | accepted {replica : Replica} {event : OrderAcceptedEvent} (hnew : ¬ Holds replica event.orderId)
    (hquantity : 0 < event.quantity) :
    Passes ⟨replica, none⟩ (.orderAccepted event)
      ⟨replica, some ⟨event.orderId, event.side, event.price, event.quantity⟩⟩
  | traded {replica : Replica} {taker : Taker} {event : TradeExecutedEvent} {quantity : ℕ} {behind : List (ℕ × ℕ)}
    (h : TradesBest replica taker event quantity behind) :
    Passes ⟨replica, some taker⟩ (.tradeExecuted event)
      ⟨replica.apply (.tradeExecuted event), taker.after event.quantity⟩
  | rested {replica : Replica} {taker : Taker} {event : OrderRestedEvent} (h : RestsLast replica taker event) :
    Passes ⟨replica, some taker⟩ (.orderRested event) ⟨replica.apply (.orderRested event), none⟩
  | cancelled {replica : Replica} {event : OrderCancelledEvent}
    (hentry : (event.orderId, event.cancelledQuantity) ∈ replica event.side event.price) :
    Passes ⟨replica, none⟩ (.orderCancelled event) ⟨replica.apply (.orderCancelled event), none⟩
  | rejected {replica : Replica} {event : CommandRejectedEvent} :
    Passes ⟨replica, none⟩ (.commandRejected event) ⟨replica, none⟩

theorem Passes.replica_eq {auditor auditor' : Auditor} {event : EngineEvent} (h : Passes auditor event auditor') :
    auditor'.replica = auditor.replica.apply event := by
  cases h <;> rfl

def Uncrossed (auditor : Auditor) : Prop := ∀ sd p q, auditor.replica sd p ≠ [] → auditor.replica sd.opposite q ≠ [] →
  sd.opposite.crosses p q = false

theorem Uncrossed.start : Uncrossed start := fun _ _ _ h => absurd rfl h

theorem nonempty_of_traded {replica : Replica} {event : TradeExecutedEvent} {sd : Side} {p : ℕ}
    (h : replica.apply (.tradeExecuted event) sd p ≠ []) : replica sd p ≠ [] := by
  intro hnil
  apply h
  rw [Replica.apply]
  split_ifs
  · rw [Replica.delete, hnil]
    rfl
  · rw [Replica.setRemaining, hnil]
    rfl

theorem nonempty_of_cancelled {replica : Replica} {event : OrderCancelledEvent} {sd : Side} {p : ℕ}
    (h : replica.apply (.orderCancelled event) sd p ≠ []) : replica sd p ≠ [] := by
  intro hnil
  apply h
  rw [Replica.apply, Replica.delete, hnil]
  rfl

theorem nonempty_of_rested {replica : Replica} {event : OrderRestedEvent} {sd : Side} {p : ℕ}
    (h : replica.apply (.orderRested event) sd p ≠ []) : (sd = event.side ∧ p = event.price) ∨ replica sd p ≠ [] := by
  by_cases hlevel : sd = event.side ∧ p = event.price
  · exact .inl hlevel
  · rw [Replica.apply, Replica.append, if_neg hlevel] at h
    exact .inr h

theorem Passes.uncrossed {auditor auditor' : Auditor} {event : EngineEvent} (h : Passes auditor event auditor')
    (hbefore : auditor.Uncrossed) : auditor'.Uncrossed := by
  cases h with
  | accepted => exact hbefore
  | traded h => exact fun sd p q hp hq => hbefore sd p q (nonempty_of_traded hp) (nonempty_of_traded hq)
  | cancelled h => exact fun sd p q hp hq => hbefore sd p q (nonempty_of_cancelled hp) (nonempty_of_cancelled hq)
  | rejected => exact hbefore
  | @rested replica taker event h =>
    obtain ⟨-, hside, hprice⟩ := h.order
    intro sd p q hp hq
    rcases nonempty_of_rested hp with ⟨rfl, rfl⟩ | hp
    · rcases nonempty_of_rested hq with ⟨hsame, -⟩ | hq
      · exact absurd hsame (Side.opposite_ne _)
      · rw [hside, hprice]
        exact h.exhausted q (hside ▸ hq)
    · rcases nonempty_of_rested hq with ⟨hopposite, rfl⟩ | hq
      · rw [Side.crosses_comm, Side.opposite_opposite]
        have hsd : sd = taker.side.opposite := by rw [← hside, ← hopposite, Side.opposite_opposite]
        rw [hsd, hprice]
        exact h.exhausted p (hsd ▸ hp)
      · exact hbefore sd p q hp hq

section Determined

def audited : EngineEvent → EngineEvent
  | .tradeExecuted event => .tradeExecuted { event with
      seq := 0, tradeId := 0, symbolId := 0, aggressingClientOrderId := 0, aggressingClientId := 0
      restingClientOrderId := 0, restingClientId := 0 }
  | .orderRested event => .orderRested { event with seq := 0, clientOrderId := 0, clientId := 0, symbolId := 0 }
  | event => event

def isRequest : EngineEvent → Bool
  | .tradeExecuted _ => false
  | .orderRested _ => false
  | _ => true

section

variable {replica : Replica} {taker : Taker}

theorem TradesBest.unique {event event' : TradeExecutedEvent} {quantity quantity' : ℕ} {behind behind' : List (ℕ × ℕ)}
    (h : TradesBest replica taker event quantity behind) (h' : TradesBest replica taker event' quantity' behind') :
    audited (.tradeExecuted event) = audited (.tradeExecuted event') := by
  have hprice : event.price = event'.price := by
    rcases trichotomous_of taker.side.opposite.better event.price event'.price with hlt | heq | hgt
    · exact absurd (h'.best _ hlt) (h.front ▸ List.cons_ne_nil _ _)
    · exact heq
    · exact absurd (h.best _ hgt) (h'.front ▸ List.cons_ne_nil _ _)
  have hfront := h.front
  rw [hprice, h'.front] at hfront
  obtain ⟨hentry, -⟩ := List.cons.inj hfront
  obtain ⟨hresting, rfl⟩ := Prod.mk.inj hentry
  obtain ⟨⟨horder, hside⟩, ⟨horder', hside'⟩⟩ := And.intro h.order h'.order
  obtain ⟨hquantity, hquantity'⟩ := And.intro h.quantity_eq h'.quantity_eq
  obtain ⟨hleft, hleft'⟩ := And.intro h.aggressing h'.aggressing
  obtain ⟨hrest, hrest'⟩ := And.intro h.resting h'.resting
  rw [hquantity] at hleft hrest
  rw [hquantity'] at hleft' hrest'
  simp only [audited, hprice, hresting, horder, horder', hside, hside', hquantity, hquantity', hleft, hleft', hrest,
    hrest']

theorem RestsLast.unique {event event' : OrderRestedEvent} (h : RestsLast replica taker event)
    (h' : RestsLast replica taker event') : audited (.orderRested event) = audited (.orderRested event') := by
  obtain ⟨⟨horder, hside, hprice⟩, hremaining⟩ := And.intro h.order h.remaining
  obtain ⟨⟨horder', hside', hprice'⟩, hremaining'⟩ := And.intro h'.order h'.remaining
  simp only [audited, horder, hside, hprice, hremaining, horder', hside', hprice', hremaining']

theorem RestsLast.not_trades {event : OrderRestedEvent} {trade : TradeExecutedEvent} {quantity : ℕ}
    {behind : List (ℕ × ℕ)} (h : RestsLast replica taker event) : ¬ TradesBest replica taker trade quantity behind := by
  intro htrade
  have hstop := h.exhausted trade.price (htrade.front ▸ List.cons_ne_nil _ _)
  rw [htrade.limit] at hstop
  cases hstop

end

theorem apply_audited (replica : Replica) (event : EngineEvent) :
    replica.apply (audited event) = replica.apply event := by
  cases event <;> rfl

theorem apply_eq_of_audited {event event' : EngineEvent} (h : audited event = audited event') (replica : Replica) :
    replica.apply event = replica.apply event' := by
  rw [← apply_audited, h, apply_audited]

theorem quantity_eq_of_audited {event event' : TradeExecutedEvent}
    (h : audited (.tradeExecuted event) = audited (.tradeExecuted event')) : event.quantity = event'.quantity := by
  have hquantity := congrArg TradeExecutedEvent.quantity (EngineEvent.tradeExecuted.inj h)
  exact hquantity

variable {auditor auditor' other other' : Auditor} {event event' : EngineEvent}

/-- There is one way on: while an order is being matched the next event is settled, else it is a request. -/
theorem Passes.next_unique (h : Passes auditor event auditor') (h' : Passes auditor event' other')
    (hrequest : isRequest event = true → isRequest event' = true → event = event') :
    audited event = audited event' ∧ auditor' = other' := by
  cases h with
  | accepted =>
    cases h' with
    | accepted =>
      obtain rfl := EngineEvent.orderAccepted.inj (hrequest rfl rfl)
      exact ⟨rfl, rfl⟩
    | cancelled => cases hrequest rfl rfl
    | rejected => cases hrequest rfl rfl
  | cancelled =>
    cases h' with
    | accepted => cases hrequest rfl rfl
    | cancelled =>
      obtain rfl := EngineEvent.orderCancelled.inj (hrequest rfl rfl)
      exact ⟨rfl, rfl⟩
    | rejected => cases hrequest rfl rfl
  | rejected =>
    cases h' with
    | accepted => cases hrequest rfl rfl
    | cancelled => cases hrequest rfl rfl
    | rejected =>
      obtain rfl := EngineEvent.commandRejected.inj (hrequest rfl rfl)
      exact ⟨rfl, rfl⟩
  | traded h =>
    cases h' with
    | traded h' =>
      have hsame := h.unique h'
      rw [apply_eq_of_audited hsame, quantity_eq_of_audited hsame]
      exact ⟨hsame, rfl⟩
    | rested h' => exact absurd h h'.not_trades
  | rested h =>
    cases h' with
    | traded h' => exact absurd h' h.not_trades
    | rested h' =>
      have hsame := h.unique h'
      rw [apply_eq_of_audited hsame]
      exact ⟨hsame, rfl⟩

theorem Passes.isRequest_iff (h : Passes auditor event auditor') : isRequest event = true ↔ auditor.taker = none := by
  cases h <;> simp [isRequest]

theorem passes_audited (h : Passes auditor event auditor') : Passes auditor (audited event) auditor' := by
  cases h with
  | accepted hnew hquantity => exact .accepted hnew hquantity
  | traded h => exact .traded ⟨h.order, h.front, h.best, h.limit, h.quantity_eq, h.positive, h.aggressing, h.resting⟩
  | rested h => exact .rested ⟨h.order, h.remaining, h.positive, h.exhausted⟩
  | cancelled hentry => exact .cancelled hentry
  | rejected => exact .rejected

theorem requests_audited (events : List EngineEvent) :
    (events.map audited).filter isRequest = events.filter isRequest := by
  induction events with
  | nil => rfl
  | cons event events ih => cases event <;> simp [audited, isRequest, List.filter_cons, ih]

theorem audit_determines {events events' : List EngineEvent} (h : Trail Passes auditor events auditor')
    (h' : Trail Passes auditor events' other') (hidle : auditor'.taker = none) (hidle' : other'.taker = none)
    (hrequests : events.filter isRequest = events'.filter isRequest) :
    events.map audited = events'.map audited ∧ auditor' = other' := by
  induction h generalizing events' with
  | nil auditor =>
    cases h' with
    | nil => exact ⟨rfl, rfl⟩
    | cons hpasses htail =>
      rw [List.filter_cons_of_pos (hpasses.isRequest_iff.mpr hidle)] at hrequests
      cases hrequests
  | @cons auditor next final event events hpasses htail ih =>
    cases h' with
    | nil =>
      rw [List.filter_cons_of_pos (hpasses.isRequest_iff.mpr hidle')] at hrequests
      cases hrequests
    | @cons _ next' _ event' events' hpasses' htail' =>
      have hsame : isRequest event = isRequest event' :=
        Bool.eq_iff_iff.mpr (hpasses.isRequest_iff.trans hpasses'.isRequest_iff.symm)
      cases hevent : isRequest event with
      | true =>
        rw [List.filter_cons_of_pos hevent, List.filter_cons_of_pos (hsame.symm.trans hevent)] at hrequests
        obtain ⟨rfl, hrest⟩ := List.cons.inj hrequests
        obtain ⟨haudited, rfl⟩ := hpasses.next_unique hpasses' fun _ _ => rfl
        obtain ⟨hmap, hfinal⟩ := ih htail' hidle hrest
        exact ⟨by rw [List.map_cons, List.map_cons, hmap], hfinal⟩
      | false =>
        have hevent' : ¬ isRequest event' = true := by simp [← hsame, hevent]
        rw [List.filter_cons_of_neg (by simp [hevent]), List.filter_cons_of_neg hevent'] at hrequests
        obtain ⟨haudited, rfl⟩ := hpasses.next_unique hpasses' fun _ hrequest => absurd hrequest hevent'
        obtain ⟨hmap, hfinal⟩ := ih htail' hidle hrequests
        exact ⟨by rw [List.map_cons, List.map_cons, haudited, hmap], hfinal⟩

end Determined

end Auditor

open Auditor

section Book

variable {book : Side → List RestingOrder} {sd : Side} {p : ℕ}

theorem queuesOf_nonempty : queuesOf book sd p ≠ [] ↔ ∃ r ∈ book sd, r.price = p := by
  unfold queuesOf
  rw [Ne, List.map_eq_nil_iff, List.filter_eq_nil_iff]
  simp

theorem queuesOf_front {r : RestingOrder} {rs : List RestingOrder} (hbook : book sd = r :: rs) :
    ∃ behind, queuesOf book sd r.price = (r.orderId, r.remainingQuantity) :: behind := by
  unfold queuesOf
  rw [hbook, List.filter_cons_of_pos (by simp)]
  exact ⟨_, rfl⟩

theorem queuesOf_better {r : RestingOrder} {rs : List RestingOrder} (hbook : book sd = r :: rs)
    (hsorted : Prioritized sd.better RestingOrder.price (r :: rs)) (hbetter : sd.better p r.price) :
    queuesOf book sd p = [] := by
  by_contra hne
  obtain ⟨r', hr', rfl⟩ := queuesOf_nonempty.mp hne
  rw [hbook] at hr'
  rcases List.mem_cons.mp hr' with rfl | hr'
  · exact irrefl_of sd.better _ hbetter
  · exact (List.pairwise_cons.mp hsorted).1 r' hr' hbetter

end Book

section Fills

variable (command : NewOrderCommand) (orderId : ℕ)

def taking (quantity : ℕ) : Option Taker :=
  if quantity = 0 then none
  else some { orderId, side := command.side, price := command.price, remainingQuantity := quantity }

variable {command} {book : Side → List RestingOrder} {r : RestingOrder} {rs : List RestingOrder} {quantity : ℕ}

theorem trade_passes (hbook : book command.side.opposite = r :: rs)
    (hsorted : Prioritized command.side.opposite.better RestingOrder.price (r :: rs))
    (hd : Distinct book command.side.opposite) (hpos : 0 < quantity) (hr : 0 < r.remainingQuantity)
    (hcross : command.side.opposite.crosses command.price r.price = true) (tradeId : ℕ) :
    let e := min quantity r.remainingQuantity
    Passes ⟨queuesOf book, taking command orderId quantity⟩
      (traded command orderId tradeId ⟨r, e, quantity - e, r.remainingQuantity - e⟩)
      ⟨queuesOf (Function.update book command.side.opposite (leftOver quantity r ++ rs)),
        taking command orderId (quantity - e)⟩ := by
  intro e
  obtain ⟨behind, hfront⟩ := queuesOf_front hbook
  have hleft : (if r.remainingQuantity - e = 0 then rs
      else { r with remainingQuantity := r.remainingQuantity - e } :: rs) = leftOver quantity r ++ rs := by
    unfold leftOver
    by_cases hlt : quantity < r.remainingQuantity
    · have he : e = quantity := Nat.min_eq_left hlt.le
      rw [if_pos hlt, he, if_neg (Nat.sub_ne_zero_of_lt hlt)]
      rfl
    · have he : e = r.remainingQuantity := Nat.min_eq_right (Nat.le_of_not_lt hlt)
      rw [if_neg hlt, he, Nat.sub_self, if_pos rfl]
      rfl
  have hreplica : (queuesOf book).apply
      (traded command orderId tradeId ⟨r, e, quantity - e, r.remainingQuantity - e⟩) =
        queuesOf (Function.update book command.side.opposite (leftOver quantity r ++ rs)) := by
    rw [apply_traded, ← hleft]
    exact congrArg queuesOf (amend_first hd hbook)
  rw [taking, if_neg (Nat.ne_of_gt hpos), ← hreplica]
  exact Passes.traded
    ⟨⟨rfl, rfl⟩, hfront, fun p => queuesOf_better hbook hsorted, hcross, rfl, lt_min hpos hr, rfl, rfl⟩

theorem fills_pass (l : List RestingOrder) {book : Side → List RestingOrder}
    (hbook : book command.side.opposite = l)
    (hsorted : Prioritized command.side.opposite.better RestingOrder.price l)
    (hpositive : ∀ r ∈ l, 0 < r.remainingQuantity) (hd : Distinct book command.side.opposite) (trades quantity : ℕ) :
    let s := sweep (command.side.opposite.crosses command.price) quantity l
    Trail Passes ⟨queuesOf book, taking command orderId quantity⟩ (tradeEvents command orderId trades s.fills)
      ⟨queuesOf (Function.update book command.side.opposite s.resting), taking command orderId s.unfilled⟩ := by
  induction l generalizing book trades quantity with
  | nil =>
    dsimp only
    rw [sweep, ← hbook, Function.update_eq_self]
    exact .nil _
  | cons r rs ih =>
    dsimp only
    by_cases hgo : 0 < quantity ∧ command.side.opposite.crosses command.price r.price = true
    · obtain ⟨hpos, hcross⟩ := hgo
      rw [List.forall_mem_cons] at hpositive
      have htrade := trade_passes orderId hbook hsorted hd hpos hpositive.1 hcross ((trades + 1) % word)
      rw [sweep_cons hpos hcross]
      dsimp only at htrade ⊢
      rw [tradeEvents]
      refine .cons htrade ?_
      by_cases hlt : quantity < r.remainingQuantity
      · rw [Nat.min_eq_left hlt.le, Nat.sub_self, sweep_zero]
        exact .nil _
      · have hdrop : Distinct (Function.update book command.side.opposite rs) command.side.opposite := by
          unfold Distinct at hd ⊢
          rw [Function.update_self, Function.update_of_ne (Side.opposite_ne _)]
          rw [hbook] at hd
          exact (List.nodup_cons.mp hd).2
        have hrest := ih (Function.update_self command.side.opposite rs book) (List.pairwise_cons.mp hsorted).2
          hpositive.2 hdrop (trades + 1) (quantity - r.remainingQuantity)
        dsimp only at hrest
        rw [Function.update_idem] at hrest
        rw [leftOver, if_neg hlt, List.nil_append, Nat.min_eq_right (Nat.le_of_not_lt hlt)]
        exact hrest
    · rw [sweep, if_neg hgo, ← hbook, Function.update_eq_self]
      exact .nil _

end Fills

namespace Market

variable {symbolId : ℕ} {config : OrderBookConfig} {market : Market}

theorem not_holds {orderId : ℕ} (h : orderId ∉ market.ids) : ¬ Holds (queuesOf market.book) orderId := by
  rintro ⟨sd, p, entry, hentry, he⟩
  obtain ⟨r, hr, rfl⟩ := List.mem_map.mp hentry
  exact h (mem_ids.mpr ⟨sd, r, (List.mem_filter.mp hr).1, he⟩)

theorem rest_passes (hs : market.Sound config) (command : NewOrderCommand) :
    let swept := Function.update market.book command.side.opposite (market.swept command).resting
    Trail Passes ⟨queuesOf swept, taking command market.nextId (market.swept command).unfilled⟩
      (if 0 < (market.swept command).unfilled then [rested command market.nextId (market.swept command).unfilled]
        else [])
      ⟨queuesOf (market.accept command).book, none⟩ := by
  intro swept
  have hside : swept command.side = market.book command.side :=
    Function.update_of_ne (Side.opposite_ne command.side).symm _ _
  have hopposite : swept command.side.opposite = (market.swept command).resting := Function.update_self _ _ _
  by_cases hleft : 0 < (market.swept command).unfilled
  · have hbook : (queuesOf swept).append command.side command.price (market.nextId, (market.swept command).unfilled) =
        queuesOf (market.accept command).book := by
      have happend := append_queuesOf swept command.side
        { incoming command market.nextId with remainingQuantity := (market.swept command).unfilled }
        (by rw [hside]; exact hs.prioritized _)
      change _ = queuesOf (settle market.book (incoming command market.nextId) (market.swept command))
      rw [hside] at happend
      rw [settle, if_pos hleft]
      exact happend
    rw [if_pos hleft, taking, if_neg (Nat.ne_of_gt hleft), ← hbook]
    refine .single (Passes.rested ⟨⟨rfl, rfl, rfl⟩, rfl, hleft, fun p hp => ?_⟩)
    -- what is left rests because nothing that it crosses is left
    obtain ⟨r, hr, rfl⟩ := queuesOf_nonempty.mp hp
    rw [hopposite] at hr
    exact sweep_exhausted (hs.prioritized _) hleft r hr
  · have hbook : (market.accept command).book = swept := by
      change settle market.book (incoming command market.nextId) (market.swept command) = swept
      rw [settle, if_neg hleft]
      rfl
    rw [if_neg hleft, taking, if_pos (Nat.eq_zero_of_not_pos hleft), hbook]
    exact .nil _

theorem accept_passes (hs : market.Sound config) (hn : market.Numbered) {command : NewOrderCommand}
    (hrefusal : market.refusal symbolId config command = none) :
    Trail Passes ⟨queuesOf market.book, none⟩ (market.acceptEvents command)
      ⟨queuesOf (market.accept command).book, none⟩ := by
  obtain ⟨-, hquantity, -, -, hfresh⟩ := admitError_none.mp (refusal_none.mp hrefusal).2.2
  have hfills := fills_pass market.nextId (market.book command.side.opposite) rfl (hs.prioritized _)
    (hs.quantity _) (hn.distinct _) market.trades command.quantity
  have haccepted : Passes ⟨queuesOf market.book, none⟩ (Sixchange.accepted command market.nextId)
      ⟨queuesOf market.book, taking command market.nextId command.quantity⟩ := by
    rw [taking, if_neg hquantity]
    exact Passes.accepted (not_holds hfresh) (Nat.pos_of_ne_zero hquantity)
  exact .cons haccepted (hfills.append (rest_passes hs command))

theorem process_passes (hs : market.Sound config) (hn : market.Numbered) (c : EngineCommand) :
    Trail Passes ⟨queuesOf market.book, none⟩ (market.process symbolId config c).2
      ⟨queuesOf (market.process symbolId config c).1.book, none⟩ := by
  have hreplay : _ = queuesOf (market.process symbolId config c).1.book := replay_process hs hn c
  rcases process_cases symbolId config market c with ⟨reason, he⟩ | ⟨command, -, hrefusal, he⟩ |
    ⟨command, order, -, -, hlookup, -, -, he⟩ <;> rw [he] at hreplay ⊢
  · exact .single .rejected
  · exact accept_passes hs hn hrefusal
  · rw [← hreplay]
    refine .single (Passes.cancelled ?_)
    obtain ⟨sd, hr⟩ : ∃ sd, order ∈ market.book sd := by
      rcases List.mem_append.mp (List.mem_of_find?_eq_some hlookup) with hr | hr
      exacts [⟨_, hr⟩, ⟨_, hr⟩]
    obtain rfl := hs.side_eq sd order hr
    exact List.mem_map.mpr ⟨order, List.mem_filter.mpr ⟨hr, decide_eq_true rfl⟩, rfl⟩

end Market

end Sixchange
