import Sixchange.Market.Steps

namespace Sixchange

open PriorityList
open scoped List

/-- A copy of the book kept from the events alone: ids and quantities, queued by side and price. -/
abbrev Replica := Side → ℕ → List (ℕ × ℕ)

namespace Replica

def empty : Replica := fun _ _ => []

def append (replica : Replica) (side : Side) (price : ℕ) (entry : ℕ × ℕ) : Replica := fun sd p =>
  if sd = side ∧ p = price then replica sd p ++ [entry] else replica sd p

def setRemaining (replica : Replica) (orderId remainingQuantity : ℕ) : Replica := fun sd p =>
  (replica sd p).map fun entry => if entry.1 = orderId then (orderId, remainingQuantity) else entry

def delete (replica : Replica) (orderId : ℕ) : Replica := fun sd p =>
  (replica sd p).filter (·.1 ≠ orderId)

def apply (replica : Replica) : EngineEvent → Replica
  | .orderRested event => replica.append event.side event.price (event.orderId, event.remainingQuantity)
  | .tradeExecuted event =>
    if event.restingRemainingQuantity = 0 then replica.delete event.restingOrderId
    else replica.setRemaining event.restingOrderId event.restingRemainingQuantity
  | .orderCancelled event => replica.delete event.orderId
  | _ => replica

def replay (replica : Replica) (events : List EngineEvent) : Replica := events.foldl apply replica

theorem replay_append (replica : Replica) (events events' : List EngineEvent) :
    replica.replay (events ++ events') = (replica.replay events).replay events' :=
  List.foldl_append

end Replica

def queuesOf (book : Side → List RestingOrder) : Replica := fun sd p =>
  ((book sd).filter (·.price = p)).map (fun r => (r.orderId, r.remainingQuantity))

theorem delete_queuesOf (book : Side → List RestingOrder) (orderId : ℕ) :
    (queuesOf book).delete orderId = queuesOf (fun sd => (book sd).filter (·.orderId ≠ orderId)) := by
  funext sd p
  simp only [Replica.delete, queuesOf, List.filter_map]
  rw [List.filter_comm]
  rfl

theorem setRemaining_queuesOf (book : Side → List RestingOrder) (orderId remainingQuantity : ℕ) :
    (queuesOf book).setRemaining orderId remainingQuantity = queuesOf (fun sd =>
      (book sd).map fun r => if r.orderId = orderId then { r with remainingQuantity } else r) := by
  funext sd p
  simp only [Replica.setRemaining, queuesOf, List.filter_map, List.map_map]
  have hprice : ((fun r : RestingOrder => decide (r.price = p)) ∘ fun r =>
      if r.orderId = orderId then { r with remainingQuantity } else r) = fun r => decide (r.price = p) := by
    funext r
    simp only [Function.comp_apply]
    split_ifs <;> rfl
  rw [hprice]
  apply List.map_congr_left
  intro r _
  simp only [Function.comp_apply]
  split_ifs with h
  · rw [← h]
  · rfl

theorem apply_traded (book : Side → List RestingOrder) (command : NewOrderCommand) (orderId tradeId : ℕ)
    (fill : Fill) :
    (queuesOf book).apply (traded command orderId tradeId fill) =
      queuesOf (fun sd => amend fill.resting.orderId fill.restingRemaining (book sd)) := by
  rw [traded, Replica.apply]
  dsimp only
  split_ifs with hz
  · simp only [delete_queuesOf, amend, if_pos hz]
  · simp only [setRemaining_queuesOf, amend, if_neg hz]

theorem filter_rested {book : Side → List RestingOrder} {sd : Side} (r : RestingOrder)
    (hbook : Prioritized sd.better RestingOrder.price (book sd)) (sd' : Side) (p : ℕ) :
    (Function.update book sd (enqueue sd.better RestingOrder.price r (book sd)) sd').filter (·.price = p) =
      if sd' = sd ∧ p = r.price then (book sd').filter (·.price = p) ++ [r] else (book sd').filter (·.price = p) := by
  by_cases hsd : sd' = sd
  · subst hsd
    rw [Function.update_self, filter_enqueue r hbook]
    exact if_congr ⟨fun hp => ⟨rfl, hp.symm⟩, fun h => h.2.symm⟩ rfl rfl
  · rw [if_neg (fun h => hsd h.1), Function.update_of_ne hsd]

theorem append_queuesOf (book : Side → List RestingOrder) (sd : Side) (r : RestingOrder)
    (hbook : Prioritized sd.better RestingOrder.price (book sd)) :
    (queuesOf book).append sd r.price (r.orderId, r.remainingQuantity) = queuesOf
      (Function.update book sd (enqueue sd.better RestingOrder.price r (book sd))) := by
  funext sd' p
  unfold Replica.append queuesOf
  rw [filter_rested r hbook]
  split_ifs
  · rw [List.map_append]
    rfl
  · rfl

def Distinct (book : Side → List RestingOrder) (sd : Side) : Prop :=
  ((book sd).map RestingOrder.orderId ++ (book sd.opposite).map RestingOrder.orderId).Nodup

def amendAll (book : Side → List RestingOrder) (fill : Fill) : Side → List RestingOrder := fun sd =>
  amend fill.resting.orderId fill.restingRemaining (book sd)

theorem amend_first {book : Side → List RestingOrder} {sd : Side} {fill : Fill} {rs : List RestingOrder}
    (hd : Distinct book sd) (hbook : book sd = fill.resting :: rs) :
    amendAll book fill = Function.update book sd (if fill.restingRemaining = 0 then rs
      else { fill.resting with remainingQuantity := fill.restingRemaining } :: rs) := by
  unfold amendAll
  generalize fill.resting = r at hbook ⊢
  unfold Distinct at hd
  rw [hbook, List.map_cons, List.cons_append, List.nodup_cons, List.mem_append, not_or] at hd
  obtain ⟨⟨hsame, hother⟩, -⟩ := hd
  have hne : ∀ l : List RestingOrder, r.orderId ∉ l.map RestingOrder.orderId → ∀ o ∈ l, o.orderId ≠ r.orderId := by
    intro l hl o ho he
    apply hl
    rw [← he]
    exact List.mem_map_of_mem ho
  funext sd'
  rcases Side.eq_or_opposite sd sd' with rfl | rfl
  · rw [Function.update_self, hbook, amend_cons_self r (hne rs hsame)]
  · rw [Function.update_of_ne (Side.opposite_ne sd), amend_of_not_mem (hne _ hother)]

theorem amend_fills (crosses : ℕ → Bool) {sd : Side} (l : List RestingOrder) {book : Side → List RestingOrder}
    (hbook : book sd = l) (hd : Distinct book sd) (quantity : ℕ) :
    (sweep crosses quantity l).fills.foldl amendAll book =
      Function.update book sd (sweep crosses quantity l).resting := by
  induction l generalizing book quantity with
  | nil =>
    rw [sweep, ← hbook, Function.update_eq_self]
    rfl
  | cons r rs ih =>
    rw [sweep]
    split_ifs with hgo hlt
    · have hleft : r.remainingQuantity - quantity ≠ 0 := Nat.sub_ne_zero_of_lt hlt
      rw [List.foldl_cons, List.foldl_nil, amend_first hd hbook, if_neg hleft]
    · have hdrop : Distinct (Function.update book sd rs) sd := by
        unfold Distinct at hd ⊢
        rw [Function.update_self, Function.update_of_ne (Side.opposite_ne sd)]
        rw [hbook] at hd
        exact (List.nodup_cons.mp hd).2
      have hrest := ih (Function.update_self sd rs book) hdrop (quantity - r.remainingQuantity)
      rw [Function.update_idem] at hrest
      rw [List.foldl_cons, amend_first hd hbook, if_pos rfl]
      exact hrest
    · rw [← hbook, Function.update_eq_self]
      rfl

theorem replay_fills (command : NewOrderCommand) (orderId trades : ℕ) (fills : List Fill)
    (book : Side → List RestingOrder) :
    (queuesOf book).replay (tradeEvents command orderId trades fills) = queuesOf (fills.foldl amendAll book) := by
  induction fills generalizing book trades with
  | nil => rfl
  | cons fill fills ih =>
    rw [tradeEvents, Replica.replay, List.foldl_cons, List.foldl_cons, apply_traded]
    exact ih _ _

namespace Market

variable {symbolId : ℕ} {config : OrderBookConfig} {market : Market}

theorem Numbered.distinct (h : market.Numbered) (sd : Side) : Distinct market.book sd :=
  (ids_perm market sd).nodup_iff.mp h.nodup

theorem replay_acceptEvents (hs : market.Sound config) (hn : market.Numbered) (command : NewOrderCommand) :
    (queuesOf market.book).replay (market.acceptEvents command) = queuesOf (market.accept command).book := by
  have hfills := replay_fills command market.nextId market.trades (market.swept command).fills market.book
  rw [show (market.swept command).fills.foldl amendAll market.book = _ from
    amend_fills _ _ rfl (hn.distinct command.side.opposite) command.quantity] at hfills
  have hside : Function.update market.book command.side.opposite (market.swept command).resting command.side =
      market.book command.side := Function.update_of_ne (Side.opposite_ne command.side).symm _ _
  unfold acceptEvents
  rw [Replica.replay, List.foldl_cons]
  change (queuesOf market.book).replay _ = _
  rw [Replica.replay_append]
  refine (congrArg (Replica.replay · _) hfills).trans ?_
  change (queuesOf (Function.update market.book command.side.opposite (market.swept command).resting)).replay _ =
    queuesOf (settle market.book (incoming command market.nextId) (market.swept command))
  unfold settle
  split_ifs
  · have happend := append_queuesOf
      (Function.update market.book command.side.opposite (market.swept command).resting) command.side
      { incoming command market.nextId with remainingQuantity := (market.swept command).unfilled }
      (by rw [hside]; exact hs.prioritized _)
    rw [hside] at happend
    exact happend
  · rfl

theorem replay_process (hs : market.Sound config) (hn : market.Numbered) (c : EngineCommand) :
    (queuesOf market.book).replay (market.process symbolId config c).2 =
      queuesOf (market.process symbolId config c).1.book := by
  rcases process_cases symbolId config market c with ⟨reason, he⟩ | ⟨command, -, -, he⟩ |
    ⟨command, order, -, -, hlookup, -, -, he⟩ <;> rw [he]
  · rfl
  · exact replay_acceptEvents hs hn command
  · have hid : order.orderId = command.orderId := by simpa using List.find?_some hlookup
    have hdelete := delete_queuesOf market.book order.orderId
    rw [hid] at hdelete
    simp only [withdrawn, Replica.replay, List.foldl_cons, List.foldl_nil, Replica.apply, hid]
    exact hdelete

end Market

end Sixchange
