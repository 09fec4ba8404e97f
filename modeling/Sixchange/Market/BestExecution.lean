import Sixchange.Market.Depth
import Sixchange.Theory.Allocation

namespace Sixchange

open Allocation PriorityList
open scoped List

namespace Side

def cost : Side → ℕ → ℤ
  | .buy, price => -price
  | .sell, price => price

theorem cost_le {sd : Side} {p q : ℕ} : sd.cost p ≤ sd.cost q ↔ ¬ sd.better q p := by
  cases sd <;> simp only [cost, better] <;> omega

end Side

namespace EngineEvent

def volume : EngineEvent → ℕ
  | .tradeExecuted event => event.quantity
  | _ => 0

def cost (sd : Side) : EngineEvent → ℤ
  | .tradeExecuted event => event.quantity * sd.cost event.price
  | _ => 0

def taken (orderId : ℕ) : EngineEvent → ℕ
  | .tradeExecuted event => if event.restingOrderId = orderId then event.quantity else 0
  | _ => 0

end EngineEvent

def volume (events : List EngineEvent) : ℕ := (events.map EngineEvent.volume).sum

def cost (sd : Side) (events : List EngineEvent) : ℤ := (events.map (EngineEvent.cost sd)).sum

def taken (events : List EngineEvent) (order : RestingOrder) : ℕ :=
  (events.map (EngineEvent.taken order.orderId)).sum

structure Permitted (command : NewOrderCommand) (offers : List RestingOrder) (take : RestingOrder → ℕ) : Prop where
  available : ∀ r ∈ offers, take r ≤ r.remainingQuantity
  limit : ∀ r ∈ offers, 0 < take r → command.side.opposite.crosses command.price r.price = true
  quantity : (offers.map take).sum ≤ command.quantity

structure BestExecution (command : NewOrderCommand) (offers : List RestingOrder) (events : List EngineEvent) :
    Prop where
  permitted : Permitted command offers (taken events)
  volume_eq : volume events = (offers.map (taken events)).sum
  cost_eq : cost command.side.opposite events =
    (offers.map fun r => taken events r * command.side.opposite.cost r.price).sum
  most : ∀ take, Permitted command offers take → (offers.map take).sum ≤ volume events
  cheapest : ∀ take, (∀ r ∈ offers, take r ≤ r.remainingQuantity) → (offers.map take).sum = volume events →
    cost command.side.opposite events ≤ (offers.map fun r => take r * command.side.opposite.cost r.price).sum

theorem BestExecution.perm {command : NewOrderCommand} {offers offers' : List RestingOrder}
    {events : List EngineEvent} (h : BestExecution command offers events) (hp : offers ~ offers') :
    BestExecution command offers' events where
  permitted := by
    obtain ⟨havailable, hlimit, hquantity⟩ := h.permitted
    rw [(hp.map _).sum_eq] at hquantity
    exact ⟨fun r hr => havailable r (hp.mem_iff.mpr hr), fun r hr => hlimit r (hp.mem_iff.mpr hr), hquantity⟩
  volume_eq := h.volume_eq.trans (hp.map _).sum_eq
  cost_eq := h.cost_eq.trans (hp.map _).sum_eq
  most take htake := by
    obtain ⟨havailable, hlimit, hquantity⟩ := htake
    rw [← (hp.map _).sum_eq] at hquantity ⊢
    apply h.most
    exact ⟨fun r hr => havailable r (hp.mem_iff.mp hr), fun r hr => hlimit r (hp.mem_iff.mp hr), hquantity⟩
  cheapest take htake hsum := by
    rw [← (hp.map _).sum_eq]
    apply h.cheapest take (fun r hr => htake r (hp.mem_iff.mp hr))
    rw [(hp.map _).sum_eq, hsum]

theorem sum_permitted_le {command : NewOrderCommand} {offers : List RestingOrder} {take : RestingOrder → ℕ}
    (h : Permitted command offers take) : (offers.map take).sum ≤
      quantityWhere (fun r => command.side.opposite.crosses command.price r.price) offers := by
  obtain ⟨havailable, hlimit, -⟩ := h
  induction offers with
  | nil => exact Nat.le_refl 0
  | cons r rs ih =>
    rw [List.forall_mem_cons] at havailable hlimit
    have hrest := ih havailable.2 hlimit.2
    rw [List.map_cons, List.sum_cons, quantityWhere_cons]
    split_ifs with hcross
    · have := havailable.1
      omega
    · have hnone : take r = 0 := Nat.eq_zero_of_not_pos fun hpos => hcross (hlimit.1 hpos)
      omega

section Fills

def fillVolume (fills : List Fill) : ℕ := (fills.map Fill.quantity).sum

def fillCost (sd : Side) (fills : List Fill) : ℤ :=
  (fills.map fun fill => (fill.quantity : ℤ) * sd.cost fill.resting.price).sum

def fillTaken (fills : List Fill) (order : RestingOrder) : ℕ :=
  (fills.map fun fill => if fill.resting.orderId = order.orderId then fill.quantity else 0).sum

variable {crosses : ℕ → Bool} {l : List RestingOrder}

theorem fills_cross {quantity : ℕ} {fill : Fill} (h : fill ∈ (sweep crosses quantity l).fills) :
    crosses fill.resting.price = true := by
  induction l generalizing quantity with
  | nil => cases h
  | cons r rs ih =>
    rw [sweep] at h
    split_ifs at h with hgo hlt
    · rw [List.mem_singleton.mp h]
      exact hgo.2
    · rcases List.mem_cons.mp h with rfl | h
      · exact hgo.2
      · exact ih h
    · cases h

theorem exists_fill {fills : List Fill} {order : RestingOrder} (h : 0 < fillTaken fills order) :
    ∃ fill ∈ fills, fill.resting.orderId = order.orderId := by
  by_contra hnone
  push Not at hnone
  apply Nat.ne_of_gt h
  apply List.sum_eq_zero
  intro n hn
  obtain ⟨fill, hfill, rfl⟩ := List.mem_map.mp hn
  exact if_neg (hnone fill hfill)

theorem map_fillTaken_cons {r : RestingOrder} {rs : List RestingOrder} {fill : Fill} {fills : List Fill}
    (hfill : fill.resting = r) (hr : r.orderId ∉ rs.map RestingOrder.orderId)
    (hfills : ∀ fill ∈ fills, fill.resting ∈ rs) :
    (r :: rs).map (fillTaken (fill :: fills)) = fill.quantity :: rs.map (fillTaken fills) := by
  have hlater : fillTaken fills r = 0 := by
    apply Nat.eq_zero_of_not_pos
    intro hpos
    obtain ⟨other, hother, he⟩ := exists_fill hpos
    exact hr (he ▸ List.mem_map_of_mem (hfills other hother))
  rw [List.map_cons]
  congr 1
  · simp [fillTaken, hfill] at hlater ⊢
    exact hlater
  · apply List.map_congr_left
    intro r' hr'
    have hne : fill.resting.orderId ≠ r'.orderId := by
      rw [hfill]
      exact fun he => hr (he ▸ List.mem_map_of_mem hr')
    simp [fillTaken, hne]

theorem sweep_inOrder (sd : Side) (crosses : ℕ → Bool) (quantity : ℕ) (l : List RestingOrder) :
    let fills := (sweep crosses quantity l).fills
    let take := inOrder RestingOrder.remainingQuantity (fillVolume fills) l
    take.sum = fillVolume fills ∧ spent (fun r => sd.cost r.price) take l = fillCost sd fills := by
  induction l generalizing quantity with
  | nil => exact ⟨rfl, rfl⟩
  | cons r rs ih =>
    dsimp only at ih ⊢
    rw [sweep]
    split_ifs with hgo hlt
    · have hmin := Nat.min_eq_left (Nat.le_of_lt hlt)
      constructor
      · simp [fillVolume, inOrder, hmin, inOrder_zero]
      · simp [fillVolume, fillCost, inOrder, spent, hmin, spent_inOrder_zero]
    · obtain ⟨hsum, hspent⟩ := ih (quantity - r.remainingQuantity)
      simp only [fillVolume, fillCost, List.map_cons, List.sum_cons] at hsum hspent ⊢
      rw [inOrder, Nat.min_eq_right (Nat.le_add_right _ _), Nat.add_sub_cancel_left, List.sum_cons, spent,
        hsum, hspent]
      exact ⟨rfl, rfl⟩
    · constructor
      · simp [fillVolume, inOrder_zero]
      · exact spent_inOrder_zero _

theorem sweep_taken (hd : (l.map RestingOrder.orderId).Nodup) (crosses : ℕ → Bool) (quantity : ℕ) :
    l.map (fillTaken (sweep crosses quantity l).fills) =
      inOrder RestingOrder.remainingQuantity (fillVolume (sweep crosses quantity l).fills) l := by
  induction l generalizing quantity with
  | nil => rfl
  | cons r rs ih =>
    obtain ⟨hr, hrs⟩ := List.nodup_cons.mp hd
    have hnone : ∀ l, inOrder RestingOrder.remainingQuantity 0 l = l.map (fillTaken []) := inOrder_zero
    rw [sweep]
    split_ifs with hgo hlt
    · rw [map_fillTaken_cons rfl hr (by simp), ← hnone]
      simp [fillVolume, inOrder, Nat.min_eq_left (Nat.le_of_lt hlt)]
    · rw [map_fillTaken_cons rfl hr (fun _ => mem_fills), ih hrs]
      simp only [fillVolume, List.map_cons, List.sum_cons]
      rw [inOrder, Nat.min_eq_right (Nat.le_add_right _ _), Nat.add_sub_cancel_left]
    · exact (hnone _).symm

theorem sweep_volume (crosses : ℕ → Bool) (quantity : ℕ) (l : List RestingOrder) :
    fillVolume (sweep crosses quantity l).fills + (sweep crosses quantity l).unfilled = quantity := by
  induction l generalizing quantity with
  | nil => simp [sweep, fillVolume]
  | cons r rs ih =>
    have hrest := ih (quantity - r.remainingQuantity)
    rw [sweep]
    split_ifs <;> simp [fillVolume] at hrest ⊢
    omega

end Fills

section Trades

variable (command : NewOrderCommand) (orderId : ℕ)

theorem sum_tradeEvents {α : Type} [AddCommMonoid α] {read : EngineEvent → α} {fillRead : Fill → α}
    (hread : ∀ tradeId fill, read (traded command orderId tradeId fill) = fillRead fill) (trades : ℕ)
    (fills : List Fill) :
    ((tradeEvents command orderId trades fills).map read).sum = (fills.map fillRead).sum := by
  induction fills generalizing trades with
  | nil => rfl
  | cons fill fills ih => simp [tradeEvents, hread, ih]

end Trades

namespace Market

variable {config : OrderBookConfig} {market : Market}

theorem sum_acceptEvents {α : Type} [AddCommMonoid α] {read : EngineEvent → α} {fillRead : Fill → α}
    {command : NewOrderCommand} (haccepted : read (Sixchange.accepted command market.nextId) = 0)
    (hrested : ∀ n, read (rested command market.nextId n) = 0)
    (hread : ∀ tradeId fill, read (traded command market.nextId tradeId fill) = fillRead fill) :
    ((market.acceptEvents command).map read).sum = ((market.swept command).fills.map fillRead).sum := by
  have htrades := sum_tradeEvents command market.nextId hread market.trades (market.swept command).fills
  rw [acceptEvents, List.map_cons, List.sum_cons, haccepted, zero_add, List.map_append, List.sum_append, htrades]
  split_ifs
  · rw [List.map_singleton, List.sum_singleton, hrested, add_zero]
  · rw [List.map_nil, List.sum_nil, add_zero]

theorem acceptEvents_best (hs : market.Sound config) (hd : market.ids.Nodup) (command : NewOrderCommand) :
    BestExecution command (market.book command.side.opposite) (market.acceptEvents command) := by
  have hvolume : volume (market.acceptEvents command) = fillVolume (market.swept command).fills :=
    sum_acceptEvents rfl (fun _ => rfl) fun _ _ => rfl
  have hcost : cost command.side.opposite (market.acceptEvents command) =
      fillCost command.side.opposite (market.swept command).fills :=
    sum_acceptEvents rfl (fun _ => rfl) fun _ _ => rfl
  have htaken : taken (market.acceptEvents command) = fillTaken (market.swept command).fills := by
    funext r
    exact sum_acceptEvents rfl (fun _ => rfl) fun _ _ => rfl
  have hids : ((market.book command.side.opposite).map RestingOrder.orderId).Nodup :=
    (List.nodup_append'.mp ((ids_perm market command.side).nodup_iff.mp hd)).2.1
  have hlist : (market.book command.side.opposite).map (fillTaken (market.swept command).fills) = _ :=
    sweep_taken hids _ _
  obtain ⟨hsum, hspent⟩ := sweep_inOrder command.side.opposite (command.side.opposite.crosses command.price)
    command.quantity (market.book command.side.opposite)
  have hfilled : fillVolume (market.swept command).fills + (market.swept command).unfilled = command.quantity :=
    sweep_volume _ _ _
  have hunfilled := swept_unfilled hs command
  constructor
  · rw [htaken]
    refine ⟨fun r => le_supply hlist, fun r hr hpos => ?_, ?_⟩
    · obtain ⟨fill, hfill, he⟩ := exists_fill hpos
      rw [← eq_of_orderId hids (mem_fills hfill) hr he]
      exact fills_cross hfill
    · rw [hlist]
      rw [hsum]
      exact Nat.le.intro hfilled
  · rw [hvolume, htaken, hlist]
    exact hsum.symm
  · rw [hcost, htaken, ← spent_map, hlist]
    exact hspent.symm
  · intro take htake
    have hle := sum_permitted_le htake
    have hquantity := htake.quantity
    rw [hvolume]
    change _ ≤ market.crossing command at hle
    omega
  · intro take htake hsame
    rw [hcost, ← spent_map]
    change fillCost _ (sweep _ _ _).fills ≤ _
    rw [← hspent]
    apply inOrder_cheapest _ htake
    · rw [hsame, hvolume]
      exact hsum
    · exact (hs.prioritized _).imp fun h => Side.cost_le.mpr h

end Market

end Sixchange
