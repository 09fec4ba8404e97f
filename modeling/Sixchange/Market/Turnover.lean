import Sixchange.Market.Steps

namespace Sixchange

open PriorityList
open scoped List

def Fill.exact (fill : Fill) : Bool := fill.aggressingRemaining = 0 ∧ fill.restingRemaining = 0

/-- A trade fills one order, an exact one two; what is not filled rests. -/
theorem sweep_balance (crosses : ℕ → Bool) (quantity : ℕ) (l : List RestingOrder) :
    let s := sweep crosses quantity l
    s.fills.length + s.fills.countP Fill.exact + s.resting.length + (if 0 < s.unfilled then 1 else 0) =
      l.length + if 0 < quantity then 1 else 0 := by
  induction l generalizing quantity with
  | nil =>
    dsimp only [sweep]
    rfl
  | cons r rs ih =>
    have hrest := ih (quantity - r.remainingQuantity)
    dsimp only at hrest ⊢
    rw [sweep]
    by_cases hgo : 0 < quantity ∧ crosses r.price = true
    · rw [if_pos hgo, if_pos hgo.1]
      by_cases hlt : quantity < r.remainingQuantity
      · have hpartial : ¬ r.remainingQuantity - quantity = 0 := by omega
        rw [if_pos hlt]
        simp [Fill.exact, hpartial]
        omega
      · have hexact : Fill.exact ⟨r, r.remainingQuantity, quantity - r.remainingQuantity, 0⟩ =
            decide (quantity = r.remainingQuantity) := by
          simp only [Fill.exact, and_true, decide_eq_decide]
          omega
        rw [if_neg hlt]
        simp only [List.length_cons, List.countP_cons, hexact, decide_eq_true_eq]
        split_ifs at hrest ⊢ <;> omega
    · rw [if_neg hgo]
      simp

namespace Market

variable {symbolId : ℕ} {config : OrderBookConfig} {market : Market}

theorem ids_length (market : Market) (sd : Side) :
    market.ids.length = (market.book sd).length + (market.book sd.opposite).length := by
  rw [(ids_perm market sd).length_eq, List.length_append, List.length_map, List.length_map]

theorem accept_balance (market : Market) (command : NewOrderCommand) :
    (market.accept command).trades + (market.swept command).fills.countP Fill.exact +
        (market.accept command).ids.length =
      market.trades + market.ids.length + if 0 < command.quantity then 1 else 0 := by
  have hsweep : (market.swept command).fills.length + (market.swept command).fills.countP Fill.exact +
      (market.swept command).resting.length + (if 0 < (market.swept command).unfilled then 1 else 0) =
        (market.book command.side.opposite).length + if 0 < command.quantity then 1 else 0 := sweep_balance _ _ _
  have htrades : (market.accept command).trades = market.trades + (market.swept command).fills.length := rfl
  have hside : ((market.accept command).book command.side).length =
      (market.book command.side).length + if 0 < (market.swept command).unfilled then 1 else 0 := by
    rw [accept_side]
    split_ifs
    · rw [(enqueue_perm _ _).length_eq, List.length_cons]
    · rfl
  rw [ids_length market command.side, ids_length _ command.side, hside, accept_opposite, htrades]
  split_ifs at hsweep ⊢ <;> omega

def TradesCovered (market : Market) : Prop := market.trades + market.ids.length ≤ market.accepted

theorem TradesCovered.empty : TradesCovered .empty := Nat.le_refl 0

theorem TradesCovered.accept (h : market.TradesCovered) (command : NewOrderCommand) :
    (market.accept command).TradesCovered := by
  have hbalance := accept_balance market command
  unfold TradesCovered at h ⊢
  change _ ≤ market.accepted + 1
  split_ifs at hbalance <;> omega

theorem TradesCovered.remove (h : market.TradesCovered) (orderId : ℕ) : (market.remove orderId).TradesCovered :=
  (Nat.add_le_add_left (remove_ids market orderId).length_le _).trans h

theorem TradesCovered.process (h : market.TradesCovered) (c : EngineCommand) :
    (market.process symbolId config c).1.TradesCovered := by
  rcases process_cases symbolId config market c with ⟨reason, he⟩ | ⟨command, -, -, he⟩ |
    ⟨command, order, -, -, -, -, -, he⟩ <;> rw [he]
  · exact h
  · exact h.accept command
  · exact h.remove command.orderId

theorem TradesCovered.trades_le (h : market.TradesCovered) : market.trades ≤ market.accepted :=
  (Nat.le_add_right _ _).trans h

end Market

end Sixchange
