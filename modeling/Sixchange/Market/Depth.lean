import Sixchange.Market.Steps
import Mathlib.Algebra.Order.BigOperators.Group.List
import Mathlib.Algebra.Order.Group.Nat

namespace Sixchange

open PriorityList
open scoped List

def quantityWhere (keep : RestingOrder → Bool) (l : List RestingOrder) : ℕ :=
  ((l.filter keep).map RestingOrder.remainingQuantity).sum

section QuantityWhere

variable {keep : RestingOrder → Bool} {l l' : List RestingOrder}

theorem quantityWhere_cons (r : RestingOrder) :
    quantityWhere keep (r :: l) = (if keep r = true then r.remainingQuantity else 0) + quantityWhere keep l := by
  unfold quantityWhere
  rw [List.filter_cons]
  split_ifs
  · rfl
  · exact (Nat.zero_add _).symm

theorem quantityWhere_perm (h : l ~ l') : quantityWhere keep l = quantityWhere keep l' :=
  ((h.filter _).map _).sum_eq

theorem quantityWhere_sublist (h : l <+ l') : quantityWhere keep l ≤ quantityWhere keep l' :=
  ((h.filter _).map _).sum_le_sum fun _ _ => Nat.zero_le _

theorem quantityWhere_eq_zero (h : ∀ r ∈ l, keep r = false) : quantityWhere keep l = 0 := by
  unfold quantityWhere
  rw [List.filter_eq_nil_iff.mpr fun r hr => Bool.eq_false_iff.mp (h r hr)]
  rfl

end QuantityWhere

theorem sweep_quantityWhere_le {keep : RestingOrder → Bool}
    (hkeep : ∀ r q, keep { r with remainingQuantity := q } = keep r) (crosses : ℕ → Bool) (quantity : ℕ)
    (l : List RestingOrder) : quantityWhere keep (sweep crosses quantity l).resting ≤ quantityWhere keep l := by
  induction l generalizing quantity with
  | nil => exact Nat.le_refl 0
  | cons r rs ih =>
    rw [sweep]
    split_ifs
    · simp only [quantityWhere_cons, hkeep]
      split_ifs <;> omega
    · rw [quantityWhere_cons]
      exact (ih _).trans (Nat.le_add_left _ _)
    · exact Nat.le_refl _

theorem sweep_unfilled {sd : Side} {limit : ℕ} {l : List RestingOrder}
    (hl : Prioritized sd.better RestingOrder.price l) (quantity : ℕ) :
    (sweep (sd.crosses limit) quantity l).unfilled =
      quantity - quantityWhere (fun r => sd.crosses limit r.price) l := by
  induction l generalizing quantity with
  | nil => rfl
  | cons r rs ih =>
    obtain ⟨hr, hrs⟩ := List.pairwise_cons.mp hl
    rw [sweep, quantityWhere_cons]
    by_cases hcross : sd.crosses limit r.price = true
    · rw [if_pos hcross]
      split_ifs with hgo hlt
      · dsimp only
        omega
      · rw [ih hrs, Nat.sub_sub]
      · have hzero : quantity = 0 := Nat.eq_zero_of_not_pos fun hpos => hgo ⟨hpos, hcross⟩
        rw [hzero, Nat.zero_sub]
    · rw [if_neg fun hgo => hcross hgo.2, if_neg hcross, Nat.zero_add]
      -- in priority order nothing behind an order that does not cross does
      rw [quantityWhere_eq_zero, Nat.sub_zero]
      intro x hx
      exact Bool.eq_false_iff.mpr fun hc => hcross (Side.crosses_of_not_better hc (hr x hx))

namespace Market

variable {symbolId : ℕ} {config : OrderBookConfig} {market : Market}

def depth (market : Market) (sd : Side) (p : ℕ) : ℕ := quantityWhere (·.price = p) (market.book sd)

def crossing (market : Market) (command : NewOrderCommand) : ℕ :=
  quantityWhere (fun r => command.side.opposite.crosses command.price r.price) (market.book command.side.opposite)

theorem swept_unfilled (hs : market.Sound config) (command : NewOrderCommand) :
    (market.swept command).unfilled = command.quantity - market.crossing command :=
  sweep_unfilled (hs.prioritized _) _

theorem depth_accept_side (hs : market.Sound config) (command : NewOrderCommand) (p : ℕ) :
    (market.accept command).depth command.side p = market.depth command.side p +
      if command.price = p then command.quantity - market.crossing command else 0 := by
  have hrest : quantityWhere (·.price = p) ({ incoming command market.nextId with
      remainingQuantity := (market.swept command).unfilled } :: market.book command.side) =
        (if command.price = p then (market.swept command).unfilled else 0) + market.depth command.side p := by
    rw [quantityWhere_cons]
    exact congrArg (· + _) (if_congr decide_eq_true_iff rfl rfl)
  rw [depth, accept_side, ← swept_unfilled hs]
  by_cases hleft : 0 < (market.swept command).unfilled
  · rw [if_pos hleft, quantityWhere_perm (enqueue_perm _ _), hrest, Nat.add_comm]
  · rw [if_neg hleft, Nat.eq_zero_of_not_pos hleft, ite_self]
    rfl

theorem depth_accept_opposite (command : NewOrderCommand) (p : ℕ) :
    (market.accept command).depth command.side.opposite p ≤ market.depth command.side.opposite p := by
  rw [depth, accept_opposite]
  exact sweep_quantityWhere_le (fun _ _ => rfl) _ _ _

theorem depth_remove (orderId : ℕ) (sd : Side) (p : ℕ) : (market.remove orderId).depth sd p ≤ market.depth sd p :=
  quantityWhere_sublist List.filter_sublist

def DepthFits (market : Market) : Prop := ∀ sd p, market.depth sd p < word

def RestFits (symbolId : ℕ) (config : OrderBookConfig) (market : Market) : EngineCommand → Prop
  | .newOrder command => market.refusal symbolId config command = none →
      market.depth command.side command.price + (command.quantity - market.crossing command) < word
  | _ => True

theorem depthFits_process (hs : market.Sound config) (hfits : market.DepthFits) (c : EngineCommand) :
    (market.process symbolId config c).1.DepthFits ↔ market.RestFits symbolId config c := by
  rcases process_cases symbolId config market c with ⟨reason, he⟩ | ⟨command, rfl, hrefusal, he⟩ |
    ⟨command, order, rfl, -, -, -, -, he⟩ <;> rw [he]
  · refine iff_of_true hfits ?_
    cases c with
    | newOrder command =>
      intro hrefusal
      rw [process, submit, hrefusal] at he
      cases congrArg Prod.snd he
    | _ => trivial
  · constructor
    · intro h _
      have hlevel := h command.side command.price
      rwa [depth_accept_side hs, if_pos rfl] at hlevel
    · intro h sd p
      rcases Side.eq_or_opposite command.side sd with rfl | rfl
      · rw [depth_accept_side hs]
        split_ifs with hp
        · rw [← hp]
          exact h hrefusal
        · exact hfits _ p
      · exact (depth_accept_opposite command p).trans_lt (hfits _ p)
  · exact iff_of_true (fun sd p => (depth_remove _ sd p).trans_lt (hfits sd p)) trivial

end Market

end Sixchange
