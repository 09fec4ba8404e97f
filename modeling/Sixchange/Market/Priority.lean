import Sixchange.Model.Core
import Sixchange.Theory.PriorityList

namespace Sixchange

namespace Side

def opposite : Side → Side
  | .buy => .sell
  | .sell => .buy

theorem opposite_ne (sd : Side) : sd.opposite ≠ sd := by cases sd <;> decide

theorem opposite_opposite (sd : Side) : sd.opposite.opposite = sd := by cases sd <;> rfl

theorem eq_or_opposite (sd sd' : Side) : sd' = sd ∨ sd' = sd.opposite := by cases sd <;> cases sd' <;> decide

def better : Side → ℕ → ℕ → Prop
  | .buy, p, q => q < p
  | .sell, p, q => p < q

instance (sd : Side) : DecidableRel sd.better :=
  match sd with
  | .buy => fun p q => inferInstanceAs (Decidable (q < p))
  | .sell => fun p q => inferInstanceAs (Decidable (p < q))

instance (sd : Side) : IsStrictTotalOrder ℕ sd.better where
  irrefl p := by cases sd <;> simp [better]
  trans p q r h₁ h₂ := by cases sd <;> simp only [better] at * <;> omega
  trichotomous p q h₁ h₂ := by cases sd <;> simp only [better] at * <;> omega

def crosses : Side → ℕ → ℕ → Bool
  | .buy, limit, best => limit ≤ best
  | .sell, limit, best => best ≤ limit

theorem crosses_comm (sd : Side) (p q : ℕ) : sd.crosses p q = sd.opposite.crosses q p := by cases sd <;> rfl

theorem not_better_iff {sd : Side} {p q : ℕ} : ¬ sd.better q p ↔ p = q ∨ sd.better p q := by
  cases sd <;> simp only [better] <;> omega

theorem crosses_of_not_better {sd : Side} {limit p q : ℕ} (h : sd.crosses limit q = true)
    (hb : ¬ sd.better q p) : sd.crosses limit p = true := by
  cases sd <;> simp only [crosses, better, decide_eq_true_eq] at * <;> omega

end Side

structure RestingOrder where
  orderId : ℕ
  clientOrderId : ℕ
  clientId : ℕ
  side : Side
  price : ℕ
  remainingQuantity : ℕ
  deriving DecidableEq, Repr

end Sixchange
