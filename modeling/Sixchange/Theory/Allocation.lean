import Mathlib.Algebra.Order.BigOperators.Group.List
import Mathlib.Algebra.Order.Group.Nat
import Mathlib.Algebra.Order.Ring.Int
import Mathlib.Tactic.Linarith
import Mathlib.Tactic.Ring

namespace Allocation

variable {α : Type} (supply : α → ℕ) (cost : α → ℤ)

def inOrder : ℕ → List α → List ℕ
  | _, [] => []
  | amount, a :: l => min amount (supply a) :: inOrder (amount - min amount (supply a)) l

def spent : List ℕ → List α → ℤ
  | n :: taken, a :: l => n * cost a + spent taken l
  | _, _ => 0

variable {supply cost} {l : List α} {take : α → ℕ} {amount : ℕ}

theorem inOrder_zero (l : List α) : inOrder supply 0 l = l.map fun _ => 0 := by
  induction l with
  | nil => rfl
  | cons a l ih => simp [inOrder, ih]

theorem spent_map (take : α → ℕ) (l : List α) : spent cost (l.map take) l = (l.map fun a => take a * cost a).sum := by
  induction l with
  | nil => rfl
  | cons a l ih => simp [spent, ih]

theorem spent_inOrder_zero (l : List α) : spent cost (inOrder supply 0 l) l = 0 := by
  rw [inOrder_zero, spent_map]
  simp

theorem length_inOrder (amount : ℕ) (l : List α) : (inOrder supply amount l).length = l.length := by
  induction l generalizing amount with
  | nil => rfl
  | cons a l ih => simp [inOrder, ih]

theorem le_supply (h : l.map take = inOrder supply amount l) {a : α} (ha : a ∈ l) : take a ≤ supply a := by
  induction l generalizing amount with
  | nil => cases ha
  | cons b l ih =>
    rw [List.map_cons, inOrder] at h
    obtain ⟨hfirst, hrest⟩ := List.cons.inj h
    rcases List.mem_cons.mp ha with rfl | ha
    · omega
    · exact ih hrest ha

theorem spent_sub (c : ℤ) {taken : List ℕ} {l : List α} (h : taken.length = l.length) :
    spent (fun a => cost a - c) taken l = spent cost taken l - c * taken.sum := by
  induction l generalizing taken with
  | nil =>
    obtain rfl := List.length_eq_zero_iff.mp h
    simp [spent]
  | cons a l ih =>
    cases taken with
    | nil => cases h
    | cons n taken =>
      have hrest := ih (Nat.succ.inj h)
      simp only [spent, hrest, List.sum_cons]
      rw [Nat.cast_add]
      ring

theorem spent_nonneg {taken : List ℕ} (hcost : ∀ a ∈ l, 0 ≤ cost a) : 0 ≤ spent cost taken l := by
  induction l generalizing taken with
  | nil => cases taken <;> exact le_refl _
  | cons a l ih =>
    rw [List.forall_mem_cons] at hcost
    cases taken with
    | nil => exact le_refl _
    | cons n taken =>
      simp only [spent]
      exact add_nonneg (mul_nonneg (Int.natCast_nonneg n) hcost.1) (ih hcost.2)

theorem le_spent {taken : List ℕ} {c : ℤ} (hlen : taken.length = l.length) (hcost : ∀ a ∈ l, c ≤ cost a) :
    c * taken.sum ≤ spent cost taken l := by
  have hnonneg : 0 ≤ spent (fun a => cost a - c) taken l :=
    spent_nonneg fun a ha => sub_nonneg.mpr (hcost a ha)
  rw [spent_sub c hlen] at hnonneg
  linarith

theorem inOrder_le (hsorted : l.Pairwise fun a b => cost a ≤ cost b) (htake : ∀ a ∈ l, take a ≤ supply a)
    (hcost : ∀ a ∈ l, 0 ≤ cost a) (hsum : (inOrder supply amount l).sum ≤ (l.map take).sum) :
    spent cost (inOrder supply amount l) l ≤ spent cost (l.map take) l := by
  induction l generalizing amount cost with
  | nil => exact le_refl _
  | cons a l ih =>
    obtain ⟨hfirst, hsorted⟩ := List.pairwise_cons.mp hsorted
    rw [List.forall_mem_cons] at htake hcost
    have hlen : (l.map take).length = l.length := List.length_map _
    simp only [inOrder, spent, List.map_cons, List.sum_cons] at hsum ⊢
    by_cases hle : amount ≤ supply a
    · -- the first offer suffices, and no other is cheaper
      rw [min_eq_left hle, Nat.sub_self] at hsum ⊢
      have hrest := le_spent hlen hfirst
      have hamount : cost a * (amount : ℤ) ≤ cost a * (take a + (l.map take).sum : ℕ) := by
        apply mul_le_mul_of_nonneg_left _ hcost.1
        exact Int.ofNat_le.mpr (by omega)
      rw [spent_inOrder_zero]
      simp only [Nat.cast_add] at hamount hrest
      linarith
    · -- all of the first offer is taken; the rest is compared above its cost
      have hlt : supply a ≤ amount := by omega
      rw [min_eq_right hlt] at hsum ⊢
      have hmore : (inOrder supply (amount - supply a) l).sum ≤ (l.map take).sum := by
        have := htake.1
        omega
      have hrest : spent (fun b => cost b - cost a) (inOrder supply (amount - supply a) l) l ≤
          spent (fun b => cost b - cost a) (l.map take) l :=
        ih (hsorted.imp fun h => sub_le_sub_right h _) htake.2 (fun b hb => sub_nonneg.mpr (hfirst b hb)) hmore
      rw [spent_sub _ (length_inOrder _ _), spent_sub _ hlen] at hrest
      have hamount : cost a * ((supply a + (inOrder supply (amount - supply a) l).sum : ℕ) : ℤ) ≤
          cost a * (take a + (l.map take).sum : ℕ) := by
        apply mul_le_mul_of_nonneg_left _ hcost.1
        exact Int.ofNat_le.mpr hsum
      simp only [Nat.cast_add] at hamount
      linarith

theorem inOrder_cheapest (hsorted : l.Pairwise fun a b => cost a ≤ cost b) (htake : ∀ a ∈ l, take a ≤ supply a)
    (hsum : (inOrder supply amount l).sum = (l.map take).sum) :
    spent cost (inOrder supply amount l) l ≤ spent cost (l.map take) l := by
  cases l with
  | nil => exact le_refl _
  | cons a l =>
    have hlowest : ∀ b ∈ a :: l, cost a ≤ cost b := by
      rw [List.forall_mem_cons]
      exact ⟨le_refl _, (List.pairwise_cons.mp hsorted).1⟩
    have hle := inOrder_le (hsorted.imp fun h => sub_le_sub_right h (cost a)) htake
      (fun b hb => sub_nonneg.mpr (hlowest b hb)) (Nat.le_of_eq hsum)
    rw [spent_sub _ (length_inOrder _ _), spent_sub _ (List.length_map _), hsum] at hle
    exact sub_le_sub_iff_right _ |>.mp hle

end Allocation
