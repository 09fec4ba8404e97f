import Mathlib.Algebra.BigOperators.Group.List.Basic
import Sixchange.Market.Steps

namespace Sixchange

open PriorityList

def Facing (sd : Side) (near far : List RestingOrder) (book : Side → List RestingOrder) : Prop :=
  book sd = near ∧ book sd.opposite = far

structure Stacked (sd : Side) (count total limit : ℕ) (book : Side → List RestingOrder) : Prop where
  bare : book sd.opposite = []
  length_eq : (book sd).length = count
  total_eq : ((book sd).map RestingOrder.remainingQuantity).sum = total
  positive : ∀ r ∈ book sd, 0 < r.remainingQuantity
  reached : ∀ r ∈ book sd, sd.crosses limit r.price = true

theorem sweep_total {crosses : ℕ → Bool} {l : List RestingOrder} (hpositive : ∀ r ∈ l, 0 < r.remainingQuantity)
    (hreached : ∀ r ∈ l, crosses r.price = true) :
    ∃ fills, sweep crosses (l.map RestingOrder.remainingQuantity).sum l = ⟨fills, 0, []⟩ ∧
      fills.length = l.length := by
  induction l with
  | nil => exact ⟨[], rfl, rfl⟩
  | cons r rs ih =>
    rw [List.forall_mem_cons] at hpositive hreached
    obtain ⟨fills, hsweep, hlength⟩ := ih hpositive.2 hreached.2
    rw [List.map_cons, List.sum_cons, sweep, if_pos ⟨Nat.add_pos_left hpositive.1 _, hreached.1⟩, if_neg (by omega),
      Nat.add_sub_cancel_left, hsweep]
    exact ⟨_, rfl, congrArg Nat.succ hlength⟩

variable {sd : Side} {book : Side → List RestingOrder} {near far : List RestingOrder}

theorem Facing.swap (h : Facing sd near far book) : Facing sd.opposite far near book := by
  refine ⟨h.2, ?_⟩
  rw [Side.opposite_opposite]
  exact h.1

theorem Facing.of_swap (h : Facing sd.opposite far near book) : Facing sd near far book := by
  have hswap := h.swap
  rwa [Side.opposite_opposite] at hswap

theorem Facing.of_bare {sd : Side} {book : Side → List RestingOrder} (h : Facing sd [] [] book) (sd' : Side) :
    Facing sd' [] [] book := by
  rcases Side.eq_or_opposite sd sd' with rfl | rfl
  · exact h
  · exact h.swap

theorem Facing.length (h : Facing sd near far book) : (book .buy ++ book .sell).length = near.length + far.length := by
  obtain ⟨rfl, rfl⟩ := h
  cases sd
  · exact List.length_append
  · rw [List.length_append, Nat.add_comm]
    rfl

theorem Facing.settle (h : Facing sd near far book) {order : RestingOrder} (hside : order.side = sd) (s : Swept) :
    Facing sd (if 0 < s.unfilled then
      enqueue sd.better RestingOrder.price { order with remainingQuantity := s.unfilled } near else near)
      s.resting (settle book order s) := by
  obtain ⟨rfl, rfl⟩ := h
  subst hside
  exact ⟨settle_side order, settle_opposite order⟩

theorem Facing.filter (h : Facing sd near far book) (p : RestingOrder → Bool) :
    Facing sd (near.filter p) (far.filter p) fun sd => (book sd).filter p := by
  obtain ⟨rfl, rfl⟩ := h
  exact ⟨rfl, rfl⟩

namespace Stacked

variable {count total limit : ℕ}

theorem facing (h : Stacked sd count total limit book) : Facing sd (book sd) [] book := ⟨rfl, h.bare⟩

theorem length (h : Stacked sd count total limit book) : (book .buy ++ book .sell).length = count := by
  rw [h.facing.length, h.length_eq]
  rfl

theorem of_bare (h : Facing sd [] [] book) (limit : ℕ) : Stacked sd 0 0 limit book := by
  obtain ⟨hnear, hfar⟩ := h
  refine ⟨hfar, ?_, ?_, ?_, ?_⟩ <;> simp [hnear]

theorem rest (h : Stacked sd count total limit book) {order : RestingOrder} (hside : order.side = sd)
    (hpositive : 0 < order.remainingQuantity) {limit' : ℕ} (hreached : sd.crosses limit' order.price = true)
    (hmore : ∀ p, sd.crosses limit p = true → sd.crosses limit' p = true) :
    Stacked sd (count + 1) (total + order.remainingQuantity) limit'
      (settle book order ⟨[], order.remainingQuantity, []⟩) := by
  obtain ⟨hnear, hfar⟩ := h.facing.settle hside ⟨[], order.remainingQuantity, []⟩
  rw [if_pos hpositive] at hnear
  have hperm : (enqueue sd.better RestingOrder.price order (book sd)).Perm (order :: book sd) := enqueue_perm order _
  refine ⟨hfar, ?_, ?_, ?_, ?_⟩ <;> rw [hnear]
  · rw [hperm.length_eq, List.length_cons, h.length_eq]
  · rw [(hperm.map _).sum_eq, List.map_cons, List.sum_cons, h.total_eq, Nat.add_comm]
  · intro r hr
    rcases List.mem_cons.mp (hperm.mem_iff.mp hr) with rfl | hr
    · exact hpositive
    · exact h.positive r hr
  · intro r hr
    rcases List.mem_cons.mp (hperm.mem_iff.mp hr) with rfl | hr
    · exact hreached
    · exact hmore _ (h.reached r hr)

theorem clear (h : Stacked sd count total limit book) {order : RestingOrder} (hside : order.side = sd.opposite) :
    ∃ s, sweep (sd.crosses limit) total (book sd) = s ∧ s.fills.length = count ∧
      Facing sd [] [] (settle book order s) := by
  obtain ⟨fills, hsweep, hlength⟩ := sweep_total h.positive h.reached
  rw [h.total_eq] at hsweep
  refine ⟨_, hsweep, hlength.trans h.length_eq, ?_⟩
  exact (h.facing.swap.settle hside ⟨fills, 0, []⟩).of_swap

end Stacked

end Sixchange
