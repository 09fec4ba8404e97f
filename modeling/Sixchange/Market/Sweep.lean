import Sixchange.Market.Priority

namespace Sixchange

structure Fill where
  resting : RestingOrder
  quantity : ℕ
  aggressingRemaining : ℕ
  restingRemaining : ℕ
  deriving DecidableEq, Repr

structure Swept where
  fills : List Fill
  unfilled : ℕ
  resting : List RestingOrder
  deriving DecidableEq, Repr

def sweep (crosses : ℕ → Bool) : ℕ → List RestingOrder → Swept
  | quantity, [] => ⟨[], quantity, []⟩
  | quantity, r :: rs =>
    if 0 < quantity ∧ crosses r.price = true then
      if quantity < r.remainingQuantity then
        let left := r.remainingQuantity - quantity
        ⟨[⟨r, quantity, 0, left⟩], 0, { r with remainingQuantity := left } :: rs⟩
      else
        let s := sweep crosses (quantity - r.remainingQuantity) rs
        ⟨⟨r, r.remainingQuantity, quantity - r.remainingQuantity, 0⟩ :: s.fills, s.unfilled, s.resting⟩
    else ⟨[], quantity, r :: rs⟩

def leftOver (quantity : ℕ) (r : RestingOrder) : List RestingOrder :=
  if quantity < r.remainingQuantity then [{ r with remainingQuantity := r.remainingQuantity - quantity }]
  else []

theorem sweep_zero (crosses : ℕ → Bool) (l : List RestingOrder) : sweep crosses 0 l = ⟨[], 0, l⟩ := by
  cases l <;> simp [sweep]

theorem sweep_cons {crosses : ℕ → Bool} {quantity : ℕ} {r : RestingOrder} (hpos : 0 < quantity)
    (hcrosses : crosses r.price = true) (rs : List RestingOrder) :
    sweep crosses quantity (r :: rs) =
      let e := min quantity r.remainingQuantity
      let s := sweep crosses (quantity - e) (leftOver quantity r ++ rs)
      ⟨⟨r, e, quantity - e, r.remainingQuantity - e⟩ :: s.fills, s.unfilled, s.resting⟩ := by
  rw [sweep, if_pos ⟨hpos, hcrosses⟩, leftOver]
  split_ifs with hlt
  · simp only [Nat.min_eq_left (Nat.le_of_lt hlt), Nat.sub_self, sweep_zero, List.singleton_append]
  · simp only [Nat.min_eq_right (Nat.le_of_not_lt hlt), Nat.sub_self, List.nil_append]

theorem sweep_stop {crosses : ℕ → Bool} {quantity : ℕ} {l : List RestingOrder}
    (h : 0 < quantity → ∀ r, l.head? = some r → crosses r.price = false) :
    sweep crosses quantity l = ⟨[], quantity, l⟩ := by
  cases l with
  | nil => rfl
  | cons r rs =>
    rw [sweep, if_neg]
    rintro ⟨hpos, hc⟩
    rw [h hpos r rfl] at hc
    exact Bool.false_ne_true hc

theorem mem_fills {crosses : ℕ → Bool} {quantity : ℕ} {l : List RestingOrder} {fill : Fill}
    (h : fill ∈ (sweep crosses quantity l).fills) : fill.resting ∈ l := by
  induction l generalizing quantity with
  | nil => cases h
  | cons r rs ih =>
    rw [sweep] at h
    split_ifs at h
    · rw [List.mem_singleton.mp h]
      exact List.mem_cons_self
    · rcases List.mem_cons.mp h with rfl | h
      · exact List.mem_cons_self
      · exact List.mem_cons_of_mem r (ih h)
    · cases h

def Fill.map (f : RestingOrder → RestingOrder) (fill : Fill) : Fill := { fill with resting := f fill.resting }

def Swept.map (f : RestingOrder → RestingOrder) (s : Swept) : Swept :=
  ⟨s.fills.map (Fill.map f), s.unfilled, s.resting.map f⟩

theorem sweep_map {f : RestingOrder → RestingOrder}
    (hf : ∀ r q, f { r with remainingQuantity := q } = { f r with remainingQuantity := q })
    {crosses crosses' : ℕ → Bool} {l : List RestingOrder} (hc : ∀ r ∈ l, crosses' (f r).price = crosses r.price)
    (quantity : ℕ) : sweep crosses' quantity (l.map f) = (sweep crosses quantity l).map f := by
  have hquantity : ∀ r, (f r).remainingQuantity = r.remainingQuantity := by
    intro r
    have hr := congrArg RestingOrder.remainingQuantity (hf r r.remainingQuantity)
    exact hr
  induction l generalizing quantity with
  | nil => rfl
  | cons r rs ih =>
    rw [List.forall_mem_cons] at hc
    simp only [List.map_cons, sweep, hquantity, hc.1]
    split_ifs
    · rw [← hf]
      rfl
    · rw [ih hc.2]
      rfl
    · rfl

def amend (orderId remainingQuantity : ℕ) (l : List RestingOrder) : List RestingOrder :=
  if remainingQuantity = 0 then l.filter (·.orderId ≠ orderId)
  else l.map fun r => if r.orderId = orderId then { r with remainingQuantity } else r

section Amend

variable {orderId remainingQuantity : ℕ} {l : List RestingOrder}

theorem amend_of_not_mem (h : ∀ r ∈ l, r.orderId ≠ orderId) : amend orderId remainingQuantity l = l := by
  rw [amend]
  split_ifs
  · apply List.filter_eq_self.mpr
    intro r hr
    exact decide_eq_true (h r hr)
  · exact (List.map_congr_left (fun r hr => if_neg (h r hr))).trans (List.map_id _)

theorem amend_cons_self (r : RestingOrder) {rs : List RestingOrder} (h : ∀ o ∈ rs, o.orderId ≠ r.orderId) :
    amend r.orderId remainingQuantity (r :: rs) =
      if remainingQuantity = 0 then rs else { r with remainingQuantity } :: rs := by
  have htail : amend r.orderId remainingQuantity rs = rs := amend_of_not_mem h
  rw [amend] at htail ⊢
  split_ifs at htail ⊢
  · rw [List.filter_cons_of_neg (by simp), htail]
  · rw [List.map_cons, htail, if_pos rfl]

theorem amend_nodup (h : (l.map RestingOrder.orderId).Nodup) :
    ((amend orderId remainingQuantity l).map RestingOrder.orderId).Nodup := by
  rw [amend]
  split_ifs
  · exact h.sublist (List.filter_sublist.map _)
  · rw [List.map_map]
    have hids : ∀ r ∈ l, (RestingOrder.orderId ∘ fun r : RestingOrder =>
        if r.orderId = orderId then { r with remainingQuantity } else r) r = r.orderId := by
      intro r _
      simp only [Function.comp_apply]
      split_ifs <;> rfl
    rwa [List.map_congr_left hids]

theorem filter_amend {p : RestingOrder → Bool} (hp : ∀ r q, p { r with remainingQuantity := q } = p r) :
    (amend orderId remainingQuantity l).filter p = amend orderId remainingQuantity (l.filter p) := by
  simp only [amend]
  split_ifs
  · exact List.filter_comm ..
  · rw [List.filter_map]
    congr 1
    apply List.filter_congr
    intro r _
    simp only [Function.comp_apply]
    split_ifs
    · exact hp r _
    · rfl

end Amend

end Sixchange
