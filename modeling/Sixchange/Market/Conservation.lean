import Sixchange.Market.Ledger

namespace Sixchange

open Account

namespace EngineEvent

variable (id : ℕ)

def filled : EngineEvent → ℕ
  | .tradeExecuted event => (if event.aggressingOrderId = id then event.quantity else 0) +
      if event.restingOrderId = id then event.quantity else 0
  | _ => 0

def cancelled : EngineEvent → ℕ
  | .orderCancelled event => if event.orderId = id then event.cancelledQuantity else 0
  | _ => 0

def accepts : EngineEvent → Bool
  | .orderAccepted event => event.orderId = id
  | _ => false

def cancels : EngineEvent → Bool
  | .orderCancelled event => event.orderId = id
  | _ => false

def names : EngineEvent → Bool
  | .tradeExecuted event => event.aggressingOrderId = id ∨ event.restingOrderId = id
  | .orderRested event => event.orderId = id
  | .orderCancelled event => event.orderId = id
  | _ => false

end EngineEvent

def filledQuantity (id : ℕ) (log : List EngineEvent) : ℕ := (log.map (EngineEvent.filled id)).sum

def cancelledQuantity (id : ℕ) (log : List EngineEvent) : ℕ := (log.map (EngineEvent.cancelled id)).sum

def LeavesOf (log : List EngineEvent) (id remaining : ℕ) : Prop :=
  ∃ event, .orderAccepted event ∈ log ∧ event.orderId = id ∧ event.quantity = filledQuantity id log + remaining

structure Conserved (log : List EngineEvent) (remaining : ℕ → ℕ) : Prop where
  accepted_once : ∀ id, log.countP (EngineEvent.accepts id) ≤ 1
  cancelled_once : ∀ id, log.countP (EngineEvent.cancels id) ≤ 1
  balance : ∀ event, .orderAccepted event ∈ log → event.quantity =
    filledQuantity event.orderId log + cancelledQuantity event.orderId log + remaining event.orderId
  traded_pos : ∀ event, .tradeExecuted event ∈ log → 0 < event.quantity
  leaves : ∀ earlier event later, log = earlier ++ .tradeExecuted event :: later →
    LeavesOf (earlier ++ [.tradeExecuted event]) event.aggressingOrderId event.aggressingRemainingQuantity ∧
      LeavesOf (earlier ++ [.tradeExecuted event]) event.restingOrderId event.restingRemainingQuantity
  settled : ∀ earlier later event, log = earlier ++ later → .orderAccepted event ∈ earlier →
    (filledQuantity event.orderId earlier = event.quantity ∨
      ∃ cancelled, .orderCancelled cancelled ∈ earlier ∧ cancelled.orderId = event.orderId) →
    ∀ event' ∈ later, event'.names event.orderId = false

section Postings

variable {id : ℕ}

theorem sum_postings {f : Posting → ℕ} {g : EngineEvent → ℕ}
    (h : ∀ event : EngineEvent, ((event.postings id).map f).sum = g event) (log : List EngineEvent) :
    ((postings id log).map f).sum = (log.map g).sum := by
  induction log with
  | nil => rfl
  | cons event log ih => rw [postings_cons, List.map_append, List.sum_append, h, ih, List.map_cons, List.sum_cons]

theorem countP_postings {p : Posting → Bool} {q : EngineEvent → Bool}
    (h : ∀ event : EngineEvent, (event.postings id).countP p = if q event then 1 else 0) (log : List EngineEvent) :
    (postings id log).countP p = log.countP q := by
  induction log with
  | nil => rfl
  | cons event log ih => rw [postings_cons, List.countP_append, h, ih, List.countP_cons, Nat.add_comm]

theorem mem_posted {c : Prop} [Decidable c] {p q : Posting} (h : p ∈ (if c then [q] else [])) : c ∧ p = q := by
  split_ifs at h with hc
  · exact ⟨hc, List.mem_singleton.mp h⟩
  · cases h

theorem sum_posted {c : Prop} [Decidable c] (f : Posting → ℕ) (p : Posting) :
    ((if c then [p] else []).map f).sum = if c then f p else 0 := by split_ifs <;> rfl

theorem countP_posted {c : Prop} [Decidable c] (q : Posting → Bool) (p : Posting) :
    (if c then [p] else []).countP q = if c then if q p then 1 else 0 else 0 := by
  split_ifs with hc hq
  · exact List.countP_singleton.trans (if_pos hq)
  · exact List.countP_singleton.trans (if_neg hq)
  · rfl

theorem drawn_postings (id : ℕ) (log : List EngineEvent) :
    ((postings id log).map Posting.drawn).sum = filledQuantity id log := by
  apply sum_postings
  intro event
  cases event with
  | tradeExecuted event =>
    rw [EngineEvent.postings, List.map_append, List.sum_append, sum_posted, sum_posted]
    rfl
  | orderAccepted | orderRested | orderCancelled => exact (sum_posted _ _).trans (ite_self 0)
  | commandRejected | orderExpired | orderReplaced => rfl

theorem closed_postings (id : ℕ) (log : List EngineEvent) :
    ((postings id log).map Posting.closed).sum = cancelledQuantity id log := by
  apply sum_postings
  intro event
  cases event with
  | orderCancelled event => exact sum_posted _ _
  | tradeExecuted event =>
    rw [EngineEvent.postings, List.map_append, List.sum_append, sum_posted, sum_posted]
    exact congrArg₂ (· + ·) (ite_self 0) (ite_self 0)
  | orderAccepted | orderRested => exact (sum_posted _ _).trans (ite_self 0)
  | commandRejected | orderExpired | orderReplaced => rfl

theorem opens_postings (log : List EngineEvent) :
    (postings id log).countP Posting.opens = log.countP (EngineEvent.accepts id) := by
  apply countP_postings
  intro event
  cases event with
  | orderAccepted event =>
    rw [EngineEvent.postings, countP_posted, EngineEvent.accepts]
    simp only [decide_eq_true_eq]
    rfl
  | tradeExecuted event =>
    rw [EngineEvent.postings, List.countP_append, countP_posted, countP_posted]
    exact congrArg₂ (· + ·) (ite_self 0) (ite_self 0)
  | orderRested | orderCancelled => exact (countP_posted _ _).trans (ite_self 0)
  | commandRejected | orderExpired | orderReplaced => rfl

theorem closes_postings (log : List EngineEvent) :
    (postings id log).countP Posting.closes = log.countP (EngineEvent.cancels id) := by
  apply countP_postings
  intro event
  cases event with
  | orderCancelled event =>
    rw [EngineEvent.postings, countP_posted, EngineEvent.cancels]
    simp only [decide_eq_true_eq]
    rfl
  | tradeExecuted event =>
    rw [EngineEvent.postings, List.countP_append, countP_posted, countP_posted]
    exact congrArg₂ (· + ·) (ite_self 0) (ite_self 0)
  | orderAccepted | orderRested => exact (countP_posted _ _).trans (ite_self 0)
  | commandRejected | orderExpired | orderReplaced => rfl

theorem mem_postings {event : EngineEvent} {log : List EngineEvent} {p : Posting} (hevent : event ∈ log)
    (hp : p ∈ event.postings id) : p ∈ postings id log :=
  List.mem_flatMap.mpr ⟨event, hevent, hp⟩

theorem opening_mem_postings {event : OrderAcceptedEvent} {log : List EngineEvent}
    (h : .orderAccepted event ∈ log) : .opening event.quantity ∈ postings event.orderId log := by
  apply mem_postings h
  simp [EngineEvent.postings]

theorem exists_accepted {log : List EngineEvent} {amount : ℕ} (h : .opening amount ∈ postings id log) :
    ∃ event, .orderAccepted event ∈ log ∧ event.orderId = id ∧ event.quantity = amount := by
  obtain ⟨event, hevent, hp⟩ := List.mem_flatMap.mp h
  cases event with
  | orderAccepted event =>
    obtain ⟨hid, he⟩ := mem_posted hp
    exact ⟨event, hevent, hid, (Posting.opening.inj he).symm⟩
  | tradeExecuted event =>
    rcases List.mem_append.mp hp with hp | hp
    · cases (mem_posted hp).2
    · cases (mem_posted hp).2
  | orderRested | orderCancelled => cases (mem_posted hp).2
  | commandRejected | orderExpired | orderReplaced => cases hp

theorem postings_ne_nil {event : EngineEvent} (h : event.names id = true) : event.postings id ≠ [] := by
  cases event with
  | tradeExecuted event =>
    rw [EngineEvent.postings]
    rcases of_decide_eq_true h with hid | hid
    · rw [if_pos hid]
      exact List.cons_ne_nil _ _
    · rw [if_pos hid]
      exact List.append_ne_nil_of_right_ne_nil _ (List.cons_ne_nil _ _)
  | orderRested event | orderCancelled event =>
    rw [EngineEvent.postings, if_pos (of_decide_eq_true h)]
    exact List.cons_ne_nil _ _
  | orderAccepted | commandRejected | orderExpired | orderReplaced => cases h

end Postings

/-- The log posts to every account from before its opening to its present state. -/
structure Audited (log : List EngineEvent) (account : ℕ → Option ℕ) : Prop where
  posted : ∀ id, Posted none (postings id log) (account id)
  distinct : ∀ event, .tradeExecuted event ∈ log → event.aggressingOrderId ≠ event.restingOrderId

namespace Audited

variable {log : List EngineEvent} {account : ℕ → Option ℕ}

theorem leavesOf (h : Audited log account) {id : ℕ} {earlier later : List EngineEvent}
    {event : TradeExecutedEvent} {remaining : ℕ} (hlog : log = earlier ++ .tradeExecuted event :: later)
    (hposting : (EngineEvent.tradeExecuted event).postings id = [.draw event.quantity remaining])
    (hfilled : (EngineEvent.tradeExecuted event).filled id = event.quantity) :
    LeavesOf (earlier ++ [.tradeExecuted event]) id remaining := by
  have hposted := h.posted id
  rw [hlog, postings_append, postings_cons, hposting] at hposted
  obtain ⟨amount, hopening, hamount⟩ := hposted.drawn_left
  obtain ⟨accepted, haccepted, hid, hquantity⟩ := exists_accepted hopening
  refine ⟨accepted, List.mem_append_left _ haccepted, hid, ?_⟩
  unfold filledQuantity
  rw [drawn_postings, filledQuantity] at hamount
  rw [List.map_append, List.sum_append, List.map_singleton, List.sum_singleton, hfilled, hquantity, hamount]

theorem settled (h : Audited log account) {earlier later : List EngineEvent} {event : OrderAcceptedEvent}
    (hlog : log = earlier ++ later) (hevent : .orderAccepted event ∈ earlier)
    (hdone : filledQuantity event.orderId earlier = event.quantity ∨
      ∃ cancelled, .orderCancelled cancelled ∈ earlier ∧ cancelled.orderId = event.orderId) :
    ∀ event' ∈ later, event'.names event.orderId = false := by
  have hposted := h.posted event.orderId
  rw [hlog, postings_append] at hposted
  obtain ⟨s, hearlier, hlater⟩ := hposted.split
  obtain ⟨ps, hps, hopened⟩ := hearlier.eq_opening (opening_mem_postings hevent)
  have hzero : s = some 0 := by
    rcases hdone with hfilled | ⟨cancelled, hcancelled, hid⟩
    · obtain ⟨remaining, rfl, hsum⟩ := hopened.balance
      have hdrawn := drawn_postings event.orderId earlier
      rw [hps, List.map_cons, List.sum_cons] at hdrawn
      change 0 + _ = _ at hdrawn
      congr 1
      omega
    · have hclose : .close cancelled.cancelledQuantity ∈ postings event.orderId earlier := by
        apply mem_postings hcancelled
        simp [EngineEvent.postings, hid]
      rw [hps] at hclose
      exact hopened.closed_settled ⟨_, List.mem_of_ne_of_mem Posting.noConfusion hclose, rfl⟩
  subst hzero
  intro event' hevent'
  rw [Bool.eq_false_iff]
  intro hnames
  exact postings_ne_nil hnames (List.flatMap_eq_nil_iff.mp hlater.settled.1 event' hevent')

theorem conserved (h : Audited log account) {remaining : ℕ → ℕ}
    (hremaining : ∀ id r, account id = some r → remaining id = r) : Conserved log remaining := by
  constructor
  · intro id
    rw [← opens_postings]
    exact (h.posted id).opens_le_one
  · intro id
    rw [← closes_postings]
    exact (h.posted id).closes_le_one_of_none
  · intro event hevent
    obtain ⟨ps, hps, hopened⟩ := (h.posted event.orderId).eq_opening (opening_mem_postings hevent)
    obtain ⟨r, hr, hsum⟩ := hopened.balance
    have hdrawn := drawn_postings event.orderId log
    have hclosed := closed_postings event.orderId log
    rw [hps, List.map_cons, List.sum_cons] at hdrawn hclosed
    change 0 + _ = _ at hdrawn hclosed
    rw [hremaining _ r hr]
    omega
  · intro event hevent
    have hdraw : .draw event.quantity event.aggressingRemainingQuantity ∈ postings event.aggressingOrderId log := by
      apply mem_postings hevent
      simp [EngineEvent.postings]
    exact (h.posted event.aggressingOrderId).draw_pos hdraw
  · intro earlier event later hlog
    have hne : event.aggressingOrderId ≠ event.restingOrderId := by
      apply h.distinct
      rw [hlog]
      exact List.mem_append_right _ List.mem_cons_self
    constructor
    · apply h.leavesOf hlog <;> simp [EngineEvent.postings, EngineEvent.filled, hne.symm]
    · apply h.leavesOf hlog <;> simp [EngineEvent.postings, EngineEvent.filled, hne]
  · intro earlier later event hlog hevent hdone
    exact h.settled hlog hevent hdone

end Audited

end Sixchange
