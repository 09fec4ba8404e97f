import Sixchange.Book.Filling
import Sixchange.Theory.Transducer

namespace Sixchange

open LinkedQueue Transducer

inductive LevelCall
  | pushBack (order : Slot)
  | remove (order : Slot)
  | fill (executedQuantity : ℕ)
  deriving DecidableEq, Repr

namespace PriceLevel

def fill (level : PriceLevel) (orders : Slot → Order) (resting : Slot) (executedQuantity : ℕ) :
    PriceLevel × (Slot → Order) :=
  ({ level with totalQuantity := wrapSub level.totalQuantity executedQuantity },
    modify orders resting fun o => { o with remainingQuantity := o.remainingQuantity - executedQuantity })

theorem fill_applyFill (book : OrderBook) (side : Side) (index : ℕ) {aggressor resting : Slot}
    (h : aggressor ≠ resting) (executedQuantity : ℕ) :
    let filled := (book.level side index).fill book.orders.orders resting executedQuantity
    (book.applyFill side index aggressor resting executedQuantity).level side index = filled.1 ∧
      ∀ s, s ≠ aggressor → (book.applyFill side index aggressor resting executedQuantity).order s = filled.2 s := by
  constructor
  · simp only [OrderBook.applyFill, OrderBook.setOrders, OrderBook.setLevel, OrderBook.level,
      Function.update_self, fill]
  · intro s hs
    rw [BookCore.applyFill_data book side executedQuantity h]
    by_cases hr : s = resting
    · subst hr
      simp only [or_true, if_true, fill, modify_self, OrderBook.order]
    · simp only [hs, hr, or_self, if_false, fill, modify_of_ne _ hr, OrderBook.order]

end PriceLevel

structure LevelUse where
  level : PriceLevel
  orders : Slot → Order
  members : List Slot
  removed : List Slot

namespace LevelUse

def start (price : ℕ) (orders : Slot → Order) : LevelUse :=
  { level := { price }, orders, members := [], removed := [] }

variable (use : LevelUse)

/-- A call that the book does not make of a level fails: an order twice in the level or removed without being in
it, a fill of more than is left of the front. -/
def step : LevelCall → Except LevelCall (LevelUse × Unit)
  | .pushBack order =>
    if order ∈ use.members then .error (.pushBack order)
    else
      let (level, orders) := use.level.pushBack use.orders order
      .ok ({ level, orders, members := use.members ++ [order], removed := use.removed.filter (· ≠ order) }, ())
  | .remove order =>
    if order ∈ use.members then
      let (level, orders) := use.level.remove use.orders order
      .ok ({ level, orders, members := use.members.erase order, removed := order :: use.removed }, ())
    else .error (.remove order)
  | .fill executedQuantity =>
    match use.level.front with
    | none => .error (.fill executedQuantity)
    | some resting =>
      if executedQuantity ≤ (use.orders resting).remainingQuantity then
        let (level, orders) := use.level.fill use.orders resting executedQuantity
        .ok ({ use with level, orders }, ())
      else .error (.fill executedQuantity)

structure IsList : Prop where
  forward : ∀ n, use.members.length ≤ n → walk (nextOf use.orders) n use.level.head = use.members
  backward : ∀ n, use.members.length ≤ n → walk (prevOf use.orders) n use.level.tail = use.members.reverse
  empty_iff : use.level.empty = true ↔ use.members = []
  front_eq : use.level.front = use.members.head?
  total : use.level.totalQuantity = (use.members.map (remainingOf use.orders)).sum % word
  removed : ∀ s ∈ use.removed, (use.orders s).prev = none ∧ (use.orders s).next = none

structure Kept : Prop where
  queue : Queue (nextOf use.orders) (prevOf use.orders) use.level.head use.level.tail use.members
  total : use.level.totalQuantity = (use.members.map (remainingOf use.orders)).sum % word
  removed : ∀ s ∈ use.removed, s ∉ use.members ∧ (use.orders s).prev = none ∧ (use.orders s).next = none

variable {use}
variable {call : LevelCall} {use' : LevelUse} {answer : Unit}

theorem Kept.start (price : ℕ) (orders : Slot → Order) : (start price orders).Kept :=
  ⟨.empty _ _, rfl, fun _ hs => absurd hs List.not_mem_nil⟩

theorem Kept.pushBack (h : use.Kept) {order : Slot} (hnew : order ∉ use.members) :
    let pushed := use.level.pushBack use.orders order
    Kept { level := pushed.1, orders := pushed.2, members := use.members ++ [order],
           removed := use.removed.filter (· ≠ order) } ∧
      ∀ s, s ∉ use.members ++ [order] → pushed.2 s = use.orders s := by
  intro pushed
  obtain ⟨hqueue, hrelinked, -, htotal⟩ := PriceLevel.pushBack_spec h.queue hnew
  have hsum : (use.members ++ [order]).map (remainingOf pushed.2) =
      (use.members ++ [order]).map (remainingOf use.orders) :=
    List.map_congr_left fun _ _ => data_remaining (hrelinked.data _)
  refine ⟨⟨hqueue, ?_, ?_⟩, hrelinked.frame⟩
  · refine htotal.trans ?_
    rw [hsum, List.map_append, List.sum_append, h.total, wrapAdd_mod]
    simp [remainingOf]
  · intro s hs
    obtain ⟨hremoved, hne⟩ := List.mem_filter.mp hs
    obtain ⟨hout, hlinks⟩ := h.removed s hremoved
    have hout' : s ∉ use.members ++ [order] := by
      simpa using ⟨hout, of_decide_eq_true hne⟩
    dsimp only
    rw [hrelinked.frame s hout']
    exact ⟨hout', hlinks⟩

theorem remove_links (level : PriceLevel) (orders : Slot → Order) (order : Slot) :
    ((level.remove orders order).2 order).prev = none ∧ ((level.remove orders order).2 order).next = none := by
  simp only [PriceLevel.remove, modify_self, and_self]

theorem Kept.remove (h : use.Kept) {order : Slot} (hmem : order ∈ use.members) :
    let removed := use.level.remove use.orders order
    Kept { level := removed.1, orders := removed.2, members := use.members.erase order,
           removed := order :: use.removed } ∧
      ∀ s, s ∉ use.members → removed.2 s = use.orders s := by
  intro removed
  obtain ⟨as, bs, has⟩ := List.append_of_mem hmem
  have hnodup := h.queue.nodup
  have hqueue := h.queue
  have htotal := h.total
  rw [has] at hnodup hqueue htotal
  have hout : order ∉ as ++ bs := (List.nodup_middle.mp hnodup).notMem
  have herase : use.members.erase order = as ++ bs := by
    rw [has, List.erase_append_right _ (fun ha => hout (List.mem_append_left _ ha)), List.erase_cons_head]
  obtain ⟨hqueue', hrelinked, -, htotal'⟩ := PriceLevel.remove_spec hqueue
  have hframe : ∀ s, s ∉ use.members → removed.2 s = use.orders s := by
    rw [has]
    exact hrelinked.frame
  have hsum : (as ++ bs).map (remainingOf removed.2) = (as ++ bs).map (remainingOf use.orders) :=
    List.map_congr_left fun s _ => data_remaining (hrelinked.data s)
  refine ⟨⟨?_, ?_, ?_⟩, hframe⟩
  · rw [herase]
    exact hqueue'
  · refine htotal'.trans ?_
    rw [List.map_append, List.sum_append, List.map_cons, List.sum_cons] at htotal
    rw [herase, hsum, List.map_append, List.sum_append, htotal, wrapSub_mod]
    · congr 1
      simp only [remainingOf]
      omega
    · simp only [remainingOf]
      omega
  · refine List.forall_mem_cons.mpr ⟨⟨?_, remove_links use.level use.orders order⟩, fun s hs => ?_⟩
    · rwa [herase]
    · obtain ⟨hs', hlinks⟩ := h.removed s hs
      dsimp only
      rw [hframe s hs']
      exact ⟨fun hm => hs' (List.mem_of_mem_erase hm), hlinks⟩

theorem Kept.fill (h : use.Kept) {resting : Slot} {e : ℕ} (hfront : use.level.front = some resting)
    (he : e ≤ (use.orders resting).remainingQuantity) :
    let filled := use.level.fill use.orders resting e
    Kept { use with level := filled.1, orders := filled.2 } ∧
      ∀ s, s ∉ use.members → filled.2 s = use.orders s := by
  intro filled
  have hmem : resting ∈ use.members := List.mem_of_head? (h.queue.head_eq.symm.trans hfront)
  have hframe : ∀ s, s ∉ use.members → filled.2 s = use.orders s :=
    fun s hs => modify_of_ne (fun o => { o with remainingQuantity := o.remainingQuantity - e })
      (ne_of_mem_of_not_mem hmem hs).symm
  have hlinks : ∀ s, (filled.2 s).next = (use.orders s).next ∧ (filled.2 s).prev = (use.orders s).prev := by
    intro s
    by_cases hs : s = resting
    · subst hs
      simp only [filled, PriceLevel.fill, modify_self, and_self]
    · simp only [filled, PriceLevel.fill, modify_of_ne _ hs, and_self]
  have hsum := SideInv.sum_modify h.queue.nodup hmem he
  refine ⟨⟨h.queue.frame (fun s _ => (hlinks s).1) (fun s _ => (hlinks s).2), ?_, ?_⟩, hframe⟩
  · change wrapSub use.level.totalQuantity e = _
    rw [h.total, wrapSub_mod (by omega)]
    exact congrArg (· % word) (Nat.eq_sub_of_add_eq hsum).symm
  · intro s hs
    obtain ⟨hout, hnull⟩ := h.removed s hs
    dsimp only
    rw [hframe s hout]
    exact ⟨hout, hnull⟩

theorem Kept.step (h : use.Kept) (hstep : use.step call = .ok (use', answer)) :
    use'.Kept ∧ ∀ s, s ∉ use.members → s ∉ use'.members → use'.orders s = use.orders s := by
  cases call with
  | pushBack order =>
    rw [LevelUse.step] at hstep
    split at hstep
    · cases hstep
    · rename_i hnew
      obtain ⟨rfl, -⟩ := Prod.mk.inj (Except.ok.inj hstep)
      obtain ⟨hkept, hframe⟩ := h.pushBack hnew
      exact ⟨hkept, fun s _ hs => hframe s hs⟩
  | remove order =>
    rw [LevelUse.step] at hstep
    split at hstep
    · rename_i hmem
      obtain ⟨rfl, -⟩ := Prod.mk.inj (Except.ok.inj hstep)
      obtain ⟨hkept, hframe⟩ := h.remove hmem
      exact ⟨hkept, fun s hs _ => hframe s hs⟩
    · cases hstep
  | fill e =>
    rw [LevelUse.step] at hstep
    split at hstep
    · cases hstep
    · rename_i resting hfront
      split at hstep
      · rename_i he
        obtain ⟨rfl, -⟩ := Prod.mk.inj (Except.ok.inj hstep)
        obtain ⟨hkept, hframe⟩ := h.fill hfront he
        exact ⟨hkept, fun s hs _ => hframe s hs⟩
      · cases hstep

theorem Kept.isList (h : use.Kept) : use.IsList where
  forward := fun _ hn => h.queue.walk hn
  backward := fun _ hn => h.queue.reverse.walk (by rwa [List.length_reverse])
  empty_iff := PriceLevel.empty_iff h.queue
  front_eq := h.queue.head_eq
  total := h.total
  removed := fun s hs => (h.removed s hs).2

theorem level_isList (price : ℕ) (orders : Slot → Order) (calls : List LevelCall) {answers : List Unit}
    (h : run step (start price orders) calls = .ok (use, answers)) :
    use.IsList ∧ ∀ call use' answer, use.step call = .ok (use', answer) →
      ∀ s, s ∉ use.members → s ∉ use'.members → use'.orders s = use.orders s := by
  have hkept : use.Kept := run_invariant (fun _ _ _ _ hkept hstep => (hkept.step hstep).1) (.start price orders) h
  exact ⟨hkept.isList, fun _ _ _ hstep => (hkept.step hstep).2⟩

theorem level_isList_middle : ∃ use answers,
    run step (start 7 fun s => { remainingQuantity := s + 5, prev := some s, next := some 0 })
      [.pushBack 3, .pushBack 1, .pushBack 2, .fill 6, .remove 1, .remove 3, .pushBack 1] = .ok (use, answers) ∧
    use.members = [2, 1] ∧ use.removed = [3] ∧ use.IsList := by
  obtain ⟨use, answers, hrun, hmembers, hremoved⟩ : ∃ use answers,
      run step (start 7 fun s => { remainingQuantity := s + 5, prev := some s, next := some 0 })
        [.pushBack 3, .pushBack 1, .pushBack 2, .fill 6, .remove 1, .remove 3, .pushBack 1] = .ok (use, answers) ∧
      use.members = [2, 1] ∧ use.removed = [3] := ⟨_, _, rfl, rfl, rfl⟩
  exact ⟨use, answers, hrun, hmembers, hremoved, (level_isList _ _ _ hrun).1⟩

end LevelUse

end Sixchange
