import Sixchange.Book.Cancellation
import Sixchange.Book.Walks
import Sixchange.Market.Steps

namespace Sixchange

open OrderBook
open scoped List

namespace OrderBook

def updateBestAfterRemoval : Side → OrderBook → ℕ → OrderBook
  | .buy => updateBestBidAfterRemoval
  | .sell => updateBestAskAfterRemoval

theorem updateBestAfterRemoval_restores (sd : Side) : RestoresBest sd (updateBestAfterRemoval sd) := by
  cases sd
  · exact updateBestBidAfterRemoval_restores
  · exact updateBestAskAfterRemoval_restores

theorem matchOrder_eq (book : OrderBook) (a : Slot) {sd : Side} (hsd : (book.order a).side.opposite = sd) :
    book.matchOrder a =
      matchLoop sd sd.crosses (updateBestAfterRemoval sd) a (book.order a).remainingQuantity book := by
  subst hsd
  rw [matchOrder]
  cases (book.order a).side <;> rfl

inductive Iterates (side : Side) (aggressor : Slot) : OrderBook → List MatchExecution → OrderBook → Prop
  | start {book : OrderBook} : Iterates side aggressor book [] book
  | next {book book₁ book₂ : OrderBook} {index : ℕ} {execution : MatchExecution}
      {executions : List MatchExecution}
      (hcrossing : book.crossing side side.crosses aggressor = some index)
      (hfront : book.matchFront side (updateBestAfterRemoval side) aggressor index = .ok (book₁, execution))
      (h : Iterates side aggressor book₁ executions book₂) :
      Iterates side aggressor book (execution :: executions) book₂

theorem Iterates.of_matchLoop {sd : Side} {a : Slot} {fuel : ℕ} {book book' : OrderBook}
    {executions : List MatchExecution}
    (h : matchLoop sd sd.crosses (updateBestAfterRemoval sd) a fuel book = .ok (book', executions)) :
    Iterates sd a book executions book' ∧ book'.crossing sd sd.crosses a = none := by
  induction fuel generalizing book executions with
  | zero =>
    rw [matchLoop.eq_def] at h
    cases hc : book.crossing sd sd.crosses a <;> simp only [hc] at h
    · obtain ⟨rfl, rfl⟩ := Prod.mk.inj (Except.ok.inj h)
      exact ⟨.start, hc⟩
    · cases h
  | succ fuel ih =>
    rw [matchLoop.eq_def] at h
    cases hc : book.crossing sd sd.crosses a <;> simp only [hc] at h
    · obtain ⟨rfl, rfl⟩ := Prod.mk.inj (Except.ok.inj h)
      exact ⟨.start, hc⟩
    · obtain ⟨⟨book₁, execution⟩, hfront, h⟩ := bind_ok h
      obtain ⟨⟨book₂, rest⟩, hrest, h⟩ := bind_ok h
      obtain ⟨rfl, rfl⟩ := Prod.mk.inj (Except.ok.inj h)
      obtain ⟨hiterates, hstop⟩ := ih hrest
      exact ⟨.next hc hfront hiterates, hstop⟩

theorem Iterates.isPrefix {sd : Side} {a : Slot} {book mid book' : OrderBook}
    {earlier executions : List MatchExecution} (h : Iterates sd a book executions book')
    (hstop : book'.crossing sd sd.crosses a = none) (hmid : Iterates sd a book earlier mid) :
    earlier <+: executions := by
  induction hmid generalizing executions with
  | start => exact List.nil_prefix
  | next hcrossing hfront _ ih =>
    cases h with
    | start =>
      rw [hstop] at hcrossing
      cases hcrossing
    | next hcrossing' hfront' hrest =>
      obtain rfl := Option.some.inj (hcrossing.symm.trans hcrossing')
      obtain ⟨rfl, rfl⟩ := Prod.mk.inj (Except.ok.inj (hfront.symm.trans hfront'))
      exact (List.prefix_cons_inj _).mpr (ih hrest)

structure Iteration (book : OrderBook) (side : Side) (aggressor : Slot) (index : ℕ) : Prop where
  best : (book.sides side).best = some index
  nonempty : (book.level side index).empty = false
  front : ∃ front, (book.level side index).front = some front ∧ (book.order front).side = side ∧
    0 < (book.order front).remainingQuantity ∧
    (book.ordersById.erase book.bucket (book.order front).orderId).1 = true
  runs : ∃ next execution,
    book.matchFront side (updateBestAfterRemoval side) aggressor index = .ok (next, execution)

structure SweepExact (book : OrderBook) (side : Side) (aggressor : Slot) (book' : OrderBook)
    (executions : List MatchExecution) : Prop where
  reached : Iterates side aggressor book executions book'
  stopped : book'.crossing side side.crosses aggressor = none
  bounded : ∀ earlier mid, Iterates side aggressor book earlier mid → earlier <+: executions
  iteration : ∀ earlier mid index, Iterates side aggressor book earlier mid →
    mid.crossing side side.crosses aggressor = some index → Iteration mid side aggressor index
  executed : ∀ execution ∈ executions, 0 < execution.quantity ∧
    ∃ slot ∈ book.linkedSlots side, (book.order slot).orderId = execution.restingOrderId
  removed : ∀ earlier execution later, executions = earlier ++ execution :: later → later ≠ [] →
    execution.restingRemainingQuantity = 0 ∧
      book'.ordersById.find book'.bucket execution.restingOrderId = none ∧
      ∀ sd, ∀ slot ∈ book'.linkedSlots sd, (book'.order slot).orderId ≠ execution.restingOrderId
  count : executions.length ≤
    (book.linkedSlots side).countP fun slot => side.crosses (book.order aggressor).price (book.order slot).price

end OrderBook

namespace BookInv

variable {book mid : OrderBook} {queues : Side → List Slot} {pending : List Slot} {a : Slot} {sd : Side}
  {index : ℕ} {executions : List MatchExecution}

theorem crossing_front (h : BookInv book queues pending) (hc : book.crossing sd sd.crosses a = some index) :
    (book.sides sd).best = some index ∧ ∃ x xs, queues sd = x :: xs ∧ (book.order x).price = index := by
  rw [crossing] at hc
  split_ifs at hc
  have hbest := (Option.filter_eq_some_iff.mp hc).1
  refine ⟨hbest, ?_⟩
  rw [h.best sd, Option.map_eq_some_iff] at hbest
  obtain ⟨x, hx, hprice⟩ := hbest
  obtain ⟨xs, hq⟩ := List.head?_eq_some_iff.mp hx
  exact ⟨x, xs, hq, hprice⟩

theorem iterates (h : BookInv book queues pending) (ha : a ∈ pending) (hi : Iterates sd a book executions mid) :
    ∃ queues', BookInv mid queues' pending := by
  induction hi generalizing queues with
  | start => exact ⟨queues, h⟩
  | next hcrossing hfront _ ih =>
    obtain ⟨-, x, xs, hq, rfl⟩ := h.crossing_front hcrossing
    obtain ⟨book', q, hfront', hm⟩ := h.matchFront (updateBestAfterRemoval_restores sd) ha hq
    obtain ⟨rfl, -⟩ := Prod.mk.inj (Except.ok.inj (hfront.symm.trans hfront'))
    exact ih hm.inv

theorem iteration (h : BookInv book queues pending) (ha : a ∈ pending)
    (hc : book.crossing sd sd.crosses a = some index) : Iteration book sd a index := by
  obtain ⟨hbest, x, xs, hq, rfl⟩ := h.crossing_front hc
  have hx : x ∈ queues sd := by simp [hq]
  have hside := h.side sd
  obtain ⟨book', q, hfront, -⟩ := h.matchFront (updateBestAfterRemoval_restores sd) ha hq
  obtain ⟨ordersById, herase, -⟩ := h.lookup.erase_hit 
    ((heldSlots_update pending (show queues sd = [] ++ x :: xs from hq)).map _)
  refine ⟨hbest, ?_, ⟨x, ?_, hside.side_eq x hx, h.quantity sd x hx, ?_⟩, book', _, hfront⟩
  · rw [Bool.eq_false_iff, level, Ne, hside.level_empty]
    exact fun hall => hall x hx rfl
  · rw [hq] at hside
    exact hside.front_eq
  · rw [order, herase]

theorem queue_ids_nodup (h : BookInv book queues pending) (sd : Side) : (book.heldIds (queues sd)).Nodup := by
  refine h.heldIds_nodup.sublist (List.Sublist.map _ ?_)
  cases sd
  · exact (List.sublist_append_left _ _).trans (List.sublist_append_left _ _)
  · exact (List.sublist_append_right _ _).trans (List.sublist_append_left _ _)

theorem not_held_after {book' : OrderBook} {q : List Slot} {s : Swept} (h : BookInv book queues pending)
    (hm : Matched book book' queues pending sd a s q) {y : Slot} (hy : y ∈ queues sd)
    (hs : ∀ r ∈ s.resting, r.orderId ≠ (book.order y).orderId) :
    (book.order y).orderId ∉ book'.heldIds (heldSlots (Function.update queues sd q) pending) := by
  have hinj : ∀ x ∈ heldSlots queues pending, x ≠ y → (book.order x).orderId ≠ (book.order y).orderId := by
    intro x hx hxy he
    exact hxy (List.inj_on_of_nodup_map h.heldIds_nodup hx (mem_heldSlots.mpr (Or.inl ⟨sd, hy⟩)) he)
  have hkept : ∀ x ∈ heldSlots queues pending, x ∉ queues sd →
      (book'.order x).orderId = (book.order x).orderId := by
    intro x hx hxq
    by_cases hxa : x = a
    · have hid := congrArg Order.orderId hm.aggressor
      rwa [← hxa] at hid
    · have hid := congrArg Order.orderId (hm.frame x hxa hxq)
      exact hid
  intro hid
  obtain ⟨x, hx, hid⟩ := List.mem_map.mp hid
  by_cases hxq : x ∈ q
  · have hview : (book'.order x).view ∈ s.resting := hm.resting ▸ List.mem_map_of_mem hxq
    exact hs _ hview hid
  · have hheld : x ∈ heldSlots queues pending ∧ x ∉ queues sd := by
      rcases mem_heldSlots.mp hx with ⟨sd', hx'⟩ | hx'
      · by_cases hsd : sd' = sd
        · subst hsd
          rw [Function.update_self] at hx'
          exact absurd hx' hxq
        · rw [Function.update_of_ne hsd] at hx'
          exact ⟨mem_heldSlots.mpr (Or.inl ⟨sd', hx'⟩), h.disjoint_sides hsd hx'⟩
      · exact ⟨mem_heldSlots.mpr (Or.inr hx'), fun hq => h.not_pending hq hx'⟩
    rw [hkept x hheld.1 hheld.2] at hid
    exact hinj x hheld.1 (fun he => hheld.2 (he ▸ hy)) hid

theorem sweepExact (h : BookInv book queues (a :: pending)) : ∃ book' executions,
    book.matchOrder a = .ok (book', executions) ∧
      SweepExact book (book.order a).side.opposite a book' executions := by
  obtain ⟨book', q, hmatch, hm⟩ := h.matchOrder
  obtain ⟨sd, hsd⟩ : ∃ sd, (book.order a).side.opposite = sd := ⟨_, rfl⟩
  rw [hsd] at hmatch hm ⊢
  obtain ⟨hreached, hstopped⟩ := Iterates.of_matchLoop ((matchOrder_eq book a hsd).symm.trans hmatch)
  have hids : ((book.views (queues sd)).map RestingOrder.orderId).Nodup :=
    (views_ids book (queues sd)).symm ▸ h.queue_ids_nodup sd
  have hpos : ∀ r ∈ book.views (queues sd), 0 < r.remainingQuantity :=
    List.forall_mem_map.mpr (h.quantity sd)
  have hresting : ∀ fill ∈ (sweep (sd.crosses (book.order a).price) (book.order a).remainingQuantity
      (book.views (queues sd))).fills, ∃ y ∈ queues sd, (book.order y).view = fill.resting :=
    fun fill hfill => List.mem_map.mp (mem_fills hfill)
  refine ⟨book', _, hmatch, hreached, hstopped, fun earlier mid hi => hreached.isPrefix hstopped hi, ?_, ?_, ?_, ?_⟩
  · intro earlier mid index hi hc
    obtain ⟨queues', hmid⟩ := h.iterates List.mem_cons_self hi
    exact hmid.iteration List.mem_cons_self hc
  · rw [List.forall_mem_map]
    intro fill hfill
    obtain ⟨y, hy, hview⟩ := hresting fill hfill
    refine ⟨sweep_quantity_pos hpos hfill, y, (h.linkedSlots_perm sd).mem_iff.mpr hy, ?_⟩
    exact congrArg RestingOrder.orderId hview
  · intro earlier execution later he hlater
    obtain ⟨fs, fs', hfills, rfl, hfs'⟩ := List.map_eq_append_iff.mp he
    obtain ⟨fill, rest, rfl, rfl, rfl⟩ := List.map_eq_cons_iff.mp hfs'
    obtain ⟨hzero, hgone⟩ := sweep_removes hids hfills (fun hnil => hlater (hnil ▸ rfl))
    obtain ⟨y, hy, hview⟩ := hresting fill (hfills ▸ List.mem_append_right _ List.mem_cons_self)
    have hid : (book.order y).orderId = fill.resting.orderId := congrArg RestingOrder.orderId hview
    rw [← hid] at hgone
    have hout := h.not_held_after hm hy hgone
    rw [hid] at hout
    refine ⟨hzero, hm.inv.find_none hout, fun sd' slot hslot hsame => hout ?_⟩
    have hslotid : (book'.order slot).orderId = fill.resting.orderId := hsame
    rw [← hslotid]
    apply List.mem_map_of_mem
    exact mem_heldSlots.mpr (Or.inl ⟨sd', (hm.inv.linkedSlots_perm sd').mem_iff.mp hslot⟩)
  · rw [List.length_map, (h.linkedSlots_perm sd).countP_eq]
    refine (sweep_fills_le _ _).trans_eq ?_
    rw [OrderBook.views, List.countP_map]
    rfl

end BookInv

end Sixchange
