import Sixchange.Book.Filling

namespace Sixchange

open LinkedQueue PriorityList OrderBook
open scoped List

def Order.view (o : Order) : RestingOrder :=
  { orderId := o.orderId, clientOrderId := o.clientOrderId, clientId := o.clientId, side := o.side
    price := o.price, remainingQuantity := o.remainingQuantity }

theorem view_data (o : Order) : o.data.view = o.view := rfl

def OrderBook.views (book : OrderBook) (q : List Slot) : List RestingOrder :=
  q.map (fun s => (book.order s).view)

theorem views_congr {book book' : OrderBook} {q : List Slot}
    (h : ∀ s ∈ q, (book'.order s).data = (book.order s).data) : book'.views q = book.views q :=
  List.map_congr_left (fun s hs => by rw [← view_data, h s hs, view_data])

def executionOf (aggressor : Order) (fill : Fill) : MatchExecution where
  seq := aggressor.seq
  symbolId := aggressor.symbolId
  aggressingSide := aggressor.side
  price := fill.resting.price
  quantity := fill.quantity
  aggressingOrderId := aggressor.orderId
  aggressingClientOrderId := aggressor.clientOrderId
  aggressingClientId := aggressor.clientId
  aggressingRemainingQuantity := fill.aggressingRemaining
  restingOrderId := fill.resting.orderId
  restingClientOrderId := fill.resting.clientOrderId
  restingClientId := fill.resting.clientId
  restingRemainingQuantity := fill.restingRemaining

structure Matched (book book' : OrderBook) (queues : Side → List Slot) (pending : List Slot) (sd : Side)
    (a : Slot) (s : Swept) (q : List Slot) : Prop where
  inv : BookInv book' (Function.update queues sd q) pending
  resting : book'.views q = s.resting
  subset : ∀ x ∈ q, x ∈ queues sd
  frame : ∀ x, x ≠ a → x ∉ queues sd → (book'.order x).data = (book.order x).data
  aggressor : (book'.order a).data = { (book.order a).data with remainingQuantity := s.unfilled }
  symbolId_eq : book'.symbolId = book.symbolId
  config_eq : book'.config = book.config
  executionCount_eq : book'.executionCount = s.fills.foldl (fun n _ => wrapAdd n 1) book.executionCount

theorem Matched.trans {book book₁ book₂ : OrderBook} {queues : Side → List Slot} {pending : List Slot} {sd : Side}
    {a : Slot} {s₁ s₂ : Swept} {q₁ q₂ : List Slot} (h₁ : Matched book book₁ queues pending sd a s₁ q₁)
    (h₂ : Matched book₁ book₂ (Function.update queues sd q₁) pending sd a s₂ q₂) :
    Matched book book₂ queues pending sd a ⟨s₁.fills ++ s₂.fills, s₂.unfilled, s₂.resting⟩ q₂ where
  inv := by simpa only [Function.update_idem] using h₂.inv
  resting := h₂.resting
  subset := fun x hx => h₁.subset x (by simpa only [Function.update_self] using h₂.subset x hx)
  frame := fun x hxa hxq => by
    rw [h₂.frame x hxa (fun hx => hxq (h₁.subset x (by simpa only [Function.update_self] using hx)))]
    exact h₁.frame x hxa hxq
  aggressor := by rw [h₂.aggressor, h₁.aggressor]
  symbolId_eq := h₂.symbolId_eq.trans h₁.symbolId_eq
  config_eq := h₂.config_eq.trans h₁.config_eq
  executionCount_eq := by rw [h₂.executionCount_eq, h₁.executionCount_eq, List.foldl_append]

theorem executionOf_congr {o o' : Order} {left : ℕ}
    (h : o'.data = { o.data with remainingQuantity := left }) : executionOf o' = executionOf o := by
  have hd : executionOf o'.data = executionOf { o.data with remainingQuantity := left } := by rw [h]
  exact hd

namespace BookInv

variable {book : OrderBook} {queues : Side → List Slot} {pending : List Slot} {a x : Slot} {xs : List Slot}
  {sd : Side} {updateBest : OrderBook → ℕ → OrderBook}

theorem of_count (h : BookInv book queues pending) (n : ℕ) :
    BookInv { book with executionCount := n } queues pending :=
  ⟨⟨h.side, h.best, h.activeOrders, h.placed, h.pool, h.lookup, h.capacity_eq, h.lookup_ge⟩, h.quantity⟩

theorem matchFront_eq (h : BookInv book queues pending) (ha : a ∈ pending) (hq : queues sd = x :: xs) :
    book.matchFront sd updateBest a (book.order x).price =
      let e := min (book.order a).remainingQuantity (book.order x).remainingQuantity
      let filled := { book with executionCount := wrapAdd book.executionCount 1 }.applyFill sd
        (book.order x).price a x e
      let execution := executionOf (book.order a) ⟨(book.order x).view, e,
        (book.order a).remainingQuantity - e, (book.order x).remainingQuantity - e⟩
      if (book.order x).remainingQuantity - e = 0 then
        filled.removeFilled sd updateBest (book.order x).price x >>= fun book => .ok (book, execution)
      else .ok (filled, execution) := by
  have hx : x ∈ queues sd := by simp [hq]
  have hax : a ≠ x := fun heq => h.not_pending hx (heq ▸ ha)
  have hside := h.side sd
  have hsx : (book.order x).side = sd := hside.side_eq x hx
  rw [hq] at hside
  have hfront : (book.level sd (book.order x).price).front = some x := hside.front_eq
  have hdata := BookCore.applyFill_data { book with executionCount := wrapAdd book.executionCount 1 } sd
    (min (book.order a).remainingQuantity (book.order x).remainingQuantity) hax (book.order x).price
  have hafter : ∀ s, ({ book with executionCount := wrapAdd book.executionCount 1 } : OrderBook).order s =
      book.order s := fun s => rfl
  simp only [hafter] at hdata
  simp only [matchFront, hfront, hsx, ensure_ok, ok_bind, hafter, hdata, true_or, or_true, if_true, executionOf,
    Order.view]

theorem fill_front (h : BookInv book queues pending) (ha : a ∈ pending) (hx : x ∈ queues sd) {e : ℕ}
    (he : e ≤ (book.order x).remainingQuantity) {filled : OrderBook}
    (hfilled : filled = ({ book with executionCount := wrapAdd book.executionCount 1 } : OrderBook).applyFill sd
      (book.order x).price a x e) :
    BookCore filled queues pending ∧
      filled.order a = { book.order a with remainingQuantity := (book.order a).remainingQuantity - e } ∧
      filled.order x = { book.order x with remainingQuantity := (book.order x).remainingQuantity - e } ∧
      ∀ s, s ≠ a → s ≠ x → filled.order s = book.order s := by
  have hax : a ≠ x := fun heq => h.not_pending hx (heq ▸ ha)
  have hdata : ∀ s, filled.order s = if s = a ∨ s = x then
      { book.order s with remainingQuantity := (book.order s).remainingQuantity - e }
      else book.order s := fun s => hfilled ▸ BookCore.applyFill_data _ _ _ hax _ s
  refine ⟨?_, ?_, ?_, fun s hsa hsx => ?_⟩
  · rw [hfilled]
    exact (h.of_count (wrapAdd book.executionCount 1)).toBookCore.applyFill ha hx he
  · rw [hdata, if_pos (Or.inl rfl)]
  · rw [hdata, if_pos (Or.inr rfl)]
  · rw [hdata, if_neg (by simp [hsa, hsx])]

theorem matchFront (hu : RestoresBest sd updateBest) (h : BookInv book queues pending) (ha : a ∈ pending)
    (hq : queues sd = x :: xs) :
    let e := min (book.order a).remainingQuantity (book.order x).remainingQuantity
    let fill : Fill := ⟨(book.order x).view, e, (book.order a).remainingQuantity - e,
      (book.order x).remainingQuantity - e⟩
    ∃ book' q, book.matchFront sd updateBest a (book.order x).price =
        .ok (book', executionOf (book.order a) fill) ∧
      Matched book book' queues pending sd a ⟨[fill], (book.order a).remainingQuantity - e,
        leftOver (book.order a).remainingQuantity (book.order x).view ++ book.views xs⟩ q := by
  intro e fill
  have hx : x ∈ queues sd := by simp [hq]
  have hne : ∀ sd', ∀ s ∈ queues sd', s ≠ a := fun sd' s hs he => h.not_pending hs (he ▸ ha)
  have hd := h.queue_nodup sd
  rw [hq] at hd
  have hxs : ∀ s ∈ xs, s ≠ a ∧ s ≠ x := fun s hs =>
    ⟨hne sd s (hq ▸ List.mem_cons_of_mem x hs), ne_of_mem_of_not_mem hs (List.nodup_cons.mp hd).1⟩
  obtain ⟨filled, hfilled⟩ : ∃ filled, filled = ({ book with executionCount := wrapAdd book.executionCount 1 } :
    OrderBook).applyFill sd (book.order x).price a x e := ⟨_, rfl⟩
  obtain ⟨hcore, hadata, hxdata, hother⟩ := h.fill_front ha hx (e := e) (Nat.min_le_right _ _) hfilled
  have hstatic : filled.symbolId = book.symbolId ∧ filled.config = book.config ∧
      filled.executionCount = wrapAdd book.executionCount 1 := hfilled ▸ ⟨rfl, rfl, rfl⟩
  rw [h.matchFront_eq ha hq]
  dsimp only
  rw [← hfilled]
  split_ifs with hzero
  -- the front is filled and leaves the book
  · obtain ⟨book', hremove, hcore', hdata', hsym, hcfg, hcount⟩ := BookCore.removeFilled hu hcore hq
    rw [hxdata] at hremove
    have hkept : ∀ s, s ≠ a → s ≠ x → (book'.order s).data = (book.order s).data := fun s hsa hsx => by
      rw [hdata' s hsx, hother s hsa hsx]
    refine ⟨book', xs, by rw [hremove]; rfl, ⟨h.of_data hcore' (fun sd' s hs => ?_), ?_, ?_, ?_, ?_,
      hsym.trans hstatic.1, hcfg.trans hstatic.2.1, hcount.trans hstatic.2.2⟩⟩
    · obtain ⟨hsq, hsx⟩ := h.mem_removed (show queues sd = [] ++ x :: xs from hq) hs
      exact ⟨hsq, hkept s (hne sd' s hsq) hsx⟩
    · rw [leftOver, if_neg (by simp only [Order.view]; omega), List.nil_append]
      apply views_congr
      intro s hs
      exact hkept s (hxs s hs).1 (hxs s hs).2
    · intro s hs
      simp [hq, hs]
    · intro s hsa hsq
      apply hkept s hsa
      intro he
      exact hsq (he ▸ hx)
    · rw [hdata' a (hne sd x hx).symm, hadata]
      rfl
  -- the front outlasts the aggressor
  · refine ⟨filled, x :: xs, rfl, ⟨?_, ?_, ?_, ?_, ?_, hstatic.1, hstatic.2.1, hstatic.2.2⟩⟩
    · rw [← hq, Function.update_eq_self]
      refine ⟨hcore, fun sd' s hs => ?_⟩
      by_cases hsx : s = x
      · rw [hsx, hxdata]
        exact Nat.pos_of_ne_zero hzero
      · rw [hother s (hne sd' s hs) hsx]
        exact h.quantity sd' s hs
    · have hlt : (book.order a).remainingQuantity < (book.order x).view.remainingQuantity := by
        simp only [Order.view]
        omega
      rw [leftOver, if_pos hlt, List.singleton_append, views, List.map_cons, hxdata]
      have hxs' : filled.views xs = book.views xs := views_congr (fun s hs => by
        rw [hother s (hxs s hs).1 (hxs s hs).2])
      have he : e = (book.order a).remainingQuantity := Nat.min_eq_left (Nat.le_of_lt hlt)
      exact congrArg₂ List.cons (by rw [he]; rfl) hxs'
    · intro s hs
      rwa [hq]
    · intro s hsa hsq
      rw [hother s hsa (fun he => hsq (he ▸ hx))]
    · rw [hadata]
      rfl

theorem stop (h : BookInv book queues pending) (sd : Side) :
    Matched book book queues pending sd a
      ⟨[], (book.order a).remainingQuantity, book.views (queues sd)⟩ (queues sd) where
  inv := by rwa [Function.update_eq_self]
  resting := rfl
  subset := fun x hx => hx
  frame := fun x _ _ => rfl
  aggressor := rfl
  symbolId_eq := rfl
  config_eq := rfl
  executionCount_eq := rfl

theorem matchLoop_stop {crosses : ℕ → ℕ → Bool} (hc : book.crossing sd crosses a = none) (fuel : ℕ) :
    OrderBook.matchLoop sd crosses updateBest a fuel book = .ok (book, []) := by
  cases fuel <;> simp only [OrderBook.matchLoop, hc]

theorem matchLoop (hu : RestoresBest sd updateBest) (h : BookInv book queues pending) (ha : a ∈ pending)
    {fuel : ℕ} (hfuel : (book.order a).remainingQuantity ≤ fuel) :
    let s := sweep (sd.crosses (book.order a).price) (book.order a).remainingQuantity (book.views (queues sd))
    ∃ book' q, OrderBook.matchLoop sd sd.crosses updateBest a fuel book =
        .ok (book', s.fills.map (executionOf (book.order a))) ∧
      Matched book book' queues pending sd a s q := by
  induction fuel generalizing book queues with
  | zero =>
    have hz : (book.order a).remainingQuantity = 0 := Nat.le_zero.mp hfuel
    have hc : book.crossing sd sd.crosses a = none := by rw [crossing, if_neg (by omega)]
    rw [matchLoop_stop hc, hz, sweep_zero]
    exact ⟨book, queues sd, rfl, hz ▸ h.stop sd⟩
  | succ fuel ih =>
    have hbest := h.best sd
    rcases hq : queues sd with _ | ⟨x, xs⟩
    · have hc : book.crossing sd sd.crosses a = none := by
        rw [crossing, hbest, hq]
        split_ifs <;> rfl
      rw [matchLoop_stop hc]
      have hstop := h.stop sd (a := a)
      rw [hq] at hstop
      exact ⟨book, [], rfl, hstop⟩
    -- the cached best price is that of the front, so the loop goes on exactly as long as the sweep
    · by_cases hgo : 0 < (book.order a).remainingQuantity ∧
          sd.crosses (book.order a).price (book.order x).price = true
      · obtain ⟨hpos, hcross⟩ := hgo
        have hc : book.crossing sd sd.crosses a = some (book.order x).price := by
          rw [crossing, if_pos hpos, hbest, hq]
          exact if_pos hcross
        have hxpos : 0 < (book.order x).remainingQuantity := h.quantity sd x (by simp [hq])
        obtain ⟨book₁, q₁, hfront, hm₁⟩ := h.matchFront hu ha hq
        have hprice := congrArg Order.price hm₁.aggressor
        have hrem := congrArg Order.remainingQuantity hm₁.aggressor
        dsimp only [Order.data] at hprice hrem
        obtain ⟨book₂, q₂, hloop, hm₂⟩ := ih hm₁.inv (by omega)
        rw [Function.update_self, hm₁.resting, hrem, hprice] at hloop hm₂
        rw [executionOf_congr hm₁.aggressor] at hloop
        have hviews : book.views (x :: xs) = (book.order x).view :: book.views xs := rfl
        rw [hviews, sweep_cons hpos hcross]
        refine ⟨book₂, q₂, ?_, hm₁.trans hm₂⟩
        rw [OrderBook.matchLoop.eq_def]
        simp only [hc, hfront, ok_bind, hloop]
        rfl
      · have hc : book.crossing sd sd.crosses a = none := by
          rw [crossing, hbest, hq]
          split_ifs with hpos
          · apply if_neg
            intro hcross
            exact hgo ⟨hpos, hcross⟩
          · rfl
        have hstop : sweep (sd.crosses (book.order a).price) (book.order a).remainingQuantity
            (book.views (x :: xs)) = ⟨[], (book.order a).remainingQuantity, book.views (x :: xs)⟩ := by
          apply sweep_stop
          intro hpos r hr
          obtain rfl : (book.order x).view = r := Option.some.inj hr
          apply Bool.eq_false_iff.mpr
          intro hcross
          exact hgo ⟨hpos, hcross⟩
        rw [matchLoop_stop hc, hstop, ← hq]
        exact ⟨book, queues sd, rfl, h.stop sd⟩

end BookInv

end Sixchange
