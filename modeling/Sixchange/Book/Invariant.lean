import Sixchange.Book.BestPrice
import Sixchange.Book.Pool
import Sixchange.Map.Operations

namespace Sixchange

open LinkedQueue PriorityList OrderBook
open scoped List

def heldSlots (queues : Side → List Slot) (pending : List Slot) : List Slot :=
  queues .buy ++ queues .sell ++ pending

def lookupEntries (orders : Slot → Order) (held : List Slot) : List (ℕ × Slot) :=
  held.map (fun s => ((orders s).orderId, s))

structure BookCore (book : OrderBook) (queues : Side → List Slot) (pending : List Slot) : Prop where
  side : ∀ sd, SideInv book.symbolId book.config.priceLevelCount book.orders.orders sd
    (book.sides sd).levels (queues sd)
  best : ∀ sd, (book.sides sd).best = (queues sd).head?.map (priceOf book.orders.orders)
  activeOrders : ∀ sd, (book.sides sd).activeOrders = (queues sd).length
  placed : ∀ s ∈ pending, Placed book.symbolId book.config.priceLevelCount (book.order s)
  pool : ∃ free, PoolInv book.orders (heldSlots queues pending) free
  lookup : book.ordersById.Represents book.bucket
    (lookupEntries book.orders.orders (heldSlots queues pending))
  capacity_eq : book.orders.capacity = book.config.maxActiveOrders
  lookup_ge : book.config.maxActiveOrders ≤ book.ordersById.capacity

/-- The invariant of the book between the steps of a matching loop and around them. -/
structure BookInv (book : OrderBook) (queues : Side → List Slot) (pending : List Slot) : Prop
    extends BookCore book queues pending where
  quantity : ∀ sd, ∀ s ∈ queues sd, 0 < (book.order s).remainingQuantity

theorem forall_update {β γ : Type} {R : Side → β → γ → Prop} {f : Side → β} {g : Side → γ} {sd : Side}
    {b : β} {c : γ} (hsd : R sd b c) (hrest : ∀ sd', sd' ≠ sd → R sd' (f sd') (g sd')) (sd' : Side) :
    R sd' (Function.update f sd b sd') (Function.update g sd c sd') := by
  by_cases he : sd' = sd
  · subst he
    rwa [Function.update_self, Function.update_self]
  · rw [Function.update_of_ne he, Function.update_of_ne he]
    exact hrest sd' he

theorem heldSlots_update {queues : Side → List Slot} (pending : List Slot) {sd : Side}
    {as bs : List Slot} {x : Slot} (h : queues sd = as ++ x :: bs) :
    heldSlots queues pending ~
      x :: heldSlots (Function.update queues sd (as ++ bs)) pending := by
  cases sd
  · simp only [heldSlots, h, Function.update_self, Function.update_of_ne (show Side.sell ≠ .buy by decide)]
    simp only [List.append_assoc, List.cons_append]
    exact List.perm_middle
  · simp only [heldSlots, h, Function.update_self, Function.update_of_ne (show Side.buy ≠ .sell by decide)]
    simp only [List.append_assoc, List.cons_append]
    rw [← List.append_assoc, ← List.append_assoc (queues .buy) as (bs ++ pending)]
    exact List.perm_middle

theorem heldSlots_cons {queues : Side → List Slot} {pending : List Slot} {x : Slot} :
    heldSlots queues (x :: pending) ~ x :: heldSlots queues pending := List.perm_middle

theorem heldSlots_unlink {queues : Side → List Slot} (pending : List Slot) {sd : Side}
    {as bs : List Slot} {x : Slot} (h : queues sd = as ++ x :: bs) :
    heldSlots queues pending ~ heldSlots (Function.update queues sd (as ++ bs)) (x :: pending) :=
  (heldSlots_update pending h).trans heldSlots_cons.symm

theorem heldSlots_link {queues : Side → List Slot} (pending : List Slot) {x : Slot} {sd : Side} {q : List Slot}
    (hq : q ~ x :: queues sd) :
    heldSlots (Function.update queues sd q) pending ~ heldSlots queues (x :: pending) := by
  refine List.Perm.trans ?_ heldSlots_cons.symm
  cases sd
  · simp only [heldSlots, Function.update_self, Function.update_of_ne (show Side.sell ≠ .buy by decide)]
    simpa only [List.append_assoc, List.cons_append] using hq.append_right (queues .sell ++ pending)
  · simp only [heldSlots, Function.update_self, Function.update_of_ne (show Side.buy ≠ .sell by decide)]
    have h := (hq.append_right pending).append_left (queues .buy)
    simp only [List.append_assoc, List.cons_append] at h ⊢
    exact h.trans List.perm_middle

theorem mem_heldSlots {queues : Side → List Slot} {pending : List Slot} {s : Slot} :
    s ∈ heldSlots queues pending ↔ (∃ sd, s ∈ queues sd) ∨ s ∈ pending := by
  simp only [heldSlots, List.mem_append]
  constructor
  · rintro ((h | h) | h)
    exacts [Or.inl ⟨_, h⟩, Or.inl ⟨_, h⟩, Or.inr h]
  · rintro (⟨sd, h⟩ | h)
    · cases sd
      exacts [Or.inl (Or.inl h), Or.inl (Or.inr h)]
    · exact Or.inr h

theorem lookupEntries_congr {orders orders' : Slot → Order} {held : List Slot}
    (h : ∀ s ∈ held, (orders' s).orderId = (orders s).orderId) :
    lookupEntries orders' held = lookupEntries orders held :=
  List.map_congr_left (fun s hs => by rw [h s hs])

namespace BookCore

variable {book : OrderBook} {queues : Side → List Slot} {pending : List Slot}

theorem held_nodup (h : BookCore book queues pending) : (heldSlots queues pending).Nodup := by
  obtain ⟨free, hp⟩ := h.pool
  exact (List.nodup_append.mp hp.nodup).1

theorem held_length_le (h : BookCore book queues pending) :
    (heldSlots queues pending).length ≤ book.config.maxActiveOrders := by
  obtain ⟨free, hp⟩ := h.pool
  have := hp.length_eq
  have := hp.size_le
  have := h.capacity_eq
  omega

theorem capacity_lt (h : BookCore book queues pending) : book.config.maxActiveOrders < word := by
  obtain ⟨k, hk, hc, -⟩ := h.lookup.shape
  have : 2 ^ k < 2 ^ 64 := Nat.pow_lt_pow_right (by omega) hk
  have := h.lookup_ge
  rw [word]
  omega

theorem queue_length_le (h : BookCore book queues pending) (sd : Side) :
    (queues sd).length + pending.length ≤ book.config.maxActiveOrders := by
  have hheld := h.held_length_le
  rw [heldSlots, List.length_append, List.length_append] at hheld
  cases sd <;> omega

theorem queue_length_lt (h : BookCore book queues pending) (sd : Side) : (queues sd).length < word := by
  have hle := h.queue_length_le sd
  have hlt := h.capacity_lt
  omega

theorem disjoint_sides (h : BookCore book queues pending) {sd sd' : Side} (hne : sd ≠ sd') {s : Slot}
    (hs : s ∈ queues sd) : s ∉ queues sd' := by
  have hd := List.nodup_append.mp (List.nodup_append.mp h.held_nodup).1
  intro hs'
  cases sd <;> cases sd'
  · exact hne rfl
  · exact hd.2.2 s hs s hs' rfl
  · exact hd.2.2 s hs' s hs rfl
  · exact hne rfl

theorem not_pending (h : BookCore book queues pending) {sd : Side} {s : Slot} (hs : s ∈ queues sd) :
    s ∉ pending := by
  have hd := (List.nodup_append.mp h.held_nodup).2.2
  intro hp
  refine hd s ?_ s hp rfl
  cases sd
  exacts [List.mem_append_left _ hs, List.mem_append_right _ hs]

theorem queue_nodup (h : BookCore book queues pending) (sd : Side) : (queues sd).Nodup := by
  have hd := List.nodup_append.mp (List.nodup_append.mp h.held_nodup).1
  cases sd
  exacts [hd.1, hd.2.1]

theorem mem_removed (h : BookCore book queues pending) {sd sd' : Side} {as bs : List Slot} {x s : Slot}
    (hq : queues sd = as ++ x :: bs) (hs : s ∈ Function.update queues sd (as ++ bs) sd') :
    s ∈ queues sd' ∧ s ≠ x := by
  by_cases hsd : sd' = sd
  · subst hsd
    rw [Function.update_self] at hs
    have hd := h.queue_nodup sd'
    rw [hq] at hd
    refine ⟨?_, ne_of_mem_of_not_mem hs (List.nodup_cons.mp (List.perm_middle.nodup_iff.mp hd)).1⟩
    rw [hq]
    exact List.perm_middle.mem_iff.mpr (List.mem_cons_of_mem x hs)
  · rw [Function.update_of_ne hsd] at hs
    exact ⟨hs, fun he => h.disjoint_sides hsd hs (by simp [he, hq])⟩

theorem frame (h : BookCore book queues pending) {book' : OrderBook} {pending' : List Slot}
    (hsymbol : book'.symbolId = book.symbolId) (hconfig : book'.config = book.config)
    (hsides : book'.sides = book.sides) (hf : ∀ sd, ∀ s ∈ queues sd, book'.order s = book.order s)
    (hplaced : ∀ s ∈ pending', Placed book.symbolId book.config.priceLevelCount (book'.order s))
    (hpool : ∃ free, PoolInv book'.orders (heldSlots queues pending') free)
    (hlookup : book'.ordersById.Represents book'.bucket
      (lookupEntries book'.orders.orders (heldSlots queues pending')))
    (hcapacity : book'.orders.capacity = book.orders.capacity)
    (hge : book'.ordersById.capacity = book.ordersById.capacity) : BookCore book' queues pending' := by
  refine ⟨?_, ?_, ?_, ?_, hpool, hlookup, ?_, ?_⟩
  · intro sd
    rw [hsymbol, hconfig, hsides]
    exact (h.side sd).frame (hf sd)
  · intro sd
    rw [hsides, h.best sd]
    exact (head_price_congr (fun s hs => congrArg Order.price (hf sd s hs))).symm
  · intro sd
    rw [hsides]
    exact h.activeOrders sd
  · rw [hsymbol, hconfig]
    exact hplaced
  · rw [hcapacity, hconfig]
    exact h.capacity_eq
  · rw [hge, hconfig]
    exact h.lookup_ge

theorem best_eq_none_iff (h : BookCore book queues pending) (sd : Side) : (book.sides sd).best = none ↔
    ∀ p < book.config.priceLevelCount, (book.level sd p).empty = true := by
  rw [h.best, Option.map_eq_none_iff, List.head?_eq_none_iff]
  simp only [level, (h.side sd).level_empty]
  constructor
  · intro hnil p _ s hs
    rw [hnil] at hs
    cases hs
  · intro hall
    apply List.eq_nil_iff_forall_not_mem.mpr
    intro s hs
    exact hall _ ((h.side sd).placed s hs).price_lt s hs rfl

theorem best_eq_some (h : BookCore book queues pending) {sd : Side} {best : ℕ}
    (hbest : (book.sides sd).best = some best) :
    best < book.config.priceLevelCount ∧ (book.level sd best).empty = false ∧
      ∀ p, (book.level sd p).empty = false → ¬ sd.better p best := by
  rw [h.best, Option.map_eq_some_iff] at hbest
  obtain ⟨x, hx, rfl⟩ := hbest
  obtain ⟨xs, hq⟩ := List.head?_eq_some_iff.mp hx
  have hside := h.side sd
  rw [hq] at hside
  refine ⟨(hside.placed x List.mem_cons_self).price_lt, ?_, ?_⟩
  · rw [Bool.eq_false_iff, level, Ne, hside.level_empty]
    exact fun hall => hall x List.mem_cons_self rfl
  · intro p hp
    rw [Bool.eq_false_iff, level, Ne, hside.level_empty] at hp
    push Not at hp
    obtain ⟨s, hs, rfl⟩ := hp
    rcases List.mem_cons.mp hs with rfl | hs
    · exact irrefl_of sd.better _
    · exact (List.pairwise_cons.mp hside.prioritized).1 s hs

theorem pending_perm (h : BookCore book queues pending) {pending' : List Slot} (hp : pending ~ pending') :
    BookCore book queues pending' := by
  have hheld : heldSlots queues pending ~ heldSlots queues pending' := hp.append_left _
  obtain ⟨free, hpool⟩ := h.pool
  exact ⟨h.side, h.best, h.activeOrders, fun s hs => h.placed s (hp.mem_iff.mpr hs), ⟨free, hpool.of_perm hheld⟩,
    h.lookup.of_perm (hheld.map _), h.capacity_eq, h.lookup_ge⟩

theorem discard {x : Slot} (h : BookCore book queues (x :: pending)) :
    ∃ ordersById, book.ordersById.erase book.bucket (book.order x).orderId = (true, ordersById) ∧
      BookCore { book with ordersById, orders := book.orders.release x } queues pending ∧
      ∀ s, s ≠ x → (book.orders.release x).orders s = book.order s := by
  obtain ⟨free, hpool⟩ := h.pool
  obtain ⟨hrelease, hkept⟩ := (hpool.of_perm heldSlots_cons).release_spec
  obtain ⟨ordersById, herase, hrep, hcap, hmask⟩ := h.lookup.erase_hit (heldSlots_cons.map _)
  have hx := (List.nodup_cons.mp (heldSlots_cons.nodup_iff.mp h.held_nodup)).1
  have hsame : ∀ s ∈ heldSlots queues pending, (book.orders.release x).orders s = book.orders.orders s :=
    fun s hs => hkept s (ne_of_mem_of_not_mem hs hx)
  refine ⟨ordersById, herase, ?_, hkept⟩
  refine h.frame rfl rfl rfl ?_ ?_ ⟨_, hrelease⟩ ?_ rfl hcap
  · exact fun sd s hs => hsame s (mem_heldSlots.mpr (Or.inl ⟨sd, hs⟩))
  · intro s hs
    have hp := h.placed s (List.mem_cons_of_mem x hs)
    rwa [OrderBook.order, ← hsame s (mem_heldSlots.mpr (Or.inr hs))] at hp
  · have hold := lookupEntries_congr (fun s hs => congrArg Order.orderId (hsame s hs))
    change ordersById.Represents (fun key => FixedOrderMap.mixBucket ordersById.mask key) _
    dsimp only
    rw [hmask, hold]
    exact hrep

end BookCore

namespace BookInv

variable {book : OrderBook} {queues : Side → List Slot} {pending : List Slot}

theorem of_data (h : BookInv book queues pending) {book' : OrderBook} {queues' : Side → List Slot}
    {pending' : List Slot} (hcore : BookCore book' queues' pending')
    (hf : ∀ sd, ∀ s ∈ queues' sd, s ∈ queues sd ∧ (book'.order s).data = (book.order s).data) :
    BookInv book' queues' pending' := by
  refine ⟨hcore, fun sd s hs => ?_⟩
  obtain ⟨hq, hd⟩ := hf sd s hs
  rw [data_remaining hd]
  exact h.quantity sd s hq

end BookInv

end Sixchange
