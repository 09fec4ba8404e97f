import Sixchange.Book.LevelQueue
import Sixchange.Market.Priority

namespace Sixchange

open LinkedQueue PriorityList

abbrev priceOf (orders : Slot → Order) (s : Slot) : ℕ := (orders s).price

abbrev remainingOf (orders : Slot → Order) (s : Slot) : ℕ := (orders s).remainingQuantity

def atPrice (orders : Slot → Order) (q : List Slot) (p : ℕ) : List Slot :=
  q.filter (priceOf orders · = p)

structure Placed (symbolId : ℕ) (count : ℕ) (o : Order) : Prop where
  symbolId_eq : o.symbolId = symbolId
  active : o.active = true
  price_lt : o.price < count

structure SideInv (symbolId : ℕ) (count : ℕ) (orders : Slot → Order) (sd : Side)
    (levels : ℕ → PriceLevel) (q : List Slot) : Prop where
  side_eq : ∀ s ∈ q, (orders s).side = sd
  placed : ∀ s ∈ q, Placed symbolId count (orders s)
  prioritized : Prioritized sd.better (priceOf orders) q
  price_eq : ∀ p, (levels p).price = p
  queue : ∀ p, Queue (nextOf orders) (prevOf orders) (levels p).head (levels p).tail (atPrice orders q p)
  total : ∀ p, (levels p).totalQuantity = ((atPrice orders q p).map (remainingOf orders)).sum % word

theorem mem_atPrice {orders : Slot → Order} {q : List Slot} {p : ℕ} {s : Slot} :
    s ∈ atPrice orders q p ↔ s ∈ q ∧ (orders s).price = p := by
  simp [atPrice, priceOf]

theorem atPrice_congr {orders orders' : Slot → Order} {q : List Slot}
    (h : ∀ s ∈ q, (orders' s).price = (orders s).price) (p : ℕ) :
    atPrice orders' q p = atPrice orders q p :=
  List.filter_congr (fun s hs => by simp only [priceOf, h s hs])

theorem prioritized_congr {orders orders' : Slot → Order} {q : List Slot} {sd : Side}
    (h : ∀ s ∈ q, (orders' s).price = (orders s).price)
    (hp : Prioritized sd.better (priceOf orders) q) : Prioritized sd.better (priceOf orders') q := by
  refine List.Pairwise.imp_of_mem ?_ hp
  intro a b ha hb hab
  simpa only [priceOf, h a ha, h b hb] using hab

theorem head_price_congr {orders orders' : Slot → Order} {q : List Slot}
    (h : ∀ s ∈ q, (orders' s).price = (orders s).price) :
    q.head?.map (priceOf orders') = q.head?.map (priceOf orders) := by
  cases q with
  | nil => rfl
  | cons s q => exact congrArg some (h s List.mem_cons_self)

theorem Placed.of_data {symbolId : ℕ} {count : ℕ} {o o' : Order} (h : o'.data = o.data)
    (hp : Placed symbolId count o) : Placed symbolId count o' := by
  obtain ⟨h₁, h₂, h₃⟩ := hp
  simp only [Order.data, Order.mk.injEq] at h
  obtain ⟨-, -, -, hs, -, hpr, -, -, -, -, ha⟩ := h
  exact ⟨hs.trans h₁, ha.trans h₂, hpr ▸ h₃⟩

theorem data_side {o o' : Order} (h : o'.data = o.data) : o'.side = o.side := by
  simpa [Order.data] using congrArg Order.side h

namespace SideInv

variable {symbolId : ℕ} {count : ℕ} {orders orders' : Slot → Order} {sd : Side}
  {levels : ℕ → PriceLevel} {q : List Slot}

theorem frame (h : SideInv symbolId count orders sd levels q) (hf : ∀ s ∈ q, orders' s = orders s) :
    SideInv symbolId count orders' sd levels q where
  side_eq := fun s hs => by rw [hf s hs]; exact h.side_eq s hs
  placed := fun s hs => by rw [hf s hs]; exact h.placed s hs
  prioritized := prioritized_congr (fun s hs => by rw [hf s hs]) h.prioritized
  price_eq := h.price_eq
  queue := by
    intro p
    rw [atPrice_congr (fun s hs => by rw [hf s hs])]
    refine (h.queue p).frame ?_ ?_ <;> intro s hs
    · rw [nextOf, hf s (mem_atPrice.mp hs).1]; rfl
    · rw [prevOf, hf s (mem_atPrice.mp hs).1]; rfl
  total := by
    intro p
    rw [atPrice_congr (fun s hs => by rw [hf s hs]), h.total p]
    congr 2
    apply List.map_congr_left
    intro s hs
    rw [remainingOf, remainingOf, hf s (mem_atPrice.mp hs).1]

theorem empty (symbolId : ℕ) (count : ℕ) (orders : Slot → Order) (sd : Side) :
    SideInv symbolId count orders sd (fun index => { price := index }) [] where
  side_eq := by simp
  placed := by simp
  prioritized := List.Pairwise.nil
  price_eq := fun p => rfl
  queue := fun p => Queue.empty _ _
  total := fun p => rfl

theorem update_level (h : SideInv symbolId count orders sd levels q) {q' touched : List Slot} {index : ℕ}
    {level : PriceLevel} (hr : Relinked orders orders' touched) (htouched : ∀ s ∈ touched, (orders s).price = index)
    (hmem : ∀ s ∈ q', (orders s).side = sd ∧ Placed symbolId count (orders s))
    (hsorted : Prioritized sd.better (priceOf orders) q')
    (helse : ∀ p, p ≠ index → atPrice orders q' p = atPrice orders q p) (hlevel : level.price = index)
    (hqueue : Queue (nextOf orders') (prevOf orders') level.head level.tail (atPrice orders q' index))
    (htotal : level.totalQuantity = ((atPrice orders q' index).map (remainingOf orders)).sum % word) :
    SideInv symbolId count orders' sd (Function.update levels index level) q' := by
  have hprice : ∀ s, (orders' s).price = (orders s).price := fun s => data_price (hr.data s)
  have hat : ∀ p, atPrice orders' q' p = atPrice orders q' p := atPrice_congr (fun s _ => hprice s)
  have hrem : remainingOf orders' = remainingOf orders := by
    funext s
    exact data_remaining (hr.data s)
  refine ⟨?_, ?_, prioritized_congr (fun s _ => hprice s) hsorted, ?_, ?_, ?_⟩
  · intro s hs
    rw [data_side (hr.data s)]
    exact (hmem s hs).1
  · intro s hs
    exact Placed.of_data (hr.data s) (hmem s hs).2
  · intro p
    by_cases hp : p = index
    · subst hp
      rwa [Function.update_self]
    · rw [Function.update_of_ne hp]
      exact h.price_eq p
  · intro p
    rw [hat]
    by_cases hp : p = index
    · subst hp
      rwa [Function.update_self]
    · rw [Function.update_of_ne hp, helse p hp]
      -- the orders at other prices keep their links
      have hoff : ∀ s ∈ atPrice orders q p, orders' s = orders s := by
        intro s hs
        apply hr.frame
        intro hm
        exact hp ((mem_atPrice.mp hs).2.symm.trans (htouched s hm))
      refine (h.queue p).frame ?_ ?_ <;> intro s hs
      · rw [nextOf, hoff s hs]; rfl
      · rw [prevOf, hoff s hs]; rfl
  · intro p
    rw [hat, hrem]
    by_cases hp : p = index
    · subst hp
      rwa [Function.update_self]
    · rw [Function.update_of_ne hp, helse p hp, h.total]

theorem push (h : SideInv symbolId count orders sd levels q) {x : Slot} (hx : x ∉ q)
    (hside : (orders x).side = sd) (hplaced : Placed symbolId count (orders x)) :
    let r := (levels (orders x).price).pushBack orders x
    SideInv symbolId count r.2 sd (Function.update levels (orders x).price r.1)
        (enqueue sd.better (priceOf orders) x q) ∧
      Relinked orders r.2 (q ++ [x]) := by
  intro r
  have hxp : x ∉ atPrice orders q (orders x).price := fun hm => hx (mem_atPrice.mp hm).1
  obtain ⟨hq, hr, hlevel, ht⟩ := PriceLevel.pushBack_spec (h.queue (orders x).price) hxp
  have hat : ∀ p, atPrice orders (enqueue sd.better (priceOf orders) x q) p =
      if (orders x).price = p then atPrice orders q p ++ [x] else atPrice orders q p :=
    filter_enqueue x h.prioritized
  constructor
  · apply h.update_level hr
    · intro s hs
      rcases List.mem_append.mp hs with hs | hs
      · exact (mem_atPrice.mp hs).2
      · rw [List.mem_singleton.mp hs]
    · intro s hs
      rcases List.mem_cons.mp ((enqueue_perm x q).mem_iff.mp hs) with rfl | hs
      · exact ⟨hside, hplaced⟩
      · exact ⟨h.side_eq s hs, h.placed s hs⟩
    · exact enqueue_prioritized x h.prioritized
    · intro p hp
      rw [hat, if_neg hp.symm]
    · exact hlevel.trans (h.price_eq _)
    · rw [hat, if_pos rfl]
      exact hq
    · rw [hat, if_pos rfl, List.map_append, List.sum_append, ht, h.total, wrapAdd_mod]
      simp [remainingOf]
  · refine ⟨fun s hs => hr.frame s ?_, hr.data⟩
    simp only [List.mem_append, List.mem_singleton, mem_atPrice, not_or, not_and] at hs ⊢
    exact ⟨fun hq => absurd hq hs.1, hs.2⟩

theorem remove {as bs : List Slot} {x : Slot}
    (h : SideInv symbolId count orders sd levels (as ++ x :: bs)) :
    let r := (levels (orders x).price).remove orders x
    SideInv symbolId count r.2 sd (Function.update levels (orders x).price r.1) (as ++ bs) ∧
      Relinked orders r.2 (as ++ x :: bs) := by
  intro r
  have hat : ∀ p, atPrice orders (as ++ x :: bs) p = atPrice orders as p ++
      if (orders x).price = p then x :: atPrice orders bs p else atPrice orders bs p := by
    intro p
    simp only [atPrice, List.filter_append, List.filter_cons, priceOf, decide_eq_true_eq]
  have hat' : ∀ p, atPrice orders (as ++ bs) p = atPrice orders as p ++ atPrice orders bs p :=
    fun p => List.filter_append ..
  have hqx := h.queue (orders x).price
  have hts := h.total (orders x).price
  rw [hat, if_pos rfl] at hqx hts
  obtain ⟨hq, hr, hlevel, ht⟩ := PriceLevel.remove_spec hqx
  have htouched : ∀ s, s ∈ atPrice orders as (orders x).price ++ x :: atPrice orders bs (orders x).price →
      s ∈ as ++ x :: bs ∧ (orders s).price = (orders x).price := by
    intro s hs
    have : s ∈ atPrice orders (as ++ x :: bs) (orders x).price := by rwa [hat, if_pos rfl]
    exact mem_atPrice.mp this
  constructor
  · apply h.update_level hr (fun s hs => (htouched s hs).2)
    · intro s hs
      have hs' : s ∈ as ++ x :: bs := List.perm_middle.mem_iff.mpr (List.mem_cons_of_mem x hs)
      exact ⟨h.side_eq s hs', h.placed s hs'⟩
    · exact h.prioritized.remove
    · intro p hp
      rw [hat, hat', if_neg hp.symm]
    · exact hlevel.trans (h.price_eq _)
    · rw [hat']
      exact hq
    · rw [List.map_append, List.sum_append, List.map_cons, List.sum_cons] at hts
      rw [hat', List.map_append, List.sum_append, ht, hts, wrapSub_mod]
      · congr 1
        simp only [remainingOf]
        omega
      · simp only [remainingOf]
        omega
  · refine ⟨fun s hs => hr.frame s ?_, hr.data⟩
    intro hm
    exact hs (htouched s hm).1

theorem sum_modify {orders : Slot → Order} {x : Slot} {e : ℕ} {l : List Slot} (hd : l.Nodup) (hx : x ∈ l)
    (he : e ≤ (orders x).remainingQuantity) :
    (l.map (remainingOf (modify orders x fun o =>
        { o with remainingQuantity := o.remainingQuantity - e }))).sum + e =
      (l.map (remainingOf orders)).sum := by
  obtain ⟨as, bs, rfl⟩ := List.append_of_mem hx
  have hxa : x ∉ as := fun h => (List.nodup_append.mp hd).2.2 x h x (by simp) rfl
  have hxb : x ∉ bs := (List.nodup_cons.mp (List.nodup_append.mp hd).2.1).1
  have hoff : ∀ l : List Slot, x ∉ l → l.map (remainingOf (modify orders x fun o =>
      { o with remainingQuantity := o.remainingQuantity - e })) = l.map (remainingOf orders) := by
    intro l hl
    apply List.map_congr_left
    intro s hs
    rw [remainingOf, modify_of_ne _ (ne_of_mem_of_not_mem hs hl)]
  simp only [List.map_append, List.map_cons, List.sum_append, List.sum_cons, hoff as hxa, hoff bs hxb,
    remainingOf, modify_self]
  omega

theorem fill (h : SideInv symbolId count orders sd levels q) {x : Slot} (hx : x ∈ q) {e : ℕ}
    (he : e ≤ (orders x).remainingQuantity) :
    SideInv symbolId count
      (modify orders x fun o => { o with remainingQuantity := o.remainingQuantity - e }) sd
      (Function.update levels (orders x).price { levels (orders x).price with
        totalQuantity := wrapSub (levels (orders x).price).totalQuantity e }) q := by
  let orders' := modify orders x fun o => { o with remainingQuantity := o.remainingQuantity - e }
  have hall : ∀ s, (orders' s).price = (orders s).price ∧ (orders' s).side = (orders s).side ∧
      (orders' s).symbolId = (orders s).symbolId ∧ (orders' s).active = (orders s).active ∧
      (orders' s).next = (orders s).next ∧ (orders' s).prev = (orders s).prev := by
    intro s
    by_cases hsx : s = x
    · subst hsx; simp [orders', modify_self]
    · simp [orders', modify_of_ne _ hsx]
  have hat : ∀ p, atPrice orders' q p = atPrice orders q p := atPrice_congr (fun s _ => (hall s).1)
  refine ⟨?_, ?_, prioritized_congr (fun s _ => (hall s).1) h.prioritized, ?_, ?_, ?_⟩
  · intro s hs
    rw [(hall s).2.1]
    exact h.side_eq s hs
  · intro s hs
    obtain ⟨h₁, h₂, h₃⟩ := h.placed s hs
    obtain ⟨hp, -, hsym, hact, -, -⟩ := hall s
    exact ⟨hsym.trans h₁, hact.trans h₂, hp ▸ h₃⟩
  · intro p
    by_cases hp : p = (orders x).price
    · subst hp
      rw [Function.update_self]
      exact h.price_eq _
    · rw [Function.update_of_ne hp]
      exact h.price_eq p
  · intro p
    rw [hat]
    have hq := (h.queue p).frame (fun s _ => (hall s).2.2.2.2.1) (fun s _ => (hall s).2.2.2.2.2)
    by_cases hp : p = (orders x).price
    · subst hp
      rw [Function.update_self]
      exact hq
    · rw [Function.update_of_ne hp]
      exact hq
  · intro p
    rw [hat]
    by_cases hp : p = (orders x).price
    · subst hp
      have hsum := sum_modify (h.queue _).nodup (mem_atPrice.mpr ⟨hx, rfl⟩) he
      rw [Function.update_self, h.total, wrapSub_mod (by omega)]
      exact congrArg (· % word) (Nat.eq_sub_of_add_eq hsum).symm
    · rw [Function.update_of_ne hp, h.total]
      congr 2
      apply List.map_congr_left
      intro s hs
      have hsx : s ≠ x := by
        rintro rfl
        exact hp (mem_atPrice.mp hs).2.symm
      simp only [remainingOf, modify_of_ne _ hsx]

theorem level_empty (h : SideInv symbolId count orders sd levels q) (p : ℕ) :
    (levels p).empty = true ↔ ∀ s ∈ q, (orders s).price ≠ p := by
  rw [PriceLevel.empty_iff (h.queue p), List.eq_nil_iff_forall_not_mem]
  simp only [mem_atPrice, not_and]

theorem front_eq {x : Slot} {xs : List Slot} (h : SideInv symbolId count orders sd levels (x :: xs)) :
    (levels (orders x).price).front = some x := by
  rw [PriceLevel.front, (h.queue _).head_eq]
  simp [atPrice]

end SideInv

end Sixchange
