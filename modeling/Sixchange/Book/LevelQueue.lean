import Sixchange.Model.PriceLevel
import Sixchange.Theory.LinkedQueue

namespace Sixchange

open LinkedQueue

def nextOf (orders : Slot → Order) (s : Slot) : Option Slot := (orders s).next

def prevOf (orders : Slot → Order) (s : Slot) : Option Slot := (orders s).prev

def Order.data (o : Order) : Order := { o with prev := none, next := none }

structure Relinked (orders orders' : Slot → Order) (touched : List Slot) : Prop where
  frame : ∀ s, s ∉ touched → orders' s = orders s
  data : ∀ s, (orders' s).data = (orders s).data

section Data

variable {o o' : Order} (h : o.data = o'.data)

include h

theorem data_orderId : o.orderId = o'.orderId := by simpa [Order.data] using congrArg Order.orderId h

theorem data_price : o.price = o'.price := by simpa [Order.data] using congrArg Order.price h

theorem data_remaining : o.remainingQuantity = o'.remainingQuantity := by
  simpa [Order.data] using congrArg Order.remainingQuantity h

end Data

theorem data_modify {orders : Slot → Order} {x : Slot} {f : Order → Order} (hf : ∀ o, (f o).data = o.data)
    (s : Slot) : (modify orders x f s).data = (orders s).data := by
  by_cases hsx : s = x
  · subst hsx
    rw [modify_self, hf]
  · rw [modify_of_ne f hsx]

namespace PriceLevel

section Links

variable {orders : Slot → Order} {cell link : Option Slot} {s : Slot}

theorem linkNext_at (h : some s = cell) : linkNext orders cell link s = { orders s with next := link } := by
  subst h
  simp only [linkNext, modify_self]

theorem linkNext_off (h : some s ≠ cell) : linkNext orders cell link s = orders s := by
  cases cell with
  | none => rfl
  | some c =>
    have hne : s ≠ c := fun he => h (congrArg some he)
    simp only [linkNext, modify_of_ne _ hne]

theorem linkPrev_at (h : some s = cell) : linkPrev orders cell link s = { orders s with prev := link } := by
  subst h
  simp only [linkPrev, modify_self]

theorem linkPrev_off (h : some s ≠ cell) : linkPrev orders cell link s = orders s := by
  cases cell with
  | none => rfl
  | some c =>
    have hne : s ≠ c := fun he => h (congrArg some he)
    simp only [linkPrev, modify_of_ne _ hne]

theorem prev_linkNext : (linkNext orders cell link s).prev = (orders s).prev := by
  by_cases h : some s = cell
  · rw [linkNext_at h]
  · rw [linkNext_off h]

theorem next_linkPrev : (linkPrev orders cell link s).next = (orders s).next := by
  by_cases h : some s = cell
  · rw [linkPrev_at h]
  · rw [linkPrev_off h]

theorem data_linkNext : (linkNext orders cell link s).data = (orders s).data := by
  by_cases h : some s = cell
  · rw [linkNext_at h]; rfl
  · rw [linkNext_off h]

theorem data_linkPrev : (linkPrev orders cell link s).data = (orders s).data := by
  by_cases h : some s = cell
  · rw [linkPrev_at h]; rfl
  · rw [linkPrev_off h]

end Links

variable {level : PriceLevel} {orders : Slot → Order} {x : Slot} {xs as bs : List Slot}

theorem empty_iff (q : Queue (nextOf orders) (prevOf orders) level.head level.tail xs) :
    level.empty = true ↔ xs = [] := by
  rw [empty, q.head_eq, Option.isNone_iff_eq_none, List.head?_eq_none_iff]

theorem pushBack_spec (q : Queue (nextOf orders) (prevOf orders) level.head level.tail xs) (hx : x ∉ xs) :
    Queue (nextOf (level.pushBack orders x).2) (prevOf (level.pushBack orders x).2)
        (level.pushBack orders x).1.head (level.pushBack orders x).1.tail (xs ++ [x]) ∧
      Relinked orders (level.pushBack orders x).2 (xs ++ [x]) ∧
      (level.pushBack orders x).1.price = level.price ∧
      (level.pushBack orders x).1.totalQuantity =
        wrapAdd level.totalQuantity (orders x).remainingQuantity := by
  have hxt : some x ≠ level.tail := by
    rw [q.tail_eq]
    exact fun h => hx (List.mem_of_getLast? h.symm)
  have hhead : (if level.tail.isSome then level.head else some x) = level.head.or (some x) := by
    rw [q.tail_eq, q.head_eq]
    cases xs <;> simp
  simp only [pushBack, hhead]
  refine ⟨?_, ⟨?_, ?_⟩, trivial, by rw [linkNext_off hxt, modify_self]⟩
  · apply q.push hx
    · simp only [nextOf, linkNext_off hxt, modify_self]
    · simp only [prevOf, linkNext_off hxt, modify_self]
    · intro y _ he
      simp only [nextOf, linkNext_at he]
    · intro y hy he
      simp only [nextOf, linkNext_off he, modify_of_ne _ (ne_of_mem_of_not_mem hy hx)]
    · intro y hy
      simp only [prevOf, prev_linkNext, modify_of_ne _ (ne_of_mem_of_not_mem hy hx)]
  · intro s hs
    simp only [List.mem_append, List.mem_singleton, not_or] at hs
    have hst : some s ≠ level.tail := by
      rw [q.tail_eq]
      exact fun h => hs.1 (List.mem_of_getLast? h.symm)
    rw [linkNext_off hst, modify_of_ne _ hs.2]
  · intro s
    rw [data_linkNext]
    exact data_modify (fun o => by rfl) s

theorem remove_spec (q : Queue (nextOf orders) (prevOf orders) level.head level.tail (as ++ x :: bs)) :
    Queue (nextOf (level.remove orders x).2) (prevOf (level.remove orders x).2)
        (level.remove orders x).1.head (level.remove orders x).1.tail (as ++ bs) ∧
      Relinked orders (level.remove orders x).2 (as ++ x :: bs) ∧
      (level.remove orders x).1.price = level.price ∧
      (level.remove orders x).1.totalQuantity =
        wrapSub level.totalQuantity (orders x).remainingQuantity := by
  have hnext : (orders x).next = bs.head? := q.next_eq
  have hprev : (orders x).prev = as.getLast? := q.prev_eq
  have hd := q.nodup
  have hxa : x ∉ as := fun h => (List.nodup_append.mp hd).2.2 x h x (by simp) rfl
  have hxb : x ∉ bs := (List.nodup_cons.mp (List.nodup_append.mp hd).2.1).1
  have hab : ∀ y ∈ as, y ∉ bs := fun y hy h =>
    (List.nodup_append.mp hd).2.2 y hy y (List.mem_cons_of_mem _ h) rfl
  have hxl : some x ≠ as.getLast? := fun h => hxa (List.mem_of_getLast? h.symm)
  have hxh : some x ≠ bs.head? := fun h => hxb (List.mem_of_head? h.symm)
  have hhead : (if as.getLast?.isSome then level.head else bs.head?) = as.head?.or bs.head? := by
    rw [q.head_eq]
    cases as <;> simp
  have htail : (if bs.head?.isSome then level.tail else as.getLast?) = bs.getLast?.or as.getLast? := by
    rw [q.tail_eq]
    cases bs <;> simp [List.getLast?_cons]
  simp only [remove, hnext, hprev, hhead, htail, linkNext_off hxl, linkPrev_off hxh]
  refine ⟨q.remove ?_ ?_ ?_ ?_ ?_ ?_, ⟨?_, ?_⟩, trivial, trivial⟩
  · intro y hy he
    simp only [nextOf, modify_of_ne _ (ne_of_mem_of_not_mem hy hxa), next_linkPrev, linkNext_at he]
  · intro y hy he
    simp only [prevOf, modify_of_ne _ (ne_of_mem_of_not_mem hy hxb), linkPrev_at he]
  · intro y hy he
    simp only [nextOf, modify_of_ne _ (ne_of_mem_of_not_mem hy hxa), next_linkPrev, linkNext_off he]
  · intro y hy
    have hya : some y ≠ as.getLast? := fun h => hab y (List.mem_of_getLast? h.symm) hy
    simp only [nextOf, modify_of_ne _ (ne_of_mem_of_not_mem hy hxb), next_linkPrev, linkNext_off hya]
  · intro y hy
    have hyb : some y ≠ bs.head? := fun h => hab y hy (List.mem_of_head? h.symm)
    simp only [prevOf, modify_of_ne _ (ne_of_mem_of_not_mem hy hxa), linkPrev_off hyb, prev_linkNext]
  · intro y hy he
    simp only [prevOf, modify_of_ne _ (ne_of_mem_of_not_mem hy hxb), linkPrev_off he, prev_linkNext]
  · intro s hs
    simp only [List.mem_append, List.mem_cons, not_or] at hs
    have hsa : some s ≠ as.getLast? := fun h => hs.1 (List.mem_of_getLast? h.symm)
    have hsb : some s ≠ bs.head? := fun h => hs.2.2 (List.mem_of_head? h.symm)
    rw [modify_of_ne _ hs.2.1, linkPrev_off hsb, linkNext_off hsa]
  · intro s
    rw [data_modify (fun o => by rfl), data_linkPrev, data_linkNext]

end PriceLevel

end Sixchange
