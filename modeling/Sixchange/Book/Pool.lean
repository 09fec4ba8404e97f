import Sixchange.Book.LevelQueue

namespace Sixchange

open LinkedQueue

structure PoolInv (pool : OrderPool) (held free : List Slot) : Prop where
  slots : (held ++ free).Perm (List.range pool.size)
  size_le : pool.size ≤ pool.capacity
  freeHead_eq : pool.freeHead = free.head?
  freeChain : Chain (nextOf pool.orders) free

namespace PoolInv

variable {pool : OrderPool} {held held' free : List Slot}

theorem create (capacity : ℕ) : PoolInv (.create capacity) [] [] :=
  ⟨List.Perm.refl _, Nat.zero_le _, rfl, trivial⟩

theorem nodup (h : PoolInv pool held free) : (held ++ free).Nodup :=
  h.slots.nodup_iff.mpr List.nodup_range

theorem length_eq (h : PoolInv pool held free) : held.length + free.length = pool.size := by
  simpa using h.slots.length_eq

theorem not_free (h : PoolInv pool held free) {s : Slot} (hs : s ∈ held) : s ∉ free := fun hf =>
  (List.nodup_append.mp h.nodup).2.2 s hs s hf rfl

theorem of_perm (h : PoolInv pool held free) (hp : held.Perm held') : PoolInv pool held' free :=
  ⟨(hp.append_right free).symm.trans h.slots, h.size_le, h.freeHead_eq, h.freeChain⟩

theorem write (h : PoolInv pool held free) {orders : Slot → Order}
    (ho : ∀ s ∈ free, (orders s).next = (pool.orders s).next) :
    PoolInv { pool with orders } held free :=
  ⟨h.slots, h.size_le, h.freeHead_eq, h.freeChain.frame ho⟩

theorem allocate_full (h : PoolInv pool held []) (hfull : pool.size = pool.capacity) :
    pool.allocate = (none, pool) ∧ held.length = pool.capacity := by
  have hlen := h.length_eq
  rw [List.length_nil, Nat.add_zero] at hlen
  refine ⟨?_, hlen.trans hfull⟩
  simp only [OrderPool.allocate, h.freeHead_eq, List.head?_nil, hfull, ↓reduceIte]

theorem allocate_extends (h : PoolInv pool held []) (hsize : pool.size ≠ pool.capacity) :
    pool.allocate = (some pool.size, { pool with size := pool.size + 1 }) ∧ held.length = pool.size ∧
      pool.size ∉ held ∧ PoolInv { pool with size := pool.size + 1 } (pool.size :: held) [] := by
  have hslots : held.Perm (List.range pool.size) := by simpa using h.slots
  have hle := h.size_le
  refine ⟨?_, by simpa using hslots.length_eq, ?_, ?_, by dsimp only; omega, h.freeHead_eq, trivial⟩
  · simp only [OrderPool.allocate, h.freeHead_eq, List.head?_nil, if_neg hsize]
  · intro hm
    have := List.mem_range.mp (hslots.mem_iff.mp hm)
    omega
  · rw [List.append_nil, List.range_succ]
    exact (hslots.cons _).trans (List.perm_append_singleton _ _).symm

theorem allocate_reuses {x : Slot} (h : PoolInv pool held (x :: free)) :
    pool.allocate.1 = some x ∧ pool.allocate.2.size = pool.size ∧ pool.allocate.2.capacity = pool.capacity ∧
      pool.allocate.2.orders x = {} ∧ (∀ s, s ≠ x → pool.allocate.2.orders s = pool.orders s) ∧
      held.length < pool.size ∧ x ∉ held ∧ PoolInv pool.allocate.2 (x :: held) free := by
  have hlen := h.length_eq
  have hxh : x ∉ held := fun hm => h.not_free hm (List.mem_cons_self ..)
  have hxf : x ∉ free := (List.nodup_cons.mp (List.nodup_append.mp h.nodup).2.1).1
  have hperm : (x :: held ++ free).Perm (held ++ x :: free) := List.perm_middle.symm
  obtain ⟨hx, hchain⟩ := h.freeChain
  simp only [OrderPool.allocate, h.freeHead_eq, List.head?_cons]
  refine ⟨trivial, trivial, trivial, modify_self .., fun s hs => modify_of_ne _ hs, ?_, hxh,
    hperm.trans h.slots, h.size_le, hx, ?_⟩
  · rw [List.length_cons] at hlen
    omega
  · apply hchain.frame
    intro s hs
    simp only [nextOf, modify_of_ne _ (ne_of_mem_of_not_mem hs hxf)]

theorem allocate_spec (h : PoolInv pool held free) :
    match pool.allocate with
    | (none, pool') => pool' = pool ∧ held.length = pool.capacity
    | (some x, pool') => held.length < pool.capacity ∧ x ∉ held ∧ pool'.capacity = pool.capacity ∧
        (∀ s, s ≠ x → pool'.orders s = pool.orders s) ∧ ∃ free', PoolInv pool' (x :: held) free' := by
  have hle := h.size_le
  cases free with
  | nil =>
    by_cases hfull : pool.size = pool.capacity
    · obtain ⟨heq, hlen⟩ := h.allocate_full hfull
      rw [heq]
      exact ⟨rfl, hlen⟩
    · obtain ⟨heq, hlen, hfresh, hinv⟩ := h.allocate_extends hfull
      rw [heq]
      exact ⟨by omega, hfresh, rfl, fun s _ => rfl, [], hinv⟩
  | cons x free =>
    obtain ⟨hsome, -, hcap, -, hframe, hlen, hfresh, hinv⟩ := h.allocate_reuses
    generalize pool.allocate = answer at hsome hcap hframe hinv
    obtain ⟨_, pool'⟩ := answer
    obtain rfl : _ = some x := hsome
    exact ⟨by omega, hfresh, hcap, hframe, free, hinv⟩

theorem release_spec {x : Slot} (h : PoolInv pool (x :: held) free) :
    PoolInv (pool.release x) held (x :: free) ∧
      ∀ s, s ≠ x → (pool.release x).orders s = pool.orders s := by
  have hxf : x ∉ free := h.not_free (by simp)
  refine ⟨⟨?_, h.size_le, rfl, ?_, ?_⟩, fun s hs => by simp only [OrderPool.release, modify_of_ne _ hs]⟩
  · exact List.perm_middle.trans h.slots
  · simp only [OrderPool.release, nextOf, modify_self, h.freeHead_eq]
  · apply h.freeChain.frame
    intro s hs
    simp only [OrderPool.release, nextOf, modify_of_ne _ (ne_of_mem_of_not_mem hs hxf)]

end PoolInv

end Sixchange
