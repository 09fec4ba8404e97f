import Mathlib.Order.Bounds.Basic
import Sixchange.Book.Pool
import Sixchange.Theory.Transducer

namespace Sixchange

open Transducer

inductive PoolCall
  | allocate
  | release (order : Slot)
  | write (order : Slot) (value : Order)
  deriving DecidableEq, Repr

structure PoolUse where
  pool : OrderPool
  held : List Slot
  released : List Slot

namespace PoolUse

def start (capacity : ℕ) : PoolUse := { pool := .create capacity, held := [], released := [] }

variable (use : PoolUse)

/-- A user who does not hold the slot that he releases or writes to fails. -/
def step : PoolCall → Except Slot (PoolUse × Option Slot)
  | .allocate =>
    match use.pool.allocate with
    | (none, pool) => .ok ({ use with pool }, none)
    | (some order, pool) =>
      .ok ({ pool, held := order :: use.held, released := use.released.erase order }, some order)
  | .release order =>
    if order ∈ use.held then
      .ok ({ pool := use.pool.release order, held := use.held.erase order, released := order :: use.released }, none)
    else .error order
  | .write order value =>
    if order ∈ use.held then
      .ok ({ use with pool := { use.pool with orders := modify use.pool.orders order fun _ => value } }, none)
    else .error order

structure Exclusive (capacity : ℕ) : Prop where
  held_nodup : use.held.Nodup
  held_lt : ∀ s ∈ use.held, s < capacity
  allocate_none : use.pool.allocate.1 = none ↔ use.held.length = capacity
  allocate_fresh : ∀ x, use.pool.allocate.1 = some x → x ∉ use.held ∧ use.pool.allocate.2.orders x = {}
  allocate_last : ∀ x xs, use.released = x :: xs → use.pool.allocate.1 = some x
  allocate_frame : ∀ s ∈ use.held, use.pool.allocate.2.orders s = use.pool.orders s
  release_frame : ∀ x ∈ use.held, ∀ s ∈ use.held, s ≠ x → (use.pool.release x).orders s = use.pool.orders s

/-- The free list is what came back, and the slots above the bump counter were never written. -/
structure Kept (capacity : ℕ) : Prop where
  pool : PoolInv use.pool use.held use.released
  capacity_eq : use.pool.capacity = capacity
  untouched : ∀ s, use.pool.size ≤ s → use.pool.orders s = {}

variable {use : PoolUse} {capacity : ℕ}

theorem Kept.start : (start capacity).Kept capacity := ⟨.create capacity, rfl, fun _ _ => rfl⟩

theorem Kept.lt_size (h : use.Kept capacity) {s : Slot} (hs : s ∈ use.held) : s < use.pool.size :=
  List.mem_range.mp (h.pool.slots.mem_iff.mp (List.mem_append_left _ hs))

theorem Kept.allocate (h : use.Kept capacity) {use' : PoolUse} {answer : Option Slot}
    (hstep : use.step .allocate = .ok (use', answer)) :
    use'.Kept capacity ∧ use'.pool.size = max use'.held.length use.pool.size := by
  have hlen := h.pool.length_eq
  obtain ⟨pool, held, released⟩ := use
  cases released with
  | nil =>
    by_cases hfull : pool.size = pool.capacity
    · obtain ⟨heq, -⟩ := h.pool.allocate_full hfull
      simp only [PoolUse.step, heq] at hstep
      obtain ⟨rfl, -⟩ := Prod.mk.inj (Except.ok.inj hstep)
      refine ⟨h, ?_⟩
      dsimp only at hlen ⊢
      omega
    · obtain ⟨heq, hheld, -, hinv⟩ := h.pool.allocate_extends hfull
      simp only [PoolUse.step, heq] at hstep
      obtain ⟨rfl, -⟩ := Prod.mk.inj (Except.ok.inj hstep)
      refine ⟨⟨hinv, h.capacity_eq, fun s hs => h.untouched s (Nat.le_of_succ_le hs)⟩, ?_⟩
      simp only [List.length_cons]
      dsimp only at hheld
      omega
  | cons x free =>
    obtain ⟨hsome, hsize, hcap, -, hframe, hlt, -, hinv⟩ := h.pool.allocate_reuses
    have hx : x < pool.size := List.mem_range.mp (h.pool.slots.mem_iff.mp (by simp))
    dsimp only at hsome hsize hcap hframe hinv hlt
    simp only [PoolUse.step] at hstep
    generalize pool.allocate = result at hsome hsize hcap hframe hinv hstep
    obtain ⟨_, pool'⟩ := result
    obtain rfl : _ = some x := hsome
    obtain ⟨rfl, -⟩ := Prod.mk.inj (Except.ok.inj hstep)
    rw [List.erase_cons_head]
    refine ⟨⟨hinv, hcap.trans h.capacity_eq, fun s hs => ?_⟩, ?_⟩
    · have hs' : pool.size ≤ s := hsize ▸ hs
      rw [hframe s (hx.trans_le hs').ne']
      exact h.untouched s hs'
    · dsimp only [List.length_cons] at hsize ⊢
      omega

theorem Kept.release (h : use.Kept capacity) {order : Slot} (hheld : order ∈ use.held) :
    Kept { pool := use.pool.release order, held := use.held.erase order, released := order :: use.released }
      capacity := by
  obtain ⟨hinv, hframe⟩ := (h.pool.of_perm (List.perm_cons_erase hheld)).release_spec
  refine ⟨hinv, h.capacity_eq, fun s hs => ?_⟩
  rw [hframe s ((h.lt_size hheld).trans_le hs).ne']
  exact h.untouched s hs

theorem Kept.write (h : use.Kept capacity) {order : Slot} (hheld : order ∈ use.held) (value : Order) :
    Kept { use with pool := { use.pool with orders := modify use.pool.orders order fun _ => value } }
      capacity := by
  refine ⟨h.pool.write fun s hs => ?_, h.capacity_eq, fun s hs => ?_⟩
  · rw [modify_of_ne _ (ne_of_mem_of_not_mem hs (h.pool.not_free hheld))]
  · exact (modify_of_ne (fun _ => value) ((h.lt_size hheld).trans_le hs).ne').trans (h.untouched s hs)

theorem Kept.step (h : use.Kept capacity) {call : PoolCall} {use' : PoolUse} {answer : Option Slot}
    (hstep : use.step call = .ok (use', answer)) :
    use'.Kept capacity ∧ use'.pool.size = max use'.held.length use.pool.size := by
  have hlen := h.pool.length_eq
  cases call with
  | allocate => exact h.allocate hstep
  | release order =>
    rw [PoolUse.step] at hstep
    split at hstep
    · rename_i hheld
      obtain ⟨rfl, -⟩ := Prod.mk.inj (Except.ok.inj hstep)
      refine ⟨h.release hheld, ?_⟩
      have := List.length_erase_of_mem hheld
      simp only [OrderPool.release]
      omega
    · cases hstep
  | write order value =>
    rw [PoolUse.step] at hstep
    split at hstep
    · rename_i hheld
      obtain ⟨rfl, -⟩ := Prod.mk.inj (Except.ok.inj hstep)
      refine ⟨h.write hheld value, ?_⟩
      dsimp only
      omega
    · cases hstep

theorem Kept.exclusive (h : use.Kept capacity) : use.Exclusive capacity := by
  have hlen := h.pool.length_eq
  have hle := h.pool.size_le
  have hcap := h.capacity_eq
  have hrelease : ∀ x ∈ use.held, ∀ s ∈ use.held, s ≠ x → (use.pool.release x).orders s = use.pool.orders s :=
    fun x hx s _ hs => (h.pool.of_perm (List.perm_cons_erase hx)).release_spec.2 s hs
  have hnodup := (List.nodup_append.mp h.pool.nodup).1
  have hlt : ∀ s ∈ use.held, s < capacity := fun s hs =>
    (h.lt_size hs).trans_le (hle.trans hcap.le)
  obtain ⟨pool, held, released⟩ := use
  cases released with
  | nil =>
    by_cases hfull : pool.size = pool.capacity
    · obtain ⟨heq, hheld⟩ := h.pool.allocate_full hfull
      dsimp only at heq hheld hcap
      refine ⟨hnodup, hlt, ?_, ?_, ?_, ?_, hrelease⟩
      · simp only [heq, true_iff]
        omega
      · simp only [heq, reduceCtorEq, false_implies, implies_true]
      · simp
      · simp only [heq, implies_true]
    · obtain ⟨heq, hheld, hfresh, -⟩ := h.pool.allocate_extends hfull
      dsimp only at heq hheld hfresh hcap hle
      refine ⟨hnodup, hlt, ?_, ?_, ?_, ?_, hrelease⟩
      · simp only [heq, reduceCtorEq, false_iff]
        omega
      · rintro x hx
        rw [heq] at hx ⊢
        obtain rfl := Option.some.inj hx
        exact ⟨hfresh, h.untouched _ le_rfl⟩
      · simp
      · simp only [heq, implies_true]
  | cons x free =>
    obtain ⟨hsome, -, -, hdefault, hframe, hless, hfresh, -⟩ := h.pool.allocate_reuses
    dsimp only at hsome hdefault hframe hless hfresh hcap hle
    refine ⟨hnodup, hlt, ?_, ?_, ?_, ?_, hrelease⟩
    · simp only [hsome, reduceCtorEq, false_iff]
      omega
    · rintro y hy
      obtain rfl := Option.some.inj (hsome.symm.trans hy)
      exact ⟨hfresh, hdefault⟩
    · rintro y ys hys
      obtain ⟨rfl, -⟩ := List.cons_eq_cons.mp hys
      exact hsome
    · exact fun s hs => hframe s (ne_of_mem_of_not_mem hs hfresh)

theorem slots_exclusive (capacity : ℕ) (calls : List PoolCall) {use : PoolUse} {answers : List (Option Slot)}
    (h : run step (start capacity) calls = .ok (use, answers)) :
    use.Exclusive capacity ∧
      IsGreatest ((·.held.length) '' visited step (start capacity) calls) use.pool.allocatedSlots := by
  have hkept : use.Kept capacity ∧
      IsGreatest ((·.held.length) '' visited step (start capacity) calls) use.pool.size := by
    refine run_history (H := fun calls use => use.Kept capacity ∧
      IsGreatest ((·.held.length) '' visited step (start capacity) calls) use.pool.size) ?_ ?_ h
    · rw [visited_nil, Set.image_singleton]
      exact ⟨.start, isGreatest_singleton⟩
    · rintro calls answers use call use' answer hrun ⟨hkept, hmost⟩ hstep
      obtain ⟨hkept', hsize⟩ := hkept.step hstep
      rw [visited_concat hrun hstep, Set.image_insert_eq, hsize]
      exact ⟨hkept', hmost.insert use'.held.length⟩
  exact ⟨hkept.1.exclusive, hkept.2⟩

theorem slots_exclusive_reuse : ∃ use answers, run step (start 2)
      [.allocate, .write 0 { next := some 0 }, .allocate, .release 0, .allocate, .allocate] = .ok (use, answers) ∧
    answers = [some 0, none, some 1, none, some 0, none] ∧ use.Exclusive 2 ∧ use.pool.allocatedSlots = 2 := by
  obtain ⟨use, answers, hrun, hanswers, hslots⟩ : ∃ use answers, run step (start 2)
        [.allocate, .write 0 { next := some 0 }, .allocate, .release 0, .allocate, .allocate] = .ok (use, answers) ∧
      answers = [some 0, none, some 1, none, some 0, none] ∧ use.pool.allocatedSlots = 2 := ⟨_, _, rfl, rfl, rfl⟩
  exact ⟨use, answers, hrun, hanswers, (slots_exclusive 2 _ hrun).1, hslots⟩

end PoolUse

end Sixchange
