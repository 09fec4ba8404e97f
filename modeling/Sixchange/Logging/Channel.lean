import Sixchange.Model.SpscRing
import Sixchange.Theory.RingBuffer

namespace Sixchange.SpscRing

variable {α : Type} {capacity start : ℕ} {ring : SpscRing α} {pushed popped : List α}

def Sized (capacity : ℕ) : Prop := ∃ k, k ≤ 63 ∧ capacity = 2 ^ k

theorem Sized.lt_word (h : Sized capacity) : capacity < word := by
  obtain ⟨k, hk, rfl⟩ := h
  exact Nat.pow_lt_pow_right (by decide) (by omega)

theorem Sized.slot_eq (h : Sized capacity) (n : ℕ) : n % word &&& mask capacity = n % capacity := by
  obtain ⟨k, hk, rfl⟩ := h
  rw [mask, Nat.and_two_pow_sub_one_eq_mod]
  exact Nat.mod_mod_of_dvd n (Nat.pow_dvd_pow 2 (by omega))

theorem wrapSub_counters {a b : ℕ} (h : b ≤ a) (hlt : a - b < word) :
    wrapSub (a % word) (b % word) = a - b := by
  have hw : word = 18446744073709551616 := rfl
  simp only [wrapSub, hw] at *
  omega

theorem counters_ne {a b : ℕ} (h : b < a) (hlt : a - b < word) : b % word ≠ a % word := by
  have hw : word = 18446744073709551616 := rfl
  rw [hw] at hlt ⊢
  omega

def PushOk (capacity : ℕ) (ring : SpscRing α) (pushed popped : List α) : Push α → Prop
  | .loadHead _ => True
  | .loadTail _ head => head = ring.head
  | .writeSlot _ head => head = ring.head ∧ pushed.length < popped.length + capacity
  | .storeHead value head => head = ring.head ∧ pushed.length < popped.length + capacity ∧
      ring.storage (head &&& mask capacity) = value

def PopOk (ring : SpscRing α) (pushed popped : List α) : Pop α → Prop
  | .loadTail => True
  | .loadHead tail => tail = ring.tail
  | .readSlot tail => tail = ring.tail ∧ popped.length < pushed.length
  | .storeTail tail value => tail = ring.tail ∧ pushed[popped.length]? = some value

/-- The ring between two threads; `start` is where both counters started. -/
structure Channel (capacity start : ℕ) (ring : SpscRing α) (pushed popped : List α) (push : Option (Push α))
    (pop : Option (Pop α)) : Prop where
  head_eq : ring.head = (start + pushed.length) % word
  tail_eq : ring.tail = (start + popped.length) % word
  fifo : popped <+: pushed
  held_le : pushed.length ≤ popped.length + capacity
  cells : RingBuffer.Holds capacity start ring.storage pushed popped.length
  push_ok : ∀ call ∈ push, PushOk capacity ring pushed popped call
  pop_ok : ∀ call ∈ pop, PopOk ring pushed popped call

namespace Channel

variable {push : Option (Push α)} {pop : Option (Pop α)} {call : Push α} {call' : Pop α}

theorem held_eq (h : Channel capacity start ring pushed popped push pop) (hsize : Sized capacity) :
    wrapSub ring.head ring.tail = pushed.length - popped.length := by
  have hle := h.held_le
  have hlt := hsize.lt_word
  have hlen := h.fifo.length_le
  rw [h.head_eq, h.tail_eq, wrapSub_counters (by omega) (by omega)]
  omega

theorem tail_eq_head_iff (h : Channel capacity start ring pushed popped push pop) (hsize : Sized capacity) :
    ring.tail = ring.head ↔ pushed.length = popped.length := by
  have hle := h.held_le
  have hlt := hsize.lt_word
  have hlen := h.fifo.length_le
  rw [h.head_eq, h.tail_eq]
  constructor
  · intro he
    by_contra hne
    exact counters_ne (by omega) (by omega) he
  · intro he
    rw [he]

theorem disjoint {value : α} {head tail : ℕ}
    (h : Channel capacity start ring pushed popped (some (.writeSlot value head)) (some (.readSlot tail)))
    (hsize : Sized capacity) : head &&& mask capacity ≠ tail &&& mask capacity := by
  obtain ⟨rfl, hroom⟩ := h.push_ok _ rfl
  obtain ⟨rfl, hheld⟩ := h.pop_ok _ rfl
  rw [h.head_eq, h.tail_eq, hsize.slot_eq, hsize.slot_eq]
  exact (RingBuffer.mod_ne (by omega) (by omega)).symm

theorem storage_head (h : Channel capacity start ring pushed popped push pop) (hsize : Sized capacity) :
    ring.head &&& mask capacity = (start + pushed.length) % capacity := by rw [h.head_eq, hsize.slot_eq]

theorem push_step (h : Channel capacity start ring pushed popped (some call) pop) (hsize : Sized capacity) :
    match tryPush capacity ring call with
    | (ring', .inl next) => Channel capacity start ring' pushed popped (some next) pop ∧ next.value = call.value
    | (ring', .inr true) => Channel capacity start ring' (pushed ++ [call.value]) popped none pop
    | (ring', .inr false) => Channel capacity start ring' pushed popped none pop ∧
        pushed.length = popped.length + capacity := by
  have hcall := h.push_ok call rfl
  have hnone : ∀ call' : Push α, call' ∈ (none : Option (Push α)) → PushOk capacity ring pushed popped call' := by
    rintro call' ⟨⟩
  cases call with
  | loadHead value =>
    refine ⟨{ h with push_ok := ?_ }, rfl⟩
    rintro _ ⟨⟩
    rfl
  | loadTail value head =>
    obtain rfl : head = ring.head := hcall
    have hheld := h.held_eq hsize
    have hlen := h.fifo.length_le
    have hle := h.held_le
    rw [tryPush]
    split_ifs with hfull
    · exact ⟨{ h with push_ok := hnone }, by omega⟩
    · refine ⟨{ h with push_ok := ?_ }, rfl⟩
      rintro _ ⟨⟩
      exact ⟨rfl, by omega⟩
  | writeSlot value head =>
    obtain ⟨rfl, hroom⟩ := hcall
    have hcells := h.cells.write hroom value
    refine ⟨{ h with cells := ?_, push_ok := ?_, pop_ok := ?_ }, rfl⟩
    · rw [h.storage_head hsize]
      exact hcells
    · rintro _ ⟨⟩
      exact ⟨rfl, hroom, Function.update_self ..⟩
    · intro call hcall
      have := h.pop_ok call hcall
      cases call <;> exact this
  | storeHead value head =>
    obtain ⟨rfl, hroom, hvalue⟩ := hcall
    have hcells := h.cells.publish
    rw [← h.storage_head hsize, hvalue] at hcells
    have hlen : (pushed ++ [value]).length = pushed.length + 1 := List.length_append
    refine ⟨?_, h.tail_eq, h.fifo.trans (List.prefix_append _ _), ?_, hcells, ?_, ?_⟩
    · change wrapAdd ring.head 1 = (start + (pushed ++ [value]).length) % word
      rw [h.head_eq, wrapAdd_mod, hlen]
      rfl
    · change (pushed ++ [value]).length ≤ _
      omega
    · rintro _ ⟨⟩
    · intro call hcall
      have hok := h.pop_ok call hcall
      cases call with
      | loadTail => trivial
      | loadHead tail => exact hok
      | readSlot tail => exact ⟨hok.1, Nat.lt_of_lt_of_eq (Nat.lt_succ_of_lt hok.2) hlen.symm⟩
      | storeTail tail value' =>
        refine ⟨hok.1, ?_⟩
        obtain ⟨hlt, -⟩ := List.getElem?_eq_some_iff.mp hok.2
        exact (List.getElem?_append_left hlt).trans hok.2

theorem pop_step (h : Channel capacity start ring pushed popped push (some call')) (hsize : Sized capacity) :
    match tryPop capacity ring call' with
    | (ring', .inl next) => Channel capacity start ring' pushed popped push (some next)
    | (ring', .inr (some value)) => Channel capacity start ring' pushed (popped ++ [value]) push none
    | (ring', .inr none) => Channel capacity start ring' pushed popped push none ∧ pushed = popped := by
  have hcall := h.pop_ok call' rfl
  have hnone : ∀ next : Pop α, next ∈ (none : Option (Pop α)) → PopOk ring pushed popped next := by
    rintro next ⟨⟩
  cases call' with
  | loadTail =>
    refine { h with pop_ok := ?_ }
    rintro _ ⟨⟩
    rfl
  | loadHead tail =>
    obtain rfl : tail = ring.tail := hcall
    rw [tryPop]
    split_ifs with hempty
    · have hlen := (h.tail_eq_head_iff hsize).mp hempty
      exact ⟨{ h with pop_ok := hnone }, (h.fifo.eq_of_length hlen.symm).symm⟩
    · refine { h with pop_ok := ?_ }
      rintro _ ⟨⟩
      have hne := mt (h.tail_eq_head_iff hsize).mpr hempty
      have hlen := h.fifo.length_le
      exact ⟨rfl, by omega⟩
  | readSlot tail =>
    obtain ⟨rfl, hlt⟩ := hcall
    refine { h with pop_ok := ?_ }
    rintro _ ⟨⟩
    refine ⟨rfl, ?_⟩
    rw [h.cells popped.length (Nat.le_refl _) hlt, h.tail_eq, hsize.slot_eq]
  | storeTail tail value =>
    obtain ⟨rfl, hvalue⟩ := hcall
    obtain ⟨hlt, hget⟩ := List.getElem?_eq_some_iff.mp hvalue
    have hlen : (popped ++ [value]).length = popped.length + 1 := List.length_append
    have hle := h.held_le
    refine ⟨h.head_eq, ?_, ?_, ?_, ?_, ?_, ?_⟩
    · change wrapAdd ring.tail 1 = (start + (popped ++ [value]).length) % word
      rw [h.tail_eq, wrapAdd_mod, hlen]
      rfl
    · obtain ⟨rest, rfl⟩ := h.fifo
      cases rest with
      | nil => simp at hlt
      | cons v rest =>
        obtain rfl : v = value := by simpa using hvalue
        exact ⟨rest, List.append_assoc ..⟩
    · rw [hlen]
      omega
    · rw [hlen]
      exact h.cells.advance
    · intro call hcall
      have hok := h.push_ok call hcall
      cases call with
      | loadHead value => trivial
      | loadTail value head => exact hok
      | writeSlot value' head => exact ⟨hok.1, by rw [hlen]; omega⟩
      | storeHead value' head => exact ⟨hok.1, by rw [hlen]; omega, hok.2.2⟩
    · rintro _ ⟨⟩

theorem initial (storage : ℕ → α) {counter : ℕ} (hcounter : counter < word) :
    Channel capacity counter { storage, head := counter, tail := counter } [] [] none none where
  head_eq := (Nat.mod_eq_of_lt hcounter).symm
  tail_eq := (Nat.mod_eq_of_lt hcounter).symm
  fifo := List.prefix_rfl
  held_le := Nat.zero_le _
  cells := .nil
  push_ok := by rintro call ⟨⟩
  pop_ok := by rintro call ⟨⟩

theorem begin_push (h : Channel capacity start ring pushed popped none pop) (value : α) :
    Channel capacity start ring pushed popped (some (.loadHead value)) pop := by
  refine { h with push_ok := ?_ }
  rintro _ ⟨⟩
  trivial

theorem begin_pop (h : Channel capacity start ring pushed popped push none) :
    Channel capacity start ring pushed popped push (some .loadTail) := by
  refine { h with pop_ok := ?_ }
  rintro _ ⟨⟩
  trivial

end Channel

end Sixchange.SpscRing
