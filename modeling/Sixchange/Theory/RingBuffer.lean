import Mathlib.Data.List.Basic
import Mathlib.Logic.Function.Basic

/-!
A buffer of `n` cells that holds the last items of a growing list, item `i` in the cell numbered
`base + i` modulo `n`.
-/

namespace RingBuffer

variable {α : Type} {n base first : ℕ} {cell : ℕ → α} {items : List α}

def Holds (n base : ℕ) (cell : ℕ → α) (items : List α) (first : ℕ) : Prop :=
  ∀ i, first ≤ i → i < items.length → items[i]? = some (cell ((base + i) % n))

theorem mod_ne {i j : ℕ} (hij : i < j) (hlt : j < i + n) : i % n ≠ j % n := by
  intro he
  have hdvd : n ∣ j - i := Nat.dvd_of_mod_eq_zero (Nat.sub_mod_eq_zero_of_mod_eq he.symm)
  have hle := Nat.le_of_dvd (Nat.sub_pos_of_lt hij) hdvd
  omega

theorem Holds.nil : Holds n base cell [] first := fun i _ hlt => absurd hlt (Nat.not_lt_zero i)

theorem Holds.advance (h : Holds n base cell items first) : Holds n base cell items (first + 1) :=
  fun i hi hlt => h i (Nat.le_of_succ_le hi) hlt

theorem Holds.write (h : Holds n base cell items first) (hroom : items.length < first + n) (a : α) :
    Holds n base (Function.update cell ((base + items.length) % n) a) items first := by
  intro i hi hlt
  rw [Function.update_of_ne, h i hi hlt]
  exact mod_ne (by omega) (by omega)

theorem Holds.publish (h : Holds n base cell items first) :
    Holds n base cell (items ++ [cell ((base + items.length) % n)]) first := by
  intro i hi hlt
  rw [List.length_append, List.length_singleton] at hlt
  rcases Nat.lt_succ_iff_lt_or_eq.mp hlt with hlt | rfl
  · rw [List.getElem?_append_left hlt, h i hi hlt]
  · rw [List.getElem?_concat_length]

end RingBuffer
