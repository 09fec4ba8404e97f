import Sixchange.Model.FixedOrderMap
import Sixchange.Theory.LinearProbing
import Mathlib.Data.List.Perm.Basic
import Mathlib.Data.List.Nodup
import Mathlib.Tactic.Ring

namespace Sixchange.FixedOrderMap

open LinearProbing
open scoped List

variable {K V : Type}

def pair? (e : Entry K V) : Option (K × V) := if e.occupied then some (e.key, e.value) else none

def pairs (n : ℕ) (entries : ℕ → Entry K V) : List (K × V) :=
  (List.range n).filterMap (fun i => pair? (entries i))

def homes (bucket : K → ℕ) (entries : ℕ → Entry K V) (i : ℕ) : Option ℕ :=
  if (entries i).occupied then some (bucket (entries i).key) else none

@[simp] theorem pair?_empty [Inhabited K] [Inhabited V] : pair? (Entry.empty : Entry K V) = none := rfl

@[simp] theorem pair?_mk (k : K) (v : V) : pair? ⟨k, v, true⟩ = some (k, v) := rfl

theorem pair?_occupied {e : Entry K V} (h : e.occupied = true) : pair? e = some (e.key, e.value) := if_pos h

theorem pair?_free {e : Entry K V} (h : e.occupied = false) : pair? e = none := by simp [pair?, h]

theorem pairs_update (n i : ℕ) (entries : ℕ → Entry K V) (e : Entry K V) (hi : i < n) :
    (pairs n (Function.update entries i e) ++ (pair? (entries i)).toList).Perm
      (pairs n entries ++ (pair? e).toList) := by
  induction n with
  | zero => omega
  | succ n ih =>
    have hsucc : ∀ f : ℕ → Entry K V, pairs (n + 1) f = pairs n f ++ (pair? (f n)).toList := by
      intro f
      simp only [pairs, List.range_succ, List.filterMap_append]
      cases h : pair? (f n) <;> simp [h]
    rw [hsucc, hsucc]
    by_cases hin : i = n
    · subst hin
      have he : pairs i (Function.update entries i e) = pairs i entries := by
        apply List.filterMap_congr
        intro j hj
        rw [Function.update_of_ne (by have := List.mem_range.mp hj; omega)]
      rw [he, Function.update_self]
      simp only [List.append_assoc]
      exact List.Perm.append_left _ List.perm_append_comm
    · rw [Function.update_of_ne (Ne.symm hin)]
      have h := ih (by omega)
      simp only [List.append_assoc] at h ⊢
      calc pairs n (Function.update entries i e) ++ ((pair? (entries n)).toList ++ (pair? (entries i)).toList)
          _ ~ pairs n (Function.update entries i e) ++ ((pair? (entries i)).toList ++ (pair? (entries n)).toList) :=
            List.Perm.append_left _ List.perm_append_comm
          _ = (pairs n (Function.update entries i e) ++ (pair? (entries i)).toList) ++ (pair? (entries n)).toList := by
            rw [List.append_assoc]
          _ ~ (pairs n entries ++ (pair? e).toList) ++ (pair? (entries n)).toList := List.Perm.append_right _ h
          _ = pairs n entries ++ ((pair? e).toList ++ (pair? (entries n)).toList) := List.append_assoc ..
          _ ~ pairs n entries ++ ((pair? (entries n)).toList ++ (pair? e).toList) :=
            List.Perm.append_left _ List.perm_append_comm

theorem mem_pairs {n : ℕ} {entries : ℕ → Entry K V} {k : K} {v : V} :
    (k, v) ∈ pairs n entries ↔
      ∃ i < n, (entries i).occupied = true ∧ (entries i).key = k ∧ (entries i).value = v := by
  simp only [pairs, List.mem_filterMap, List.mem_range, pair?]
  constructor
  · rintro ⟨i, hi, h⟩
    split at h
    · next ho => exact ⟨i, hi, ho, by simpa using h⟩
    · cases h
  · rintro ⟨i, hi, ho, rfl, rfl⟩
    exact ⟨i, hi, by simp [ho]⟩

theorem slot_unique {n i j : ℕ} {entries : ℕ → Entry K V}
    (hd : ((pairs n entries).map Prod.fst).Nodup) (hi : i < n) (hj : j < n)
    (hio : (entries i).occupied = true) (hjo : (entries j).occupied = true)
    (hk : (entries i).key = (entries j).key) : i = j := by
  have hpw : (List.range n).Pairwise (fun a b => ∀ x, pair? (entries a) = some x →
      ∀ y, pair? (entries b) = some y → x.1 ≠ y.1) := by
    rw [List.Nodup, List.pairwise_map] at hd
    exact List.pairwise_filterMap.mp hd
  by_contra hij
  have hab : ∀ a b, a < b → b < n → (entries a).occupied = true → (entries b).occupied = true →
      (entries a).key ≠ (entries b).key := by
    intro a b hab hb hao hbo
    rw [List.pairwise_iff_getElem] at hpw
    have := hpw a b (by simpa using hab.trans hb) (by simpa using hb) hab
    simp only [List.getElem_range] at this
    exact this _ (pair?_occupied hao) _ (pair?_occupied hbo)
  rcases Nat.lt_or_gt_of_ne hij with h | h
  · exact hab i j h hj hio hjo hk
  · exact hab j i h hi hjo hio hk.symm

def Shape (m : FixedOrderMap K V) : Prop := ∃ k < 64, m.capacity = 2 ^ k ∧ m.mask = m.capacity - 1

theorem Shape.nextBucket {m : FixedOrderMap K V} (hs : Shape m) (i : ℕ) :
    m.nextBucket i = next m.capacity i := by
  obtain ⟨k, -, hc, hm⟩ := hs
  rw [FixedOrderMap.nextBucket, next, hm, hc, Nat.and_two_pow_sub_one_eq_mod]

theorem Shape.probeDistance {m : FixedOrderMap K V} (hs : Shape m) {i : ℕ} (j : ℕ) (hi : i < m.capacity) :
    m.probeDistance i j = distance m.capacity i j := by
  obtain ⟨k, hk, hc, hm⟩ := hs
  have hpow : word = 2 ^ k * 2 ^ (64 - k) := by
    rw [word, ← pow_add]
    congr 1
    omega
  have hle : 2 ^ k ≤ word := Nat.pow_le_pow_right (by omega) (by omega)
  rw [FixedOrderMap.probeDistance, distance, hm, hc, Nat.and_two_pow_sub_one_eq_mod,
    Nat.mod_mod_of_dvd _ ⟨_, hpow⟩]
  rw [hc] at hi
  have he : j + word - i = (j + 2 ^ k - i) + 2 ^ k * (2 ^ (64 - k) - 1) := by
    have : 2 ^ k * (2 ^ (64 - k) - 1) = word - 2 ^ k := by rw [Nat.mul_sub, ← hpow, Nat.mul_one]
    omega
  rw [he, Nat.add_mul_mod_self_left]

theorem length_pairs_le (n : ℕ) (entries : ℕ → Entry K V) : (pairs n entries).length ≤ n :=
  (List.length_filterMap_le _ _).trans (by simp)

theorem length_pairs_full {n : ℕ} {entries : ℕ → Entry K V}
    (h : ∀ j < n, (entries j).occupied = true) : (pairs n entries).length = n := by
  have he : pairs n entries = (List.range n).filterMap
      (some ∘ fun i => ((entries i).key, (entries i).value)) :=
    List.filterMap_congr (fun i hi => pair?_occupied (h i (List.mem_range.mp hi)))
  rw [he, List.filterMap_eq_map, List.length_map, List.length_range]

theorem homes_update (bucket : K → ℕ) (entries : ℕ → Entry K V) (i : ℕ) (e : Entry K V) :
    homes bucket (Function.update entries i e) =
      Function.update (homes bucket entries) i (if e.occupied then some (bucket e.key) else none) := by
  funext j
  by_cases hji : j = i
  · subst hji; simp [homes]
  · simp [homes, Function.update_of_ne hji]

theorem homes_none {bucket : K → ℕ} {entries : ℕ → Entry K V} {i : ℕ} :
    homes bucket entries i = none ↔ (entries i).occupied = false := by
  simp [homes]

structure Represents (bucket : K → ℕ) (m : FixedOrderMap K V) (l : List (K × V)) : Prop where
  shape : Shape m
  bucket_lt : ∀ key, bucket key < m.capacity
  probing : ∃ boundary, Probing m.capacity (homes bucket m.entries) boundary
  perm : pairs m.capacity m.entries ~ l
  keys : (l.map Prod.fst).Nodup
  size : m.size = l.length

namespace Represents

variable {bucket : K → ℕ} {m : FixedOrderMap K V} {l : List (K × V)}

theorem of_perm (r : Represents bucket m l) {l' : List (K × V)} (h : l ~ l') :
    Represents bucket m l' :=
  ⟨r.shape, r.bucket_lt, r.probing, r.perm.trans h, (h.map Prod.fst).nodup_iff.mp r.keys,
    r.size.trans h.length_eq⟩

theorem nodup_pairs (r : Represents bucket m l) : ((pairs m.capacity m.entries).map Prod.fst).Nodup :=
  (r.perm.map Prod.fst).nodup_iff.mpr r.keys

theorem mem_iff (r : Represents bucket m l) {k : K} {v : V} :
    (k, v) ∈ l ↔ ∃ i < m.capacity, (m.entries i).occupied = true ∧ (m.entries i).key = k ∧
      (m.entries i).value = v := by
  rw [← r.perm.mem_iff, mem_pairs]

theorem key_mem (r : Represents bucket m l) {i : ℕ} (hi : i < m.capacity)
    (ho : (m.entries i).occupied = true) : (m.entries i).key ∈ l.map Prod.fst :=
  List.mem_map.mpr ⟨_, r.mem_iff.mpr ⟨i, hi, ho, rfl, rfl⟩, rfl⟩

theorem length_le (r : Represents bucket m l) : l.length ≤ m.capacity :=
  r.perm.length_eq ▸ length_pairs_le m.capacity m.entries

end Represents

end Sixchange.FixedOrderMap
