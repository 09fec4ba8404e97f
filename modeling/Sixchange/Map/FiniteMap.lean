import Sixchange.Map.Operations
import Sixchange.Theory.Transducer
import Mathlib.Data.Nat.Basic
import Mathlib.Data.List.AList

namespace Sixchange.FixedOrderMap

open scoped List

variable {K V : Type} [DecidableEq K]

inductive MapCall (K V : Type)
  | insert (key : K) (value : V)
  | find (key : K)
  | contains (key : K)
  | erase (key : K)
  | size
  deriving DecidableEq, Repr

inductive MapResult (V : Type)
  | insert (result : InsertResult)
  | find (value : Option V)
  | contains (present : Bool)
  | erase (erased : Bool)
  | size (size : ℕ)
  deriving DecidableEq, Repr

def reference (capacity : ℕ) (f : AList (fun _ : K => V)) : MapCall K V → AList (fun _ : K => V) × MapResult V
  | .insert key value =>
    if key ∈ f then (f, .insert .duplicateKey)
    else if f.keys.length = capacity then (f, .insert .full)
    else (f.insert key value, .insert .inserted)
  | .find key => (f, .find (f.lookup key))
  | .contains key => (f, .contains (decide (key ∈ f)))
  | .erase key => (f.erase key, .erase (decide (key ∈ f)))
  | .size => (f, .size f.keys.length)

def call [Inhabited K] [Inhabited V] (bucket : K → ℕ) (m : FixedOrderMap K V) :
    MapCall K V → FixedOrderMap K V × MapResult V
  | .insert key value => ((m.insert bucket key value).2, .insert (m.insert bucket key value).1)
  | .find key => (m, .find (m.find bucket key))
  | .contains key => (m, .contains (m.contains bucket key))
  | .erase key => ((m.erase bucket key).2, .erase (m.erase bucket key).1)
  | .size => (m, .size m.size)

def entriesOf (f : AList (fun _ : K => V)) : List (K × V) := f.entries.map (fun e => (e.1, e.2))

omit [DecidableEq K] in
theorem entriesOf_keys (f : AList (fun _ : K => V)) : (entriesOf f).map Prod.fst = f.keys := by
  simp [entriesOf, AList.keys, List.keys, Function.comp_def]

omit [DecidableEq K] in
theorem entriesOf_length (f : AList (fun _ : K => V)) : (entriesOf f).length = f.keys.length := by
  rw [← entriesOf_keys, List.length_map]

theorem mem_entriesOf {f : AList (fun _ : K => V)} {k : K} {v : V} :
    (k, v) ∈ entriesOf f ↔ f.lookup k = some v := by
  rw [← Option.mem_def, AList.mem_lookup_iff]
  simp only [entriesOf, List.mem_map]
  constructor
  · rintro ⟨⟨k', v'⟩, h, he⟩
    cases he
    exact h
  · exact fun h => ⟨⟨k, v⟩, h, rfl⟩

omit [DecidableEq K] in
theorem mem_keys_entriesOf {f : AList (fun _ : K => V)} {k : K} :
    k ∈ (entriesOf f).map Prod.fst ↔ k ∈ f := by
  rw [entriesOf_keys, AList.mem_keys]

theorem entriesOf_insert {f : AList (fun _ : K => V)} {k : K} (v : V) (hk : k ∉ f) :
    entriesOf (f.insert k v) = (k, v) :: entriesOf f := by
  simp only [entriesOf, AList.entries_insert_of_notMem hk, List.map_cons]

theorem entriesOf_erase {f : AList (fun _ : K => V)} {k : K} (hk : k ∈ f) :
    ∃ v, entriesOf f ~ (k, v) :: entriesOf (f.erase k) := by
  obtain ⟨v, l₁, l₂, -, he, hx⟩ := List.exists_of_kerase (AList.mem_keys.mp hk)
  refine ⟨v, ?_⟩
  have hx' : (f.erase k).entries = l₁ ++ l₂ := hx
  simp only [entriesOf, he, hx', List.map_append, List.map_cons]
  exact List.perm_middle

theorem erase_of_notMem {f : AList (fun _ : K => V)} {k : K} (hk : k ∉ f) : f.erase k = f :=
  AList.ext (List.kerase_of_notMem_keys (fun h => hk (AList.mem_keys.mpr h)))

theorem mixBucket_lt (k key : ℕ) : mixBucket (2 ^ k - 1) key < 2 ^ k := by
  rw [mixBucket, Nat.and_two_pow_sub_one_eq_mod]
  exact Nat.mod_lt _ (Nat.two_pow_pos k)

theorem hasSingleBit_iff {capacity : ℕ} : hasSingleBit capacity = true ↔ ∃ k, capacity = 2 ^ k := by
  rw [hasSingleBit, decide_eq_true_eq]
  exact Nat.ne_zero_and_sub_one_eq_zero_iff_isPowerOfTwo

variable [Inhabited K] [Inhabited V]

omit [DecidableEq K] in
theorem create_represents {capacity : ℕ} {bucket : K → ℕ} {m : FixedOrderMap K V}
    (hlt : capacity < word) (hm : create capacity = some m) (hb : ∀ key, bucket key < capacity) :
    Represents bucket m [] ∧ m.capacity = capacity ∧ m.mask = capacity - 1 := by
  rw [create] at hm
  split at hm
  · next hbit =>
    obtain ⟨k, hk⟩ := hasSingleBit_iff.mp hbit
    obtain rfl := Option.some.inj hm
    have hk64 : k < 64 := (Nat.pow_lt_pow_iff_right (by omega : 1 < 2)).mp (hk ▸ hlt)
    refine ⟨⟨⟨k, hk64, hk, rfl⟩, hb, ⟨0, ?_⟩, ?_, by simp, rfl⟩, rfl, rfl⟩
    · have he : homes bucket (fun _ => (Entry.empty : Entry K V)) = fun _ => none := by
        funext i
        rfl
      rw [he]
      exact LinearProbing.Probing.empty (by rw [hk]; exact Nat.two_pow_pos k)
    · simp [pairs]
  · cases hm

omit [DecidableEq K] in
theorem create_mixBucket_lt {capacity : ℕ} {m : FixedOrderMap K V} (hm : create capacity = some m) (key : ℕ) :
    mixBucket m.mask key < capacity := by
  rw [create] at hm
  split at hm
  · next hbit =>
    obtain ⟨k, rfl⟩ := hasSingleBit_iff.mp hbit
    obtain rfl := Option.some.inj hm
    exact mixBucket_lt k key
  · cases hm

theorem call_refines {capacity : ℕ} {bucket : K → ℕ} {m : FixedOrderMap K V}
    {f : AList (fun _ : K => V)} (c : MapCall K V) (hc : m.capacity = capacity)
    (r : Represents bucket m (entriesOf f)) :
    (m.call bucket c).2 = (reference capacity f c).2 ∧
      (m.call bucket c).1.capacity = capacity ∧
      Represents bucket (m.call bucket c).1 (entriesOf (reference capacity f c).1) := by
  cases c with
  | insert key value =>
    by_cases hk : key ∈ f
    · simp only [call, reference, r.insert_duplicate value (mem_keys_entriesOf.mpr hk), if_pos hk]
      exact ⟨trivial, hc, r⟩
    have hk' : key ∉ (entriesOf f).map Prod.fst := fun h => hk (mem_keys_entriesOf.mp h)
    have hle := r.length_le
    rw [entriesOf_length] at hle
    by_cases hfull : f.keys.length = capacity
    · simp only [call, reference, if_neg hk, if_pos hfull,
        r.insert_full value hk' (by rw [entriesOf_length, hfull, hc])]
      exact ⟨trivial, hc, r⟩
    · obtain ⟨m', hm', r', hcap, -⟩ := r.insert_fresh value hk' (by rw [entriesOf_length]; omega)
      simp only [call, reference, if_neg hk, if_neg hfull, hm', entriesOf_insert value hk]
      exact ⟨trivial, hcap.trans hc, r'⟩
  | find key =>
    refine ⟨?_, hc, r⟩
    simp only [call, reference, MapResult.find.injEq]
    apply Option.ext
    intro v
    rw [r.find_iff, mem_entriesOf]
  | contains key =>
    refine ⟨?_, hc, r⟩
    simp only [call, reference, MapResult.contains.injEq]
    rw [Bool.eq_iff_iff, r.contains_iff, mem_keys_entriesOf, decide_eq_true_eq]
  | erase key =>
    by_cases hk : key ∈ f
    · obtain ⟨v, hperm⟩ := entriesOf_erase hk
      obtain ⟨m', hm', r', hcap, -⟩ := r.erase_hit hperm
      simp only [call, reference, hm', hk, decide_true]
      exact ⟨trivial, hcap.trans hc, r'⟩
    · simp only [call, reference, r.erase_miss (fun h => hk (mem_keys_entriesOf.mp h)), hk,
        decide_false, erase_of_notMem hk]
      exact ⟨trivial, hc, r⟩
  | size =>
    refine ⟨?_, hc, r⟩
    simp only [call, reference, r.size, entriesOf_length]

theorem table_refines_finite_map {capacity : ℕ} (hlt : capacity < word) {bucket : K → ℕ}
    (hb : ∀ key, bucket key < capacity) {m : FixedOrderMap K V} (hm : create capacity = some m)
    (calls : List (MapCall K V)) :
    (Transducer.trace (call bucket) m calls).2 =
        (Transducer.trace (reference capacity) ∅ calls).2 ∧
      pairs capacity (Transducer.trace (call bucket) m calls).1.entries ~
        entriesOf (Transducer.trace (reference capacity) ∅ calls).1 ∧
      ∀ key, mixBucket m.mask key < capacity := by
  obtain ⟨r, hc, hmask⟩ := create_represents hlt hm hb
  let R (m : FixedOrderMap K V) (f : AList (fun _ : K => V)) : Prop :=
    m.capacity = capacity ∧ Represents bucket m (entriesOf f)
  have hstep : ∀ m f c, R m f → (m.call bucket c).2 = (reference capacity f c).2 ∧
      R (m.call bucket c).1 (reference capacity f c).1 :=
    fun m f c h => call_refines c h.1 h.2
  have hstart : R m ∅ := ⟨hc, r⟩
  obtain ⟨hout, hcap, hrep⟩ := Transducer.trace_simulates hstep hstart calls
  exact ⟨hout, hcap ▸ hrep.perm, create_mixBucket_lt hm⟩

def sampleCalls : List (MapCall ℕ ℕ) :=
  [.insert 1 10, .insert 2 20, .insert 1 11, .insert 3 30, .erase 1, .find 2, .contains 1, .size]

theorem table_refines_finite_map_two : ∃ m : FixedOrderMap ℕ ℕ, create 2 = some m ∧
    (Transducer.trace (call (mixBucket m.mask)) m sampleCalls).2 =
        (Transducer.trace (reference 2) ∅ sampleCalls).2 ∧
      pairs 2 (Transducer.trace (call (mixBucket m.mask)) m sampleCalls).1.entries ~
        entriesOf (Transducer.trace (reference 2) ∅ sampleCalls).1 ∧
      ∀ key, mixBucket m.mask key < 2 := by
  have hsome : (create 2 : Option (FixedOrderMap ℕ ℕ)).isSome = true := rfl
  obtain ⟨m, hm⟩ := Option.isSome_iff_exists.mp hsome
  exact ⟨m, hm, table_refines_finite_map (by decide) (create_mixBucket_lt hm) hm sampleCalls⟩

end Sixchange.FixedOrderMap
