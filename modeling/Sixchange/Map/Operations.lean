import Sixchange.Map.Contents

namespace Sixchange.FixedOrderMap

open LinearProbing
open scoped List

variable {K V : Type} [DecidableEq K]

def probeFrom (m : FixedOrderMap K V) (key : K) : ℕ → ℕ → Option ℕ
  | 0, _ => none
  | probes + 1, index =>
    if (m.entries index).occupied = false ∨ (m.entries index).key = key then some index
    else m.probeFrom key probes (m.nextBucket index)

theorem insertFrom_eq (m : FixedOrderMap K V) (key : K) (value : V) (probes index : ℕ) :
    m.insertFrom key value probes index =
      match m.probeFrom key probes index with
      | none => (.full, m)
      | some i =>
        if (m.entries i).occupied = false then
          (.inserted, { m with
            entries := Function.update m.entries i ⟨key, value, true⟩, size := m.size + 1 })
        else (.duplicateKey, m) := by
  induction probes generalizing index with
  | zero => rfl
  | succ probes ih =>
    simp only [insertFrom, probeFrom, ih]
    by_cases hf : (m.entries index).occupied = false
    · simp [hf]
    · by_cases hk : (m.entries index).key = key <;> simp [hf, hk]

theorem findIndexFrom_eq (m : FixedOrderMap K V) (key : K) (probes index : ℕ) :
    m.findIndexFrom key probes index =
      match m.probeFrom key probes index with
      | none => m.capacity
      | some i => if (m.entries i).occupied = false then m.capacity else i := by
  induction probes generalizing index with
  | zero => rfl
  | succ probes ih =>
    simp only [findIndexFrom, probeFrom, ih]
    by_cases hf : (m.entries index).occupied = false
    · simp [hf]
    · by_cases hk : (m.entries index).key = key <;> simp [hf, hk]

def Skipped (m : FixedOrderMap K V) (key : K) (j : ℕ) : Prop :=
  (m.entries j).occupied = true ∧ (m.entries j).key ≠ key

theorem probeFrom_spec {m : FixedOrderMap K V} (hs : Shape m) (key : K) (probes index : ℕ)
    (hi : index < m.capacity) :
    match m.probeFrom key probes index with
    | none => ∀ j < m.capacity, distance m.capacity index j < probes → m.Skipped key j
    | some i => i < m.capacity ∧ distance m.capacity index i < probes ∧
        (∀ j < m.capacity, OnPath m.capacity index i j → m.Skipped key j) ∧
        ((m.entries i).occupied = false ∨ (m.entries i).key = key) := by
  induction probes generalizing index with
  | zero => simp [probeFrom]
  | succ probes ih =>
    by_cases hstop : (m.entries index).occupied = false ∨ (m.entries index).key = key
    · simp only [probeFrom, if_pos hstop, OnPath, distance_self hi]
      exact ⟨hi, Nat.zero_lt_succ _, fun j _ h => absurd h (Nat.not_lt_zero _), hstop⟩
    · have hskip : m.Skipped key index := by
        simp only [not_or, Bool.not_eq_false] at hstop
        exact hstop
      simp only [probeFrom, if_neg hstop, hs.nextBucket]
      have hrec := ih (next m.capacity index) (next_lt hi)
      split at hrec
      · next h =>
        intro j hj hlt
        by_cases hij : index = j
        · exact hij ▸ hskip
        · exact hrec j hj (by have := distance_next hi hj hij; omega)
      · next i h =>
        obtain ⟨hic, hd, hpath, hend⟩ := hrec
        by_cases hii : index = i
        · subst hii
          exact absurd hend hstop
        have hdi := distance_next hi hic hii
        refine ⟨hic, by omega, ?_, hend⟩
        intro j hj hon
        by_cases hij : index = j
        · exact hij ▸ hskip
        · apply hpath j hj
          unfold OnPath at hon ⊢
          have := distance_next hi hj hij
          omega

namespace Represents

variable {bucket : K → ℕ} {m : FixedOrderMap K V} {l : List (K × V)}

theorem probe_hit (r : Represents bucket m l) {i : ℕ} (hi : i < m.capacity)
    (ho : (m.entries i).occupied = true) :
    m.probeFrom (m.entries i).key m.capacity (bucket (m.entries i).key) = some i := by
  have hb := r.bucket_lt (m.entries i).key
  have hspec := probeFrom_spec r.shape (m.entries i).key m.capacity (bucket (m.entries i).key) hb
  split at hspec
  · next h => exact absurd rfl (hspec i hi (distance_lt hb)).2
  · next j h =>
    obtain ⟨hj, -, hpath, hend⟩ := hspec
    rw [h]
    congr 1
    by_contra hji
    -- a stop before the entry leaves a gap on its probe path, and one behind it has passed its key
    rcases Nat.lt_trichotomy (distance m.capacity (bucket (m.entries i).key) j)
      (distance m.capacity (bucket (m.entries i).key) i) with hlt | heq | hgt
    · obtain ⟨e, p⟩ := r.probing
      have hjo : (m.entries j).occupied = true := by
        have := p.path i hi (bucket (m.entries i).key) (by simp [homes, ho]) j hj hlt
        rwa [Ne, homes_none, Bool.not_eq_false] at this
      exact hji (slot_unique r.nodup_pairs hj hi hjo ho (hend.resolve_left (by simp [hjo])))
    · exact hji (distance_inj hb hj hi heq)
    · exact (hpath i hi hgt).2 rfl

theorem findIndex_hit (r : Represents bucket m l) {i : ℕ} (hi : i < m.capacity)
    (ho : (m.entries i).occupied = true) : m.findIndex bucket (m.entries i).key = i := by
  simp [findIndex, findIndexFrom_eq, r.probe_hit hi ho, ho]

theorem findIndex_miss (r : Represents bucket m l) {k : K} (hk : k ∉ l.map Prod.fst) :
    m.findIndex bucket k = m.capacity := by
  have hspec := probeFrom_spec r.shape k m.capacity (bucket k) (r.bucket_lt k)
  rw [findIndex, findIndexFrom_eq]
  split at hspec
  · rfl
  · next i h =>
    by_cases ho : (m.entries i).occupied = false
    · simp [ho]
    · simp only [Bool.not_eq_false] at ho
      exact absurd (hspec.2.2.2.resolve_left (by simp [ho]) ▸ r.key_mem hspec.1 ho) hk

theorem find_hit (r : Represents bucket m l) {k : K} {v : V} (h : (k, v) ∈ l) :
    m.find bucket k = some v := by
  obtain ⟨i, hi, ho, rfl, rfl⟩ := r.mem_iff.mp h
  simp [find, r.findIndex_hit hi ho, Nat.ne_of_lt hi]

theorem find_miss (r : Represents bucket m l) {k : K} (hk : k ∉ l.map Prod.fst) :
    m.find bucket k = none := by
  simp [find, r.findIndex_miss hk]

theorem find_iff (r : Represents bucket m l) {k : K} {v : V} :
    m.find bucket k = some v ↔ (k, v) ∈ l := by
  constructor
  · intro h
    by_cases hk : k ∈ l.map Prod.fst
    · obtain ⟨⟨k', v'⟩, hmem, rfl⟩ := List.mem_map.mp hk
      rw [r.find_hit hmem] at h
      exact Option.some.inj h ▸ hmem
    · rw [r.find_miss hk] at h
      cases h
  · exact r.find_hit

theorem contains_iff (r : Represents bucket m l) (k : K) :
    m.contains bucket k = true ↔ k ∈ l.map Prod.fst := by
  simp only [contains, decide_eq_true_eq]
  constructor
  · intro h
    by_contra hk
    exact h (r.findIndex_miss hk)
  · intro hk
    obtain ⟨⟨k', v⟩, hmem, rfl⟩ := List.mem_map.mp hk
    obtain ⟨i, hi, ho, rfl, -⟩ := r.mem_iff.mp hmem
    rw [r.findIndex_hit hi ho]
    exact Nat.ne_of_lt hi

theorem insert_duplicate (r : Represents bucket m l) {k : K} (v : V) (hk : k ∈ l.map Prod.fst) :
    m.insert bucket k v = (.duplicateKey, m) := by
  obtain ⟨⟨k', v'⟩, hmem, rfl⟩ := List.mem_map.mp hk
  obtain ⟨i, hi, ho, rfl, -⟩ := r.mem_iff.mp hmem
  simp [insert, insertFrom_eq, r.probe_hit hi ho, ho]

theorem probe_miss (r : Represents bucket m l) {k : K} (hk : k ∉ l.map Prod.fst) :
    match m.probeFrom k m.capacity (bucket k) with
    | none => ∀ j < m.capacity, (m.entries j).occupied = true
    | some i => i < m.capacity ∧ (m.entries i).occupied = false ∧
        ∀ j < m.capacity, OnPath m.capacity (bucket k) i j → (m.entries j).occupied = true := by
  have hb := r.bucket_lt k
  have hspec := probeFrom_spec r.shape k m.capacity (bucket k) hb
  split at hspec
  · exact fun j hj => (hspec j hj (distance_lt hb)).1
  · next i h =>
    obtain ⟨hi, -, hpath, hend⟩ := hspec
    refine ⟨hi, ?_, fun j hj hon => (hpath j hj hon).1⟩
    by_contra ho
    simp only [Bool.not_eq_false] at ho
    exact hk (hend.resolve_left (by simp [ho]) ▸ r.key_mem hi ho)

theorem insert_full (r : Represents bucket m l) {k : K} (v : V) (hk : k ∉ l.map Prod.fst)
    (hl : l.length = m.capacity) : m.insert bucket k v = (.full, m) := by
  have hspec := r.probe_miss hk
  rw [insert, insertFrom_eq]
  split at hspec
  · rfl
  · next i h =>
    exfalso
    have hp := (pairs_update m.capacity i m.entries ⟨k, v, true⟩ hspec.1).length_eq
    simp only [pair?_free hspec.2.1, pair?_mk, Option.toList_none, Option.toList_some,
      List.append_nil, List.length_append, List.length_singleton, r.perm.length_eq, hl] at hp
    have hle := length_pairs_le m.capacity (Function.update m.entries i ⟨k, v, true⟩)
    omega

theorem insert_fresh (r : Represents bucket m l) {k : K} (v : V) (hk : k ∉ l.map Prod.fst)
    (hl : l.length < m.capacity) :
    ∃ m', m.insert bucket k v = (.inserted, m') ∧ Represents bucket m' ((k, v) :: l) ∧
      m'.capacity = m.capacity ∧ m'.mask = m.mask := by
  have hspec := r.probe_miss hk
  rw [insert, insertFrom_eq]
  split at hspec
  · have hp := length_pairs_full hspec
    rw [r.perm.length_eq] at hp
    omega
  · next i h =>
    obtain ⟨hi, hfree, hpath⟩ := hspec
    obtain ⟨e, p⟩ := r.probing
    simp only [hfree, ↓reduceIte]
    refine ⟨_, rfl, ⟨r.shape, r.bucket_lt, ⟨i, ?_⟩, ?_, ?_, ?_⟩, rfl, rfl⟩
    · simp only [homes_update, ↓reduceIte]
      refine p.fill hi (r.bucket_lt k) (homes_none.mpr hfree) ?_
      intro j hj hon
      rw [Ne, homes_none, hpath j hj hon]
      simp
    · have hp := pairs_update m.capacity i m.entries ⟨k, v, true⟩ hi
      simp only [pair?_free hfree, pair?_mk, Option.toList_none, Option.toList_some,
        List.append_nil] at hp
      exact (hp.trans (List.perm_append_singleton _ _)).trans (r.perm.cons _)
    · exact List.nodup_cons.mpr ⟨hk, r.keys⟩
    · simp [r.size]

end Represents

section Erase

variable [Inhabited K] [Inhabited V] {bucket : K → ℕ} {m : FixedOrderMap K V}

omit [DecidableEq K] in
theorem pairs_move {n hole scan : ℕ} {entries : ℕ → Entry K V} (hh : hole < n) (hs : scan < n)
    (hne : hole ≠ scan) (hfree : (entries hole).occupied = false) :
    pairs n (Function.update (Function.update entries hole (entries scan)) scan .empty) ~ pairs n entries := by
  have h1 := pairs_update n hole entries (entries scan) hh
  have h2 := pairs_update n scan (Function.update entries hole (entries scan)) .empty hs
  simp only [pair?_free hfree, pair?_empty, Option.toList_none, List.append_nil,
    Function.update_of_ne (Ne.symm hne)] at h1 h2
  exact (List.perm_append_right_iff _).mp (h2.trans h1)

omit [DecidableEq K] in
theorem shiftFrom_settled (hs : Shape m) {e hole : ℕ} {entries : ℕ → Entry K V}
    (p : Probing m.capacity (homes bucket entries) e) (hh : hole < m.capacity)
    (hfree : (entries hole).occupied = false) (examined scan : ℕ) (hscan : scan < m.capacity) :
    m.shiftFrom bucket examined hole scan entries = entries := by
  induction examined generalizing scan with
  | zero => rfl
  | succ examined ih =>
    rw [shiftFrom]
    by_cases ho : (entries scan).occupied = false
    · simp [ho]
    · simp only [Bool.not_eq_false] at ho
      have hhome : homes bucket entries scan = some (bucket (entries scan).key) := by simp [homes, ho]
      have hlt := p.home_lt scan hscan _ hhome
      have hoff : ¬ OnPath m.capacity (bucket (entries scan).key) scan hole :=
        fun hon => p.path scan hscan _ hhome hole hh hon (homes_none.mpr hfree)
      unfold OnPath at hoff
      simp only [ho, Bool.true_eq_false, ↓reduceIte, hs.probeDistance _ hlt, hoff, hs.nextBucket]
      exact ih (next m.capacity scan) (next_lt hscan)

omit [DecidableEq K] in
theorem shiftFrom_spec (hs : Shape m) {e : ℕ} (examined hole scan : ℕ) (entries : ℕ → Entry K V)
    (s : Shifting m.capacity (homes bucket entries) e hole scan)
    (hfuel : m.capacity ≤ distance m.capacity (next m.capacity e) scan + examined) :
    Probing m.capacity (homes bucket (m.shiftFrom bucket examined hole scan entries)) e ∧
      pairs m.capacity (m.shiftFrom bucket examined hole scan entries) ~ pairs m.capacity entries := by
  induction examined generalizing hole scan entries with
  | zero =>
    have := distance_lt (b := scan) (next_lt s.boundary_lt)
    omega
  | succ examined ih =>
    have hscan := s.scan_lt
    have hfree := homes_none.mp s.free
    have hah := s.ahead
    have hne : hole ≠ scan := by rintro rfl; exact Nat.lt_irrefl _ hah
    have hstep := distance_advance s.boundary_lt hscan
    rw [shiftFrom]
    by_cases ho : (entries scan).occupied = false
    · simp only [ho, ↓reduceIte]
      exact ⟨s.stop (homes_none.mpr ho), List.Perm.refl _⟩
    simp only [Bool.not_eq_false] at ho
    have hhome : homes bucket entries scan = some (bucket (entries scan).key) := by simp [homes, ho]
    have hlt := s.home_lt scan hscan _ hhome
    simp only [ho, Bool.true_eq_false, ↓reduceIte, hs.probeDistance _ hlt, hs.nextBucket]
    by_cases hon : OnPath m.capacity (bucket (entries scan).key) scan hole
    -- the entry is moved back into the hole, and the hole is now where it was
    · have hmoved := s.move hhome hon
      have hpairs := pairs_move s.hole_lt hscan hne hfree
      rw [if_pos (show distance _ _ _ < distance _ _ _ from hon)]
      have heq : homes bucket (Function.update (Function.update entries hole (entries scan)) scan .empty) =
          Function.update (Function.update (homes bucket entries) hole
            (some (bucket (entries scan).key))) scan none := by
        simp [homes_update, ho, Entry.empty]
      rw [← heq] at hmoved
      rcases hmoved with ⟨-, hp⟩ | ⟨hse, hs'⟩
      · rw [shiftFrom_settled hs hp hscan (by simp [Entry.empty]) examined _ (next_lt hscan)]
        exact ⟨hp, hpairs⟩
      · obtain ⟨hp, hperm⟩ := ih _ _ _ hs' (by have := hstep hse; omega)
        exact ⟨hp, hperm.trans hpairs⟩
    -- the entry is reached without the hole and stays
    · rw [if_neg (show ¬ distance _ _ _ < distance _ _ _ from hon)]
      rcases s.keep hhome hon with ⟨-, hp⟩ | ⟨hse, hs'⟩
      · rw [shiftFrom_settled hs hp s.hole_lt hfree examined _ (next_lt hscan)]
        exact ⟨hp, List.Perm.refl _⟩
      · exact ih _ _ _ hs' (by have := hstep hse; omega)

theorem Represents.erase_miss {l : List (K × V)} (r : Represents bucket m l) {k : K}
    (hk : k ∉ l.map Prod.fst) : m.erase bucket k = (false, m) := by
  simp [erase, r.findIndex_miss hk]

theorem Represents.erase_hit {l l' : List (K × V)} {k : K} {v : V} (r : Represents bucket m l)
    (hl : l ~ (k, v) :: l') :
    ∃ m', m.erase bucket k = (true, m') ∧ Represents bucket m' l' ∧
      m'.capacity = m.capacity ∧ m'.mask = m.mask := by
  obtain ⟨i, hi, ho, rfl, rfl⟩ := r.mem_iff.mp (hl.mem_iff.mpr (List.mem_cons_self (a := (k, v))))
  simp only [erase, r.findIndex_hit hi ho, Nat.ne_of_lt hi, ↓reduceIte]
  obtain ⟨e, p⟩ := r.probing
  have hvacated : pairs m.capacity (Function.update m.entries i .empty) ~ l' := by
    have h := pairs_update m.capacity i m.entries .empty hi
    simp only [pair?_empty, pair?_occupied ho, Option.toList_none, Option.toList_some,
      List.append_nil] at h
    exact ((List.perm_append_singleton _ _).symm.trans (h.trans (r.perm.trans hl))).cons_inv
  have hshift : ∃ e', Probing m.capacity (homes bucket (m.shiftFrom bucket (m.capacity - 1) i
      (m.nextBucket i) (Function.update m.entries i .empty))) e' ∧
      pairs m.capacity (m.shiftFrom bucket (m.capacity - 1) i (m.nextBucket i)
        (Function.update m.entries i .empty)) ~ l' := by
    have hv := p.vacate hi
    have heq : homes bucket (Function.update m.entries i .empty) =
        Function.update (homes bucket m.entries) i none := by simp [homes_update, Entry.empty]
    rw [← heq] at hv
    rw [r.shape.nextBucket]
    refine ⟨e, ?_⟩
    rcases hv with hp | hs
    · rw [shiftFrom_settled r.shape hp hi (by simp [Entry.empty]) _ _ (next_lt hi)]
      exact ⟨hp, hvacated⟩
    · have hah := hs.ahead
      obtain ⟨hp, hperm⟩ := shiftFrom_spec r.shape (m.capacity - 1) i _ _ hs (by omega)
      exact ⟨hp, hperm.trans hvacated⟩
  obtain ⟨e', hp, hperm⟩ := hshift
  refine ⟨_, rfl, ⟨r.shape, r.bucket_lt, ⟨e', hp⟩, hperm, ?_, ?_⟩, rfl, rfl⟩
  · exact (List.nodup_cons.mp ((hl.map Prod.fst).nodup_iff.mp r.keys)).2
  · have := hl.length_eq
    simp only [List.length_cons] at this
    simp only [r.size]
    omega

end Erase

end Sixchange.FixedOrderMap
