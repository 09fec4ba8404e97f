import Sixchange.Map.FiniteMap
import Sixchange.Theory.FirstCome

namespace Sixchange.FixedOrderMap

open LinearProbing
open scoped List

variable {K V : Type} [DecidableEq K]

def slots (entries : ℕ → Entry K V) (i : ℕ) : Option K := if (entries i).occupied then some (entries i).key else none

omit [DecidableEq K] in
theorem homesOf_slots (bucket : K → ℕ) (entries : ℕ → Entry K V) :
    homesOf bucket (slots entries) = homes bucket entries := by
  funext i
  unfold homesOf slots homes
  split_ifs <;> rfl

omit [DecidableEq K] in
theorem slots_some {entries : ℕ → Entry K V} {i : ℕ} {k : K} :
    slots entries i = some k ↔ (entries i).occupied = true ∧ (entries i).key = k := by
  simp [slots]

omit [DecidableEq K] in
theorem slots_none {entries : ℕ → Entry K V} {i : ℕ} : slots entries i = none ↔ (entries i).occupied = false := by
  simp [slots]

omit [DecidableEq K] in
theorem slots_update (entries : ℕ → Entry K V) (i : ℕ) (e : Entry K V) :
    slots (Function.update entries i e) =
      Function.update (slots entries) i (if e.occupied then some e.key else none) := by
  funext j
  by_cases hji : j = i
  · subst hji
    simp [slots]
  · simp [slots, Function.update_of_ne hji]

def Older (l : List (K × V)) (a b : K) : Prop := [a, b] <+ l.map Prod.fst

omit [DecidableEq K] in
theorem Older.wellFounded {l : List (K × V)} (hl : (l.map Prod.fst).Nodup) : WellFounded (Older l) := by
  classical
  have hidx : ∀ keys : List K, keys.Nodup → ∀ a b, [a, b] <+ keys → keys.idxOf a < keys.idxOf b := by
    intro keys
    induction keys with
    | nil => intro _ a b h; cases h
    | cons key keys ih =>
      intro hkeys a b h
      obtain ⟨hnew, hkeys⟩ := List.nodup_cons.mp hkeys
      cases h with
      | cons _ h =>
        have ha : a ∈ keys := h.subset List.mem_cons_self
        have hb : b ∈ keys := h.subset (List.mem_cons_of_mem _ List.mem_cons_self)
        rw [List.idxOf_cons_ne _ (ne_of_mem_of_not_mem ha hnew).symm,
          List.idxOf_cons_ne _ (ne_of_mem_of_not_mem hb hnew).symm]
        exact Nat.succ_lt_succ (ih hkeys a b h)
      | cons_cons _ h =>
        have hb : b ∈ keys := h.subset List.mem_cons_self
        rw [List.idxOf_cons_self, List.idxOf_cons_ne _ (ne_of_mem_of_not_mem hb hnew).symm]
        exact Nat.succ_pos _
  exact Subrelation.wf (hidx _ hl _ _) (InvImage.wf (fun key => (l.map Prod.fst).idxOf key) Nat.lt_wfRel.wf)

variable [Inhabited K] [Inhabited V] {bucket : K → ℕ} {m : FixedOrderMap K V} {l : List (K × V)}

structure Tidy (n : ℕ) (entries : ℕ → Entry K V) : Prop where
  clean : ∀ i, slots entries i = none → entries i = .empty
  outside : ∀ i, n ≤ i → slots entries i = none

omit [DecidableEq K] in
theorem Tidy.update {n i : ℕ} {entries : ℕ → Entry K V} (h : Tidy n entries) (hi : i < n) {e : Entry K V}
    (he : e.occupied = true ∨ e = .empty) : Tidy n (Function.update entries i e) := by
  constructor
  · intro j hj
    rw [slots_none] at hj
    by_cases hji : j = i
    · subst hji
      rw [Function.update_self] at hj ⊢
      exact he.resolve_left (by simp [hj])
    · rw [Function.update_of_ne hji] at hj ⊢
      exact h.clean j (slots_none.mpr hj)
  · intro j hj
    have hji : j ≠ i := by omega
    rw [slots_update, Function.update_of_ne hji]
    exact h.outside j hj

/-- The table holds the entries, and each is where it went after those that came before it. -/
structure Laid (bucket : K → ℕ) (m : FixedOrderMap K V) (l : List (K × V)) : Prop where
  represents : Represents bucket m l
  firstCome : FirstCome m.capacity bucket (Older l) (slots m.entries) m.capacity
  tidy : Tidy m.capacity m.entries

omit [DecidableEq K] in
theorem shiftFrom_firstCome (hs : Shape m) {older : K → K → Prop} {e : ℕ} (examined hole scan : ℕ)
    (entries : ℕ → Entry K V) (s : Shifting m.capacity (homes bucket entries) e hole scan)
    (hfuel : m.capacity ≤ distance m.capacity (next m.capacity e) scan + examined)
    (f : FirstCome m.capacity bucket older (slots entries) hole) (htidy : Tidy m.capacity entries) :
    FirstCome m.capacity bucket older (slots (m.shiftFrom bucket examined hole scan entries)) m.capacity ∧
      Tidy m.capacity (m.shiftFrom bucket examined hole scan entries) := by
  induction examined generalizing hole scan entries with
  | zero =>
    have := distance_lt (b := scan) (next_lt s.boundary_lt)
    omega
  | succ examined ih =>
    have hscan := s.scan_lt
    have hfree := homes_none.mp s.free
    have hstep := distance_advance s.boundary_lt hscan
    have hclose : ∀ {e'}, Probing m.capacity (homes bucket entries) e' →
        FirstCome m.capacity bucket older (slots entries) m.capacity := fun p =>
      f.close (homesOf_slots bucket entries ▸ p) (slots_none.mpr hfree)
    rw [shiftFrom]
    by_cases ho : (entries scan).occupied = false
    · simp only [ho, ↓reduceIte]
      exact ⟨hclose (s.stop (homes_none.mpr ho)), htidy⟩
    simp only [Bool.not_eq_false] at ho
    have hhome : homes bucket entries scan = some (bucket (entries scan).key) := by simp [homes, ho]
    have hlt := s.home_lt scan hscan _ hhome
    simp only [ho, Bool.true_eq_false, ↓reduceIte, hs.probeDistance _ hlt, hs.nextBucket]
    by_cases hon : OnPath m.capacity (bucket (entries scan).key) scan hole
    · have hmoved := s.move hhome hon
      rw [if_pos (show distance _ _ _ < distance _ _ _ from hon)]
      have heq : homes bucket (Function.update (Function.update entries hole (entries scan)) scan .empty) =
          Function.update (Function.update (homes bucket entries) hole
            (some (bucket (entries scan).key))) scan none := by
        simp [homes_update, ho, Entry.empty]
      have heq' : slots (Function.update (Function.update entries hole (entries scan)) scan .empty) =
          Function.update (Function.update (slots entries) hole (some (entries scan).key)) scan none := by
        simp [slots_update, ho, Entry.empty]
      have f' := f.move (homesOf_slots bucket entries ▸ s) (slots_some.mpr ⟨ho, rfl⟩) hon
      rw [← heq'] at f'
      have htidy' : Tidy m.capacity (Function.update (Function.update entries hole (entries scan)) scan .empty) :=
        (htidy.update s.hole_lt (.inl ho)).update hscan (.inr rfl)
      rw [← heq] at hmoved
      rcases hmoved with ⟨-, hp⟩ | ⟨hse, hs'⟩
      · rw [shiftFrom_settled hs hp hscan (by simp [Entry.empty]) examined _ (next_lt hscan)]
        exact ⟨f'.close (homesOf_slots bucket _ ▸ hp) (slots_none.mpr (by simp [Entry.empty])), htidy'⟩
      · exact ih _ _ _ hs' (by have := hstep hse; omega) f' htidy'
    · rw [if_neg (show ¬ distance _ _ _ < distance _ _ _ from hon)]
      rcases s.keep hhome hon with ⟨-, hp⟩ | ⟨hse, hs'⟩
      · rw [shiftFrom_settled hs hp s.hole_lt hfree examined _ (next_lt hscan)]
        exact ⟨hclose hp, htidy⟩
      · exact ih _ _ _ hs' (by have := hstep hse; omega) f htidy

namespace Laid

omit [DecidableEq K] in
theorem mem_slots (h : Laid bucket m l) (k : K) :
    k ∈ l.map Prod.fst ↔ ∃ i < m.capacity, slots m.entries i = some k := by
  simp only [slots_some, List.mem_map, Prod.exists, exists_and_right, exists_eq_right]
  constructor
  · rintro ⟨v, hmem⟩
    obtain ⟨i, hi, ho, hk, -⟩ := h.represents.mem_iff.mp hmem
    exact ⟨i, hi, ho, hk⟩
  · rintro ⟨i, hi, ho, hk⟩
    exact ⟨_, h.represents.mem_iff.mpr ⟨i, hi, ho, hk, rfl⟩⟩

omit [DecidableEq K] in
theorem eq {m' : FixedOrderMap K V} (h : Laid bucket m l) (h' : Laid bucket m' l) (hcapacity : m.capacity = m'.capacity)
    (hmask : m.mask = m'.mask) : m = m' := by
  have hkeys := h.represents.keys
  have hsame : ∀ k, (∃ i < m.capacity, slots m.entries i = some k) ↔ ∃ i < m.capacity, slots m'.entries i = some k := by
    intro k
    rw [← h.mem_slots, h'.mem_slots, hcapacity]
  have f' := h'.firstCome
  rw [← hcapacity] at f'
  have hslots : ∀ i, slots m.entries i = slots m'.entries i := by
    intro i
    rcases Nat.lt_or_ge i m.capacity with hi | hi
    · exact h.firstCome.slots_eq f' (Older.wellFounded hkeys) h.represents.bucket_lt hsame hi
    · rw [h.tidy.outside i hi, h'.tidy.outside i (hcapacity ▸ hi)]
  have hentries : m.entries = m'.entries := by
    funext i
    cases hslot : slots m.entries i with
    | none => rw [h.tidy.clean i hslot, h'.tidy.clean i ((hslots i).symm.trans hslot)]
    | some k =>
      have hi : i < m.capacity := by
        by_contra hi
        rw [h.tidy.outside i (Nat.le_of_not_lt hi)] at hslot
        cases hslot
      obtain ⟨ho, hk⟩ := slots_some.mp hslot
      obtain ⟨ho', hk'⟩ := slots_some.mp ((hslots i).symm.trans hslot)
      have hmem := h.represents.mem_iff.mpr ⟨i, hi, ho, hk, rfl⟩
      have hmem' := h'.represents.mem_iff.mpr ⟨i, hcapacity ▸ hi, ho', hk', rfl⟩
      have hvalue : (m.entries i).value = (m'.entries i).value :=
        congrArg Prod.snd (List.inj_on_of_nodup_map hkeys hmem hmem' rfl)
      calc m.entries i = ⟨(m.entries i).key, (m.entries i).value, (m.entries i).occupied⟩ := rfl
        _ = ⟨(m'.entries i).key, (m'.entries i).value, (m'.entries i).occupied⟩ := by rw [hk, hk', hvalue, ho, ho']
        _ = m'.entries i := rfl
  have hsize : m.size = m'.size := h.represents.size.trans h'.represents.size.symm
  calc m = ⟨m.capacity, m.mask, m.entries, m.size⟩ := rfl
    _ = ⟨m'.capacity, m'.mask, m'.entries, m'.size⟩ := by rw [hcapacity, hmask, hentries, hsize]
    _ = m' := rfl

theorem insert_fresh (h : Laid bucket m l) {k : K} (v : V) (hk : k ∉ l.map Prod.fst) (hl : l.length < m.capacity) :
    Laid bucket (m.insert bucket k v).2 (l ++ [(k, v)]) := by
  obtain ⟨m', hm', r', -, -⟩ := h.represents.insert_fresh v hk hl
  have hspec := h.represents.probe_miss hk
  rw [hm']
  rw [insert, insertFrom_eq] at hm'
  split at hspec
  · next hprobe =>
    rw [hprobe] at hm'
    cases hm'
  · next i hprobe =>
    obtain ⟨hi, hfree, hpath⟩ := hspec
    rw [hprobe] at hm'
    dsimp only at hm'
    rw [if_pos hfree] at hm'
    obtain rfl := (Prod.mk.inj hm').2
    refine ⟨r'.of_perm (List.perm_append_singleton _ _).symm, ?_, h.tidy.update hi (.inl rfl)⟩
    dsimp only
    rw [slots_update, if_pos rfl]
    have hmore : FirstCome m.capacity bucket (Older (l ++ [(k, v)])) (slots m.entries) m.capacity := by
      apply h.firstCome.mono
      intro i hi j hj k₁ k₂ hk₁ hk₂ hold
      unfold Older at hold ⊢
      rw [List.map_append]
      exact hold.trans (List.sublist_append_left _ _)
    refine hmore.fill (slots_none.mpr hfree) fun j hj hon => ?_
    have hslot : slots m.entries j = some (m.entries j).key := slots_some.mpr ⟨hpath j hj hon, rfl⟩
    refine ⟨_, hslot, ?_⟩
    have hmem := (h.mem_slots _).mpr ⟨j, hj, hslot⟩
    unfold Older
    rw [List.map_append]
    exact (List.singleton_sublist.mpr hmem).append (List.Sublist.refl [k])

theorem erase_hit (h : Laid bucket m l) {k : K} {v : V} {l' : List (K × V)} (hperm : l ~ (k, v) :: l')
    (hkeys : l'.map Prod.fst = (l.map Prod.fst).filter (· ≠ k)) : Laid bucket (m.erase bucket k).2 l' := by
  obtain ⟨m', hm', r', hcapacity, hmask⟩ := h.represents.erase_hit hperm
  rw [hm']
  obtain ⟨i, hi, ho, rfl, rfl⟩ := h.represents.mem_iff.mp (hperm.mem_iff.mpr (List.mem_cons_self (a := (k, v))))
  have hs := h.represents.shape
  obtain ⟨e, p⟩ := h.represents.probing
  have heq : homes bucket (Function.update m.entries i .empty) = Function.update (homes bucket m.entries) i none := by
    simp [homes_update, Entry.empty]
  have hv := p.vacate hi
  have f := h.firstCome.vacate i
  have hslots : Function.update (slots m.entries) i none = slots (Function.update m.entries i .empty) := by
    simp [slots_update, Entry.empty]
  rw [← heq] at hv
  rw [hslots] at f
  have htidy := h.tidy.update hi (.inr rfl)
  have hshift : FirstCome m.capacity bucket (Older l) (slots m'.entries) m.capacity ∧ Tidy m.capacity m'.entries := by
    simp only [erase, h.represents.findIndex_hit hi ho, Nat.ne_of_lt hi, ↓reduceIte] at hm'
    rw [← (Prod.mk.inj hm').2]
    dsimp only
    rw [hs.nextBucket]
    rcases hv with hp | hshifting
    · rw [shiftFrom_settled hs hp hi (by simp [Entry.empty]) _ _ (next_lt hi)]
      exact ⟨f.close (homesOf_slots bucket _ ▸ hp) (slots_none.mpr (by simp [Entry.empty])), htidy⟩
    · have hah := hshifting.ahead
      exact shiftFrom_firstCome hs (m.capacity - 1) i _ _ hshifting (by omega) f htidy
  obtain ⟨hfirst, htidy'⟩ := hshift
  rw [← hcapacity] at hfirst htidy'
  have hgone : (m.entries i).key ∉ l'.map Prod.fst :=
    (List.nodup_cons.mp ((hperm.map Prod.fst).nodup_iff.mp h.represents.keys)).1
  have hother : ∀ {j c}, j < m'.capacity → slots m'.entries j = some c → c ≠ (m.entries i).key := by
    intro j c hj hc
    obtain ⟨ho, rfl⟩ := slots_some.mp hc
    exact ne_of_mem_of_not_mem (r'.key_mem hj ho) hgone
  refine ⟨r', hfirst.mono fun i₁ hi₁ j₁ hj₁ a b ha hb hold => ?_, htidy'⟩
  have hkept : [b, a].filter (· ≠ (m.entries i).key) = [b, a] := by
    simp [hother hj₁ hb, hother hi₁ ha]
  unfold Older at hold ⊢
  rw [hkeys, ← hkept]
  exact hold.filter _

theorem erase (h : Laid bucket m l) (k : K) :
    ∃ l', l' <+ l ∧ Laid bucket (m.erase bucket k).2 l' ∧ (m.erase bucket k).2.mask = m.mask ∧
      (m.erase bucket k).2.capacity = m.capacity := by
  by_cases hk : k ∈ l.map Prod.fst
  · obtain ⟨⟨k, v⟩, hmem, rfl⟩ := List.mem_map.mp hk
    obtain ⟨as, bs, rfl⟩ := List.append_of_mem hmem
    have hperm : as ++ (k, v) :: bs ~ (k, v) :: (as ++ bs) := List.perm_middle
    have hgone := (List.nodup_cons.mp ((hperm.map Prod.fst).nodup_iff.mp h.represents.keys)).1
    have hkeys : (as ++ bs).map Prod.fst = ((as ++ (k, v) :: bs).map Prod.fst).filter (· ≠ k) := by
      have hkept : ((as ++ bs).map Prod.fst).filter (· ≠ k) = (as ++ bs).map Prod.fst :=
        List.filter_eq_self.mpr fun key hkey => decide_eq_true (ne_of_mem_of_not_mem hkey hgone)
      rw [← hkept]
      simp
    obtain ⟨m', hm', -, hcapacity, hmask⟩ := h.represents.erase_hit hperm
    have hlaid := h.erase_hit hperm hkeys
    rw [hm'] at hlaid ⊢
    exact ⟨as ++ bs, (List.Sublist.refl as).append (List.sublist_cons_self _ _), hlaid, hmask, hcapacity⟩
  · rw [h.represents.erase_miss hk]
    exact ⟨l, List.Sublist.refl l, h, rfl, rfl⟩

end Laid

omit [DecidableEq K] in
theorem Laid.create {capacity : ℕ} (hlt : capacity < word) (hm : create capacity = some m)
    (hb : ∀ key, bucket key < capacity) : Laid bucket m [] := by
  have hr := (create_represents hlt hm hb).1
  have hentries : m.entries = fun _ => .empty := by
    rw [FixedOrderMap.create] at hm
    split at hm
    · obtain rfl := Option.some.inj hm
      rfl
    · cases hm
  have hslots : ∀ i, slots m.entries i = none := by
    intro i
    rw [hentries]
    rfl
  refine ⟨hr, ?_, fun i _ => by rw [hentries], fun i _ => hslots i⟩
  intro i _ k hk
  rw [hslots] at hk
  cases hk

theorem Laid.call {capacity : ℕ} {f : AList (fun _ : K => V)} (h : Laid bucket m (entriesOf f).reverse)
    (hcapacity : m.capacity = capacity) (c : MapCall K V) :
    Laid bucket (m.call bucket c).1 (entriesOf (reference capacity f c).1).reverse ∧
      (m.call bucket c).1.capacity = capacity ∧ (m.call bucket c).1.mask = m.mask := by
  have r := h.represents.of_perm (List.reverse_perm _)
  have hmem : ∀ {key}, key ∈ (entriesOf f).reverse.map Prod.fst ↔ key ∈ f := by
    intro key
    rw [List.map_reverse, List.mem_reverse, mem_keys_entriesOf]
  cases c with
  | find key => exact ⟨h, hcapacity, rfl⟩
  | contains key => exact ⟨h, hcapacity, rfl⟩
  | size => exact ⟨h, hcapacity, rfl⟩
  | insert key value =>
    dsimp only [FixedOrderMap.call, reference]
    by_cases hk : key ∈ f
    · rw [r.insert_duplicate value (mem_keys_entriesOf.mpr hk), if_pos hk]
      exact ⟨h, hcapacity, rfl⟩
    have hk' : key ∉ (entriesOf f).map Prod.fst := fun h => hk (mem_keys_entriesOf.mp h)
    have hle := r.length_le
    rw [entriesOf_length] at hle
    by_cases hfull : f.keys.length = capacity
    · rw [r.insert_full value hk' (by rw [entriesOf_length, hfull, hcapacity]), if_neg hk, if_pos hfull]
      exact ⟨h, hcapacity, rfl⟩
    · have hless : (entriesOf f).reverse.length < m.capacity := by
        rw [List.length_reverse, entriesOf_length]
        omega
      have hlaid := h.insert_fresh value (fun h => hk (hmem.mp h)) hless
      obtain ⟨m', hm', -, hcap, hmask⟩ := r.insert_fresh value hk' (by rwa [List.length_reverse] at hless)
      rw [hm'] at hlaid ⊢
      rw [if_neg hk, if_neg hfull, entriesOf_insert value hk, List.reverse_cons]
      exact ⟨hlaid, hcap.trans hcapacity, hmask⟩
  | erase key =>
    dsimp only [FixedOrderMap.call, reference]
    by_cases hk : key ∈ f
    · obtain ⟨v, hperm⟩ := entriesOf_erase hk
      have hperm' : (entriesOf f).reverse ~ (key, v) :: (entriesOf (f.erase key)).reverse :=
        (List.reverse_perm _).trans (hperm.trans ((List.reverse_perm _).symm.cons _))
      have hkeys : (entriesOf (f.erase key)).reverse.map Prod.fst =
          ((entriesOf f).reverse.map Prod.fst).filter (· ≠ key) := by
        rw [List.map_reverse, List.map_reverse, List.filter_reverse, entriesOf_keys, entriesOf_keys, AList.keys_erase,
          f.keys_nodup.erase_eq_filter]
        apply congrArg List.reverse
        apply List.filter_congr
        intro other _
        simp only [ne_eq, decide_not]
        rfl
      obtain ⟨m', hm', -, hcap, hmask⟩ := h.represents.erase_hit hperm'
      have hlaid := h.erase_hit hperm' hkeys
      rw [hm'] at hlaid ⊢
      exact ⟨hlaid, hcap.trans hcapacity, hmask⟩
    · rw [h.represents.erase_miss (fun h => hk (hmem.mp h)), erase_of_notMem hk]
      exact ⟨h, hcapacity, rfl⟩

def inserts (l : List (K × V)) : List (MapCall K V) := l.map fun e => .insert e.1 e.2

theorem Laid.trace_inserts {l₀ : List (K × V)} (h : Laid bucket m l₀) (hkeys : ((l₀ ++ l).map Prod.fst).Nodup)
    (hlength : l₀.length + l.length ≤ m.capacity) :
    Laid bucket (Transducer.trace (FixedOrderMap.call bucket) m (inserts l)).1 (l₀ ++ l) ∧
      (Transducer.trace (FixedOrderMap.call bucket) m (inserts l)).1.capacity = m.capacity ∧
      (Transducer.trace (FixedOrderMap.call bucket) m (inserts l)).1.mask = m.mask := by
  induction l generalizing m l₀ with
  | nil =>
    rw [List.append_nil]
    exact ⟨h, rfl, rfl⟩
  | cons e l ih =>
    obtain ⟨key, value⟩ := e
    rw [List.length_cons] at hlength
    have hsplit : l₀ ++ (key, value) :: l = l₀ ++ [(key, value)] ++ l := by simp
    rw [hsplit] at hkeys ⊢
    have hnew : key ∉ l₀.map Prod.fst := by
      rw [List.map_append, List.map_append] at hkeys
      have hdisjoint := List.disjoint_of_nodup_append hkeys.of_append_left
      exact fun hmem => hdisjoint hmem (List.mem_singleton_self key)
    have hlaid := h.insert_fresh value hnew (by omega)
    obtain ⟨m', hm', -, hcapacity, hmask⟩ := h.represents.insert_fresh value hnew (by omega)
    rw [hm'] at hlaid
    dsimp only at hlaid
    have hstep : m.call bucket (.insert key value) = (m', .insert .inserted) := by rw [FixedOrderMap.call, hm']
    rw [inserts, List.map_cons, Transducer.trace_cons, hstep]
    have hrest : (l₀ ++ [(key, value)]).length + l.length ≤ m'.capacity := by
      rw [List.length_append, List.length_singleton, hcapacity]
      omega
    obtain ⟨hlaid', hcapacity', hmask'⟩ := ih hlaid hkeys hrest
    exact ⟨hlaid', hcapacity'.trans hcapacity, hmask'.trans hmask⟩

theorem trace_laid {capacity : ℕ} (hlt : capacity < word) (hb : ∀ key, bucket key < capacity)
    (hm : create capacity = some m) (calls : List (MapCall K V)) :
    Laid bucket (Transducer.trace (call bucket) m calls).1
        (entriesOf (Transducer.trace (reference capacity) ∅ calls).1).reverse ∧
      (Transducer.trace (call bucket) m calls).1.capacity = capacity ∧
      (Transducer.trace (call bucket) m calls).1.mask = m.mask := by
  let R (m' : FixedOrderMap K V) (f : AList (fun _ : K => V)) : Prop :=
    Laid bucket m' (entriesOf f).reverse ∧ m'.capacity = capacity ∧ m'.mask = m.mask
  have hstep : ∀ m' f c, R m' f → (m'.call bucket c).2 = (reference capacity f c).2 ∧
      R (m'.call bucket c).1 (reference capacity f c).1 := by
    rintro m' f c ⟨hlaid, hcapacity, hmask⟩
    obtain ⟨hlaid', hcapacity', hmask'⟩ := hlaid.call hcapacity c
    have hout := (call_refines c hcapacity (hlaid.represents.of_perm (List.reverse_perm _))).1
    exact ⟨hout, hlaid', hcapacity', hmask'.trans hmask⟩
  have hstart : R m ∅ := ⟨Laid.create hlt hm hb, (create_represents hlt hm hb).2.1, rfl⟩
  exact (Transducer.trace_simulates hstep hstart calls).2

theorem table_rebuilt {capacity : ℕ} (hlt : capacity < word) (hb : ∀ key, bucket key < capacity)
    (hm : create capacity = some m) (calls : List (MapCall K V)) :
    (Transducer.trace (call bucket) m calls).1 = (Transducer.trace (call bucket) m
      (inserts (entriesOf (Transducer.trace (reference capacity) ∅ calls).1).reverse)).1 := by
  obtain ⟨hlaid, hcapacity, hmask⟩ := trace_laid hlt hb hm calls
  generalize (Transducer.trace (reference capacity) ∅ calls).1 = f at hlaid ⊢
  have hlength := hlaid.represents.length_le
  rw [hcapacity, ← (create_represents hlt hm hb).2.1] at hlength
  obtain ⟨hlaid', hcapacity', hmask'⟩ :=
    (Laid.create hlt hm hb).trace_inserts hlaid.represents.keys ((Nat.zero_add _).trans_le hlength)
  exact hlaid.eq hlaid' (hcapacity.trans ((create_represents hlt hm hb).2.1.symm.trans hcapacity'.symm))
    (hmask.trans hmask'.symm)

def crowdedCalls : List (MapCall ℕ ℕ) :=
  [.insert 1 10, .insert 2 20, .insert 3 30, .insert 4 40, .erase 2, .insert 5 50]

theorem table_rebuilt_four : ∃ m : FixedOrderMap ℕ ℕ, create 4 = some m ∧
    (Transducer.trace (call (mixBucket m.mask)) m crowdedCalls).1 = (Transducer.trace (call (mixBucket m.mask)) m
      (inserts (entriesOf (Transducer.trace (reference 4) ∅ crowdedCalls).1).reverse)).1 := by
  have hsome : (create 4 : Option (FixedOrderMap ℕ ℕ)).isSome = true := rfl
  obtain ⟨m, hm⟩ := Option.isSome_iff_exists.mp hsome
  exact ⟨m, hm, table_rebuilt (by decide) (create_mixBucket_lt hm) hm crowdedCalls⟩

end Sixchange.FixedOrderMap
