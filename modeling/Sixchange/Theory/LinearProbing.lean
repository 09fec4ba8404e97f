import Mathlib.Logic.Function.Basic
import Mathlib.Data.Nat.Notation

/-!
Open addressing with linear probing and backward-shift deletion, seen through the home position of
the occupant of each slot. The boundary is a slot no probe path runs through; it stands in for the
free slot that a completely full table does not have.
-/

namespace LinearProbing

def next (n a : ℕ) : ℕ := (a + 1) % n

def distance (n a b : ℕ) : ℕ := (b + n - a) % n

theorem next_lt {n a : ℕ} (ha : a < n) : next n a < n := Nat.mod_lt _ (by omega)

theorem next_cases {n a : ℕ} (ha : a < n) :
    (a + 1 < n ∧ next n a = a + 1) ∨ (a + 1 = n ∧ next n a = 0) := by
  rcases Nat.lt_or_ge (a + 1) n with h | h
  · exact Or.inl ⟨h, Nat.mod_eq_of_lt h⟩
  · have he : a + 1 = n := by omega
    exact Or.inr ⟨he, by simp [next, he]⟩

theorem distance_cases {n a b : ℕ} (ha : a < n) (hb : b < n) :
    (a ≤ b ∧ distance n a b = b - a) ∨ (b < a ∧ distance n a b = b + n - a) := by
  rcases Nat.lt_or_ge b a with h | h
  · exact Or.inr ⟨h, Nat.mod_eq_of_lt (by omega)⟩
  · refine Or.inl ⟨h, ?_⟩
    have he : b + n - a = b - a + n := by omega
    rw [distance, he, Nat.add_mod_right, Nat.mod_eq_of_lt (by omega)]

theorem distance_lt {n a b : ℕ} (ha : a < n) : distance n a b < n := Nat.mod_lt _ (by omega)

theorem distance_self {n a : ℕ} (ha : a < n) : distance n a a = 0 := by
  have := distance_cases ha ha
  omega

theorem distance_next {n a b : ℕ} (ha : a < n) (hb : b < n) (h : a ≠ b) :
    distance n a b = distance n (next n a) b + 1 := by
  have := next_cases ha
  have := distance_cases ha hb
  have := distance_cases (next_lt ha) hb
  omega

theorem distance_inj {n a b c : ℕ} (ha : a < n) (hb : b < n) (hc : c < n)
    (h : distance n a b = distance n a c) : b = c := by
  have := distance_cases ha hb
  have := distance_cases ha hc
  omega

theorem distance_add {n a b c : ℕ} (ha : a < n) (hb : b < n) (hc : c < n)
    (h : distance n a b ≤ distance n a c) : distance n a b + distance n b c = distance n a c := by
  have := distance_cases ha hb
  have := distance_cases ha hc
  have := distance_cases hb hc
  omega

theorem distance_advance {n e s : ℕ} (he : e < n) (hs : s < n) (hne : s ≠ e) :
    distance n (next n e) (next n s) = distance n (next n e) s + 1 := by
  have := next_cases he
  have := next_cases hs
  have := distance_cases (next_lt he) hs
  have := distance_cases (next_lt he) (next_lt hs)
  omega

/-- The slot `j` lies on the probe path of an occupant of `i` whose home is `h`, before `i`. -/
def OnPath (n h i j : ℕ) : Prop := distance n h j < distance n h i

section Boundary

variable {n e h i j : ℕ}

theorem home_le (he : e < n) (hh : h < n) (hi : i < n) (hb : ¬ OnPath n h i e) :
    distance n (next n e) h ≤ distance n (next n e) i := by
  unfold OnPath at hb
  have := next_cases he
  have := distance_cases (next_lt he) hh
  have := distance_cases (next_lt he) hi
  have := distance_cases hh hi
  have := distance_cases hh he
  omega

theorem onPath_iff (he : e < n) (hh : h < n) (hi : i < n) (hj : j < n) (hb : ¬ OnPath n h i e)
    (hle : distance n (next n e) h ≤ distance n (next n e) j) :
    OnPath n h i j ↔ distance n (next n e) j < distance n (next n e) i := by
  have hj' := distance_add (next_lt he) hh hj hle
  have hi' := distance_add (next_lt he) hh hi (home_le he hh hi hb)
  unfold OnPath
  omega

theorem not_onPath_of_le (he : e < n) (hh : h < n) (hi : i < n) (hj : j < n) (hb : ¬ OnPath n h i e)
    (hle : distance n (next n e) i ≤ distance n (next n e) j) : ¬ OnPath n h i j := by
  have hhi := home_le he hh hi hb
  rw [onPath_iff he hh hi hj hb (Nat.le_trans hhi hle)]
  exact Nat.not_lt.mpr hle

theorem OnPath.home_le (he : e < n) (hh : h < n) (hj : j < n) (hb : ¬ OnPath n h i e) (hon : OnPath n h i j) :
    distance n (next n e) h ≤ distance n (next n e) j := by
  apply LinearProbing.home_le he hh hj
  unfold OnPath at hb hon ⊢
  omega

end Boundary

structure Probing (n : ℕ) (homes : ℕ → Option ℕ) (boundary : ℕ) : Prop where
  boundary_lt : boundary < n
  home_lt : ∀ i < n, ∀ h, homes i = some h → h < n
  bounded : ∀ i < n, ∀ h, homes i = some h → ¬ OnPath n h i boundary
  path : ∀ i < n, ∀ h, homes i = some h → ∀ j < n, OnPath n h i j → homes j ≠ none

theorem Probing.empty {n : ℕ} (hn : 0 < n) : Probing n (fun _ => none) 0 :=
  ⟨hn, by simp, by simp, by simp⟩

theorem Probing.fill {n h i e : ℕ} {homes : ℕ → Option ℕ} (p : Probing n homes e)
    (hi : i < n) (hh : h < n) (hfree : homes i = none)
    (hpath : ∀ j < n, OnPath n h i j → homes j ≠ none) :
    Probing n (Function.update homes i (some h)) i where
  boundary_lt := hi
  home_lt := by
    intro j hj h' hh'
    by_cases hji : j = i
    · subst hji
      rw [Function.update_self] at hh'
      exact Option.some.inj hh' ▸ hh
    · rw [Function.update_of_ne hji] at hh'
      exact p.home_lt j hj h' hh'
  bounded := by
    intro j hj h' hh' hb
    by_cases hji : j = i
    · subst hji
      exact Nat.lt_irrefl _ hb
    · rw [Function.update_of_ne hji] at hh'
      exact p.path j hj h' hh' i hi hb hfree
  path := by
    intro j hj h' hh' l hl hon
    by_cases hli : l = i
    · simp [hli]
    rw [Function.update_of_ne hli]
    by_cases hji : j = i
    · subst hji
      rw [Function.update_self] at hh'
      obtain rfl := Option.some.inj hh'
      exact hpath l hl hon
    · rw [Function.update_of_ne hji] at hh'
      exact p.path j hj h' hh' l hl hon

/-- The state of a backward-shift deletion: the only gap a probe path may have is `hole`, and the
slots between `hole` and `scan`, counted from the boundary, are done. -/
structure Shifting (n : ℕ) (homes : ℕ → Option ℕ) (boundary hole scan : ℕ) : Prop where
  boundary_lt : boundary < n
  hole_lt : hole < n
  scan_lt : scan < n
  home_lt : ∀ i < n, ∀ h, homes i = some h → h < n
  bounded : ∀ i < n, ∀ h, homes i = some h → ¬ OnPath n h i boundary
  free : homes hole = none
  path : ∀ i < n, ∀ h, homes i = some h → ∀ j < n, OnPath n h i j → homes j ≠ none ∨ j = hole
  ahead : distance n (next n boundary) hole < distance n (next n boundary) scan
  done : ∀ i < n, ∀ h, homes i = some h →
    distance n (next n boundary) i < distance n (next n boundary) scan → ¬ OnPath n h i hole

theorem Probing.vacate {n i e : ℕ} {homes : ℕ → Option ℕ} (p : Probing n homes e) (hi : i < n) :
    Probing n (Function.update homes i none) e ∨
      Shifting n (Function.update homes i none) e i (next n i) := by
  have hold : ∀ j, ∀ h, Function.update homes i none j = some h → homes j = some h ∧ j ≠ i := by
    intro j h hh
    by_cases hji : j = i
    · subst hji; simp at hh
    · exact ⟨by rwa [Function.update_of_ne hji] at hh, hji⟩
  have hpath : ∀ j < n, ∀ h, Function.update homes i none j = some h → ∀ l < n, OnPath n h j l →
      Function.update homes i none l ≠ none ∨ l = i := by
    intro j hj h hh l hl hon
    by_cases hli : l = i
    · exact Or.inr hli
    · rw [Function.update_of_ne hli]
      exact Or.inl (p.path j hj h (hold j h hh).1 l hl hon)
  have hhome : ∀ j < n, ∀ h, Function.update homes i none j = some h → h < n :=
    fun j hj h hh => p.home_lt j hj h (hold j h hh).1
  have hbound : ∀ j < n, ∀ h, Function.update homes i none j = some h → ¬ OnPath n h j e :=
    fun j hj h hh => p.bounded j hj h (hold j h hh).1
  by_cases hie : i = e
  · refine Or.inl ⟨p.boundary_lt, hhome, hbound, ?_⟩
    intro j hj h hh l hl hon
    refine (hpath j hj h hh l hl hon).resolve_right ?_
    rintro rfl
    exact hbound j hj h hh (hie ▸ hon)
  · have hstep := distance_advance p.boundary_lt hi hie
    refine Or.inr ⟨p.boundary_lt, hi, next_lt hi, hhome, hbound, by simp, hpath, by omega, ?_⟩
    intro j hj h hh hlt
    apply not_onPath_of_le p.boundary_lt (hhome j hj h hh) hj hi (hbound j hj h hh)
    omega

theorem Shifting.stop {n e hole scan : ℕ} {homes : ℕ → Option ℕ}
    (s : Shifting n homes e hole scan) (hs : homes scan = none) : Probing n homes e := by
  refine ⟨s.boundary_lt, s.home_lt, s.bounded, ?_⟩
  intro i hi h hh j hj hon
  rcases s.path i hi h hh j hj hon with hj' | rfl
  · exact hj'
  by_cases hdone : distance n (next n e) i < distance n (next n e) scan
  · exact absurd hon (s.done i hi h hh hdone)
  exfalso
  have hb := s.bounded i hi h hh
  have hhn := s.home_lt i hi h hh
  have hah := s.ahead
  have hne : distance n (next n e) i ≠ distance n (next n e) scan := by
    intro he
    rw [distance_inj (next_lt s.boundary_lt) hi s.scan_lt he, hs] at hh
    cases hh
  -- the path goes through the hole, so it goes on through the free slot of the scan
  have hmid : OnPath n h i scan := by
    have hhole := OnPath.home_le s.boundary_lt hhn hj hb hon
    apply (onPath_iff s.boundary_lt hhn hi s.scan_lt hb (by omega)).mpr
    omega
  rcases s.path i hi h hh scan s.scan_lt hmid with h' | h'
  · exact h' hs
  · rw [h'] at hah; exact Nat.lt_irrefl _ hah

theorem Shifting.keep {n e hole scan h : ℕ} {homes : ℕ → Option ℕ}
    (s : Shifting n homes e hole scan) (hs : homes scan = some h) (hon : ¬ OnPath n h scan hole) :
    (scan = e ∧ Probing n homes e) ∨ (scan ≠ e ∧ Shifting n homes e hole (next n scan)) := by
  have hsn := s.scan_lt
  have hah := s.ahead
  have hdone : ∀ i < n, ∀ h, homes i = some h →
      distance n (next n e) i ≤ distance n (next n e) scan → ¬ OnPath n h i hole := by
    intro i hi h' hh' hle
    rcases Nat.lt_or_eq_of_le hle with hlt | heq
    · exact s.done i hi h' hh' hlt
    · obtain rfl := distance_inj (next_lt s.boundary_lt) hi hsn heq
      rw [hs] at hh'
      exact Option.some.inj hh' ▸ hon
  by_cases hse : scan = e
  · refine Or.inl ⟨hse, s.boundary_lt, s.home_lt, s.bounded, ?_⟩
    intro i hi h' hh' j hj hj'
    refine (s.path i hi h' hh' j hj hj').resolve_right ?_
    rintro rfl
    refine hdone i hi h' hh' ?_ hj'
    have := next_cases s.boundary_lt
    have := distance_cases (next_lt s.boundary_lt) hi
    have := distance_cases (next_lt s.boundary_lt) hsn
    omega
  · have hstep := distance_advance s.boundary_lt hsn hse
    refine Or.inr ⟨hse, s.boundary_lt, s.hole_lt, next_lt hsn, s.home_lt, s.bounded, s.free, s.path,
      by omega, ?_⟩
    intro i hi h' hh' hlt
    apply hdone i hi h' hh'
    omega

theorem Shifting.move {n e hole scan h : ℕ} {homes : ℕ → Option ℕ}
    (s : Shifting n homes e hole scan) (hs : homes scan = some h) (hon : OnPath n h scan hole) :
    let moved := Function.update (Function.update homes hole (some h)) scan none
    (scan = e ∧ Probing n moved e) ∨ (scan ≠ e ∧ Shifting n moved e scan (next n scan)) := by
  intro moved
  have hsn := s.scan_lt
  have hhn := s.home_lt scan hsn h hs
  have hah := s.ahead
  have hne : hole ≠ scan := by rintro rfl; exact Nat.lt_irrefl _ hah
  have hcase : ∀ i h', moved i = some h' → (i = hole ∧ h' = h) ∨ (i ≠ hole ∧ i ≠ scan ∧ homes i = some h') := by
    intro i h' hh'
    by_cases his : i = scan
    · simp [moved, his] at hh'
    by_cases hih : i = hole
    · simp [moved, hih, Function.update_of_ne hne] at hh'
      exact Or.inl ⟨hih, hh'.symm⟩
    · simp only [moved, Function.update_of_ne his, Function.update_of_ne hih] at hh'
      exact Or.inr ⟨hih, his, hh'⟩
  have hocc : ∀ j, homes j ≠ none ∨ j = hole → moved j ≠ none ∨ j = scan := by
    intro j hj
    by_cases hjs : j = scan
    · exact Or.inr hjs
    by_cases hjh : j = hole
    · apply Or.inl
      simp [moved, hjh, Function.update_of_ne hne]
    · apply Or.inl
      simp only [moved, Function.update_of_ne hjs, Function.update_of_ne hjh]
      exact hj.resolve_right hjh
  have hhome : ∀ i < n, ∀ h', moved i = some h' → h' < n := by
    intro i hi h' hh'
    rcases hcase i h' hh' with ⟨-, rfl⟩ | ⟨-, -, hold⟩
    · exact hhn
    · exact s.home_lt i hi h' hold
  have hbound : ∀ i < n, ∀ h', moved i = some h' → ¬ OnPath n h' i e := by
    intro i hi h' hh'
    rcases hcase i h' hh' with ⟨rfl, rfl⟩ | ⟨-, -, hold⟩
    · have hb := s.bounded scan hsn h' hs
      unfold OnPath at hb hon ⊢
      omega
    · exact s.bounded i hi h' hold
  have hpath : ∀ i < n, ∀ h', moved i = some h' → ∀ j < n, OnPath n h' i j → moved j ≠ none ∨ j = scan := by
    intro i hi h' hh' j hj hj'
    rcases hcase i h' hh' with ⟨rfl, rfl⟩ | ⟨-, -, hold⟩
    · exact hocc j (s.path scan hsn h' hs j hj (Nat.lt_trans hj' hon))
    · exact hocc j (s.path i hi h' hold j hj hj')
  -- nothing on this side of the scan probes through the slot the scan has just freed
  have hdone : ∀ i < n, ∀ h', moved i = some h' →
      distance n (next n e) i ≤ distance n (next n e) scan → ¬ OnPath n h' i scan := by
    intro i hi h' hh' hle hon'
    exact not_onPath_of_le s.boundary_lt (hhome i hi h' hh') hi hsn (hbound i hi h' hh') hle hon'
  by_cases hse : scan = e
  · refine Or.inl ⟨hse, s.boundary_lt, hhome, hbound, ?_⟩
    intro i hi h' hh' j hj hj'
    refine (hpath i hi h' hh' j hj hj').resolve_right ?_
    rintro rfl
    exact hbound i hi h' hh' (hse ▸ hj')
  · have hstep := distance_advance s.boundary_lt hsn hse
    refine Or.inr ⟨hse, s.boundary_lt, hsn, next_lt hsn, hhome, hbound, by simp [moved], hpath,
      by omega, ?_⟩
    intro i hi h' hh' hlt
    apply hdone i hi h' hh'
    omega

end LinearProbing
