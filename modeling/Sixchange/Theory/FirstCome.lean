import Sixchange.Theory.LinearProbing
import Mathlib.Order.WellFounded

namespace LinearProbing

variable {κ : Type} {n : ℕ} {home : κ → ℕ} {older : κ → κ → Prop} {slots : ℕ → Option κ}

/-- Every slot on the way to a key, `hole` apart, is taken by a key that came before it. -/
def FirstCome (n : ℕ) (home : κ → ℕ) (older : κ → κ → Prop) (slots : ℕ → Option κ) (hole : ℕ) : Prop :=
  ∀ i < n, ∀ k, slots i = some k → ∀ j < n, OnPath n (home k) i j →
    j = hole ∨ ∃ k', slots j = some k' ∧ older k' k

def homesOf (home : κ → ℕ) (slots : ℕ → Option κ) (i : ℕ) : Option ℕ := (slots i).map home

theorem homesOf_some {i : ℕ} {k : κ} (h : slots i = some k) : homesOf home slots i = some (home k) := by
  rw [homesOf, h, Option.map_some]

theorem homesOf_none {i : ℕ} : homesOf home slots i = none ↔ slots i = none := Option.map_eq_none_iff

namespace FirstCome

theorem mono {older' : κ → κ → Prop} {hole : ℕ} (f : FirstCome n home older slots hole)
    (hmono : ∀ i < n, ∀ j < n, ∀ k k', slots i = some k → slots j = some k' → older k' k → older' k' k) :
    FirstCome n home older' slots hole := by
  intro i hi k hk j hj hon
  rcases f i hi k hk j hj hon with he | ⟨k', hk', hold⟩
  · exact .inl he
  · exact .inr ⟨k', hk', hmono i hi j hj k k' hk hk' hold⟩

theorem fill (f : FirstCome n home older slots n) {i : ℕ} {k : κ} (hfree : slots i = none)
    (hpath : ∀ j < n, OnPath n (home k) i j → ∃ k', slots j = some k' ∧ older k' k) :
    FirstCome n home older (Function.update slots i (some k)) n := by
  intro i' hi' k₁ hk₁ j hj hon
  have hold : ∃ k', slots j = some k' ∧ older k' k₁ := by
    by_cases hii : i' = i
    · subst hii
      rw [Function.update_self] at hk₁
      obtain rfl := Option.some.inj hk₁
      exact hpath j hj hon
    · rw [Function.update_of_ne hii] at hk₁
      exact (f i' hi' k₁ hk₁ j hj hon).resolve_left (Nat.ne_of_lt hj)
  obtain ⟨k', hk', holder⟩ := hold
  refine .inr ⟨k', ?_, holder⟩
  rw [Function.update_of_ne]
  · exact hk'
  · rintro rfl
    rw [hfree] at hk'
    cases hk'

theorem vacate (f : FirstCome n home older slots n) (i : ℕ) :
    FirstCome n home older (Function.update slots i none) i := by
  intro i' hi' k hk j hj hon
  by_cases hji : j = i
  · exact .inl hji
  by_cases hii : i' = i
  · subst hii
    rw [Function.update_self] at hk
    cases hk
  rw [Function.update_of_ne hii] at hk
  rw [Function.update_of_ne hji]
  exact .inr ((f i' hi' k hk j hj hon).resolve_left (Nat.ne_of_lt hj))

theorem close {e hole : ℕ} (f : FirstCome n home older slots hole) (p : Probing n (homesOf home slots) e)
    (hfree : slots hole = none) : FirstCome n home older slots n := by
  intro i hi k hk j hj hon
  refine .inr ((f i hi k hk j hj hon).resolve_left ?_)
  rintro rfl
  exact p.path i hi _ (homesOf_some hk) j hj hon (homesOf_none.mpr hfree)

end FirstCome

theorem Shifting.onPath_scan {homes : ℕ → Option ℕ} {e hole scan i h : ℕ} (s : Shifting n homes e hole scan)
    (hi : i < n) (hh : homes i = some h) (hne : i ≠ scan) (hon : OnPath n h i hole) : OnPath n h i scan := by
  have hah := s.ahead
  have hb := s.bounded i hi h hh
  have hhn := s.home_lt i hi h hh
  have hle : distance n (next n e) scan ≤ distance n (next n e) i :=
    Nat.le_of_not_lt fun hlt => s.done i hi h hh hlt hon
  have hneq : distance n (next n e) scan ≠ distance n (next n e) i := fun heq =>
    hne (distance_inj (next_lt s.boundary_lt) s.scan_lt hi heq).symm
  have hhole := OnPath.home_le s.boundary_lt hhn s.hole_lt hb hon
  apply (onPath_iff s.boundary_lt hhn hi s.scan_lt hb (by omega)).mpr
  omega

theorem FirstCome.move {e hole scan : ℕ} {k : κ} (s : Shifting n (homesOf home slots) e hole scan)
    (f : FirstCome n home older slots hole) (hs : slots scan = some k) (hon : OnPath n (home k) scan hole) :
    FirstCome n home older (Function.update (Function.update slots hole (some k)) scan none) scan := by
  have hne : hole ≠ scan := by
    rintro rfl
    exact Nat.lt_irrefl _ s.ahead
  intro i hi k₁ hk₁ j hj hj₁
  by_cases hjs : j = scan
  · exact .inl hjs
  refine .inr ?_
  rw [Function.update_of_ne hjs]
  have his : i ≠ scan := by
    rintro rfl
    rw [Function.update_self] at hk₁
    cases hk₁
  rw [Function.update_of_ne his] at hk₁
  by_cases hih : i = hole
  -- the key that has moved: its way is now a part of what it was
  · subst hih
    rw [Function.update_self] at hk₁
    obtain rfl := Option.some.inj hk₁
    have hji : j ≠ i := by
      rintro rfl
      exact Nat.lt_irrefl _ hj₁
    rw [Function.update_of_ne hji]
    exact (f scan s.scan_lt k hs j hj (Nat.lt_trans hj₁ hon)).resolve_left hji
  · rw [Function.update_of_ne hih] at hk₁
    by_cases hjh : j = hole
    -- a key that is reached through the hole: the key that has moved there came before it
    · subst hjh
      have hscan := s.onPath_scan hi (homesOf_some hk₁) his hj₁
      obtain ⟨k', hk', hold⟩ := (f i hi k₁ hk₁ scan s.scan_lt hscan).resolve_left (Ne.symm hne)
      rw [hs] at hk'
      obtain rfl := Option.some.inj hk'
      exact ⟨k, Function.update_self .., hold⟩
    · rw [Function.update_of_ne hjh]
      exact (f i hi k₁ hk₁ j hj hj₁).resolve_left hjh

namespace FirstCome

variable {slots' : ℕ → Option κ} (f : FirstCome n home older slots n) (f' : FirstCome n home older slots' n)
  (hwf : WellFounded older) (hhome : ∀ k, home k < n)
  (hsame : ∀ k, (∃ i < n, slots i = some k) ↔ ∃ i < n, slots' i = some k)

include f f' hwf hhome hsame

theorem position_eq (k : κ) : ∀ i < n, ∀ i' < n, slots i = some k → slots' i' = some k → i = i' := by
  induction k using hwf.induction with
  | _ k ih =>
    intro i hi i' hi' hk hk'
    rcases Nat.lt_trichotomy (distance n (home k) i) (distance n (home k) i') with hlt | heq | hgt
    · obtain ⟨k₁, hk₁, hold⟩ := (f' i' hi' k hk' i hi hlt).resolve_left (Nat.ne_of_lt hi)
      obtain ⟨i₁, hi₁, hslot⟩ := (hsame k₁).mpr ⟨i, hi, hk₁⟩
      obtain rfl := ih k₁ hold i₁ hi₁ i hi hslot hk₁
      rw [hk] at hslot
      obtain rfl := Option.some.inj hslot
      exact absurd hold (hwf.asymmetric k k hold)
    · exact distance_inj (hhome k) hi hi' heq
    · obtain ⟨k₁, hk₁, hold⟩ := (f i hi k hk i' hi' hgt).resolve_left (Nat.ne_of_lt hi')
      obtain ⟨i₁, hi₁, hslot⟩ := (hsame k₁).mp ⟨i', hi', hk₁⟩
      obtain rfl := ih k₁ hold i' hi' i₁ hi₁ hk₁ hslot
      rw [hk'] at hslot
      obtain rfl := Option.some.inj hslot
      exact absurd hold (hwf.asymmetric k k hold)

/-- Two tables with the same keys that came in the same order are the same. -/
theorem slots_eq {i : ℕ} (hi : i < n) : slots i = slots' i := by
  have hposition := position_eq f f' hwf hhome hsame
  apply Option.ext
  intro k
  constructor
  · intro hk
    obtain ⟨i', hi', hk'⟩ := (hsame k).mp ⟨i, hi, hk⟩
    rw [hposition k i hi i' hi' hk hk']
    exact hk'
  · intro hk'
    obtain ⟨i', hi', hk⟩ := (hsame k).mpr ⟨i, hi, hk'⟩
    rw [← hposition k i' hi' i hi hk hk']
    exact hk

end FirstCome

end LinearProbing
