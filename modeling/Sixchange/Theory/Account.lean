import Mathlib.Algebra.GroupWithZero.Nat
import Mathlib.Algebra.Order.Group.Nat
import Mathlib.Algebra.BigOperators.Group.List.Basic

/-!
An account that is opened once with an amount, drawn on, and closed by paying out what is left. The
postings of an account name the amounts moved and what they leave.
-/

namespace Account

inductive Posting
  | opening (amount : ℕ)
  | draw (amount remaining : ℕ)
  | hold (remaining : ℕ)
  | close (amount : ℕ)
  deriving DecidableEq, Repr

namespace Posting

def opens : Posting → Bool
  | .opening _ => true
  | _ => false

def closes : Posting → Bool
  | .close _ => true
  | _ => false

def drawn : Posting → ℕ
  | .draw amount _ => amount
  | _ => 0

def closed : Posting → ℕ
  | .close amount => amount
  | _ => 0

def leaves : Posting → ℕ
  | .opening amount => amount
  | .draw _ remaining => remaining
  | .hold remaining => remaining
  | .close _ => 0

end Posting

inductive Step : Option ℕ → Posting → Option ℕ → Prop
  | opening {amount : ℕ} (h : 0 < amount) : Step none (.opening amount) (some amount)
  | draw {amount remaining : ℕ} (h : 0 < amount) :
    Step (some (amount + remaining)) (.draw amount remaining) (some remaining)
  | hold {remaining : ℕ} (h : 0 < remaining) : Step (some remaining) (.hold remaining) (some remaining)
  | close {amount : ℕ} (h : 0 < amount) : Step (some amount) (.close amount) (some 0)

inductive Posted : Option ℕ → List Posting → Option ℕ → Prop
  | nil {s : Option ℕ} : Posted s [] s
  | cons {s t u : Option ℕ} {p : Posting} {ps : List Posting} (h : Step s p t) (hs : Posted t ps u) :
    Posted s (p :: ps) u

theorem Step.draw_of_add {amount remaining total : ℕ} (h : 0 < amount) (hsum : amount + remaining = total) :
    Step (some total) (.draw amount remaining) (some remaining) := by
  rw [← hsum]
  exact .draw h

variable {s t u : Option ℕ} {p : Posting} {ps qs : List Posting} {a : ℕ}

theorem Step.leaves (h : Step s p t) : t = some p.leaves := by cases h <;> rfl

theorem Posted.last (h : Posted s ps t) : t = (ps.getLast?.map Posting.leaves).or s := by
  induction h with
  | nil => rfl
  | @cons s t u p ps hstep _ ih =>
    rw [ih, hstep.leaves, List.getLast?_cons]
    cases ps.getLast? <;> rfl

theorem Posted.single (h : Step s p t) : Posted s [p] t := .cons h .nil

theorem Posted.append (h : Posted s ps t) (h' : Posted t qs u) : Posted s (ps ++ qs) u := by
  induction h with
  | nil => exact h'
  | cons hstep _ ih => exact .cons hstep (ih h')

theorem Posted.split (h : Posted s (ps ++ qs) u) : ∃ t, Posted s ps t ∧ Posted t qs u := by
  induction ps generalizing s with
  | nil => exact ⟨s, .nil, h⟩
  | cons p ps ih =>
    rw [List.cons_append] at h
    cases h with
    | cons hstep hrest =>
      obtain ⟨t, hps, hqs⟩ := ih hrest
      exact ⟨t, .cons hstep hps, hqs⟩

theorem Posted.opened (h : Posted none ps t) : (ps = [] ∧ t = none) ∨
    ∃ amount qs, ps = .opening amount :: qs ∧ 0 < amount ∧ Posted (some amount) qs t := by
  cases h with
  | nil => exact .inl ⟨rfl, rfl⟩
  | cons hstep hrest =>
    cases hstep with
    | opening hpos => exact .inr ⟨_, _, rfl, hpos, hrest⟩

theorem Posted.settled (h : Posted (some 0) ps t) : ps = [] ∧ t = some 0 := by
  generalize hs : some 0 = s at h
  cases h with
  | nil => exact ⟨rfl, rfl⟩
  | cons hstep _ =>
    cases hstep with
    | opening => cases hs
    | draw hpos =>
      have := Option.some.inj hs
      omega
    | hold hpos =>
      have := Option.some.inj hs
      omega
    | close hpos =>
      have := Option.some.inj hs
      omega

theorem Posted.opens_eq_false (h : Posted (some a) ps t) : ∀ p ∈ ps, p.opens = false := by
  generalize hs : some a = s at h
  induction h generalizing a with
  | nil => exact fun p hp => absurd hp List.not_mem_nil
  | cons hstep hrest ih =>
    rw [List.forall_mem_cons]
    cases hstep with
    | opening => cases hs
    | draw => exact ⟨rfl, ih rfl⟩
    | hold => exact ⟨rfl, ih rfl⟩
    | close => exact ⟨rfl, ih rfl⟩

theorem Posted.balance (h : Posted (some a) ps t) :
    ∃ remaining, t = some remaining ∧
      a = (ps.map Posting.drawn).sum + (ps.map Posting.closed).sum + remaining := by
  generalize hs : some a = s at h
  induction h generalizing a with
  | nil => exact ⟨a, hs.symm, by simp⟩
  | cons hstep hrest ih =>
    simp only [List.map_cons, List.sum_cons]
    cases hstep with
    | opening => cases hs
    | draw =>
      obtain ⟨remaining, ht, hsum⟩ := ih rfl
      obtain rfl := Option.some.inj hs
      refine ⟨remaining, ht, ?_⟩
      simp only [Posting.drawn, Posting.closed]
      omega
    | hold =>
      obtain ⟨remaining, ht, hsum⟩ := ih rfl
      obtain rfl := Option.some.inj hs
      refine ⟨remaining, ht, ?_⟩
      simp only [Posting.drawn, Posting.closed]
      omega
    | close =>
      obtain ⟨remaining, ht, hsum⟩ := ih rfl
      obtain rfl := Option.some.inj hs
      refine ⟨remaining, ht, ?_⟩
      simp only [Posting.drawn, Posting.closed]
      omega

theorem Posted.closes_le_one (h : Posted (some a) ps t) : ps.countP Posting.closes ≤ 1 := by
  generalize hs : some a = s at h
  induction h generalizing a with
  | nil => exact Nat.zero_le 1
  | cons hstep hrest ih =>
    rw [List.countP_cons]
    cases hstep with
    | opening => cases hs
    | draw => exact ih rfl
    | hold => exact ih rfl
    | close =>
      rw [hrest.settled.1]
      exact Nat.le_refl 1

theorem Posted.closed_settled (h : Posted (some a) ps t) (hc : ∃ p ∈ ps, p.closes = true) : t = some 0 := by
  generalize hs : some a = s at h
  induction h generalizing a with
  | nil =>
    obtain ⟨p, hp, -⟩ := hc
    exact absurd hp List.not_mem_nil
  | cons hstep hrest ih =>
    rw [List.exists_mem_cons_iff] at hc
    cases hstep with
    | opening => cases hs
    | draw => exact ih (hc.resolve_left Bool.false_ne_true) rfl
    | hold => exact ih (hc.resolve_left Bool.false_ne_true) rfl
    | close => exact hrest.settled.2

theorem closed_eq_zero (h : ∀ p ∈ ps, p.closes = false) : (ps.map Posting.closed).sum = 0 := by
  induction ps with
  | nil => rfl
  | cons p ps ih =>
    rw [List.forall_mem_cons] at h
    rw [List.map_cons, List.sum_cons, ih h.2, Nat.add_zero]
    cases p with
    | close => cases h.1
    | _ => rfl

theorem Posted.step_of_mem (h : Posted s ps t) (hp : p ∈ ps) : ∃ s' t', Step s' p t' := by
  induction h with
  | nil => cases hp
  | cons hstep _ ih =>
    rcases List.mem_cons.mp hp with rfl | hp
    · exact ⟨_, _, hstep⟩
    · exact ih hp

theorem Posted.draw_pos {remaining : ℕ} (h : Posted s ps t) (hp : .draw a remaining ∈ ps) : 0 < a := by
  obtain ⟨s', t', hstep⟩ := h.step_of_mem hp
  cases hstep with
  | draw hpos => exact hpos

theorem Posted.eq_opening (h : Posted none ps t) (hp : .opening a ∈ ps) :
    ∃ qs, ps = .opening a :: qs ∧ Posted (some a) qs t := by
  rcases h.opened with ⟨rfl, -⟩ | ⟨amount, qs, rfl, -, hqs⟩
  · cases hp
  · rcases List.mem_cons.mp hp with he | hp
    · obtain rfl := Posting.opening.inj he
      exact ⟨qs, rfl, hqs⟩
    · exact absurd (hqs.opens_eq_false _ hp) Bool.noConfusion

theorem Posted.opens_le_one (h : Posted none ps t) : ps.countP Posting.opens ≤ 1 := by
  rcases h.opened with ⟨rfl, -⟩ | ⟨amount, qs, rfl, -, hqs⟩
  · exact Nat.zero_le 1
  · have hnone : qs.countP Posting.opens = 0 := by
      apply List.countP_eq_zero.mpr
      intro p hp
      rw [hqs.opens_eq_false p hp]
      exact Bool.false_ne_true
    rw [List.countP_cons, hnone]
    exact Nat.le_refl 1

theorem Posted.closes_le_one_of_none (h : Posted none ps t) : ps.countP Posting.closes ≤ 1 := by
  rcases h.opened with ⟨rfl, -⟩ | ⟨amount, qs, rfl, -, hqs⟩
  · exact Nat.zero_le 1
  · rw [List.countP_cons]
    exact hqs.closes_le_one

theorem Posted.drawn_left {remaining : ℕ} (h : Posted none (ps ++ .draw a remaining :: qs) t) :
    ∃ amount, .opening amount ∈ ps ∧ amount = (ps.map Posting.drawn).sum + a + remaining := by
  obtain ⟨s, hps, hqs⟩ := h.split
  cases hqs with
  | cons hstep _ =>
    cases hstep with
    | draw hpos =>
      rcases hps.opened with ⟨-, hs⟩ | ⟨amount, ps', rfl, -, hps'⟩
      · cases hs
      · refine ⟨amount, List.mem_cons_self, ?_⟩
        have hopen : ∀ p ∈ ps', p.closes = false := by
          intro p hp
          rw [Bool.eq_false_iff]
          intro hc
          have := Option.some.inj (hps'.closed_settled ⟨p, hp, hc⟩)
          omega
        obtain ⟨left, hleft, hsum⟩ := hps'.balance
        obtain rfl := Option.some.inj hleft
        rw [closed_eq_zero hopen] at hsum
        rw [List.map_cons, List.sum_cons]
        change amount = 0 + _ + a + remaining
        omega

end Account
