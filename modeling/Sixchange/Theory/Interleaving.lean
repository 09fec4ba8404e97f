import Mathlib.Data.List.Count

/-!
Threads that share a state and take turns in any order. A rank that the steps of one thread lower and
that no other thread raises is used up after as many steps of that thread.
-/

namespace Interleaving

variable {σ ι : Type} {step : σ → ι → σ} {I : σ → Prop}

theorem invariant (hstep : ∀ s i, I s → I (step s i)) {s : σ} (hs : I s) (schedule : List ι) :
    I (schedule.foldl step s) := by
  induction schedule generalizing s with
  | nil => exact hs
  | cons i schedule ih => exact ih (hstep s i hs)

variable [DecidableEq ι] {rank : σ → ℕ} {worker : ι}

theorem rank_le (hstep : ∀ s i, I s → I (step s i))
    (hother : ∀ s i, I s → i ≠ worker → rank (step s i) ≤ rank s)
    (hworker : ∀ s, I s → rank (step s worker) ≤ rank s - 1) {s : σ} (hs : I s) (schedule : List ι) :
    rank (schedule.foldl step s) ≤ rank s - schedule.count worker := by
  induction schedule generalizing s with
  | nil => exact Nat.le_refl _
  | cons i schedule ih =>
    have hrest := ih (hstep s i hs)
    rw [List.foldl_cons, List.count_cons]
    by_cases hi : i = worker
    · subst hi
      have hdown := hworker s hs
      rw [if_pos (beq_self_eq_true i)]
      omega
    · have hsame := hother s i hs hi
      rw [if_neg (by simpa using hi)]
      omega

theorem exhausted (hstep : ∀ s i, I s → I (step s i))
    (hother : ∀ s i, I s → i ≠ worker → rank (step s i) ≤ rank s)
    (hworker : ∀ s, I s → rank (step s worker) ≤ rank s - 1) {s : σ} (hs : I s) {schedule : List ι}
    (henough : rank s ≤ schedule.count worker) : rank (schedule.foldl step s) = 0 := by
  have hle := rank_le hstep hother hworker hs schedule
  omega

end Interleaving
