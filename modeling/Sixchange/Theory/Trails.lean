import Mathlib.Data.List.Basic

inductive Trail {σ α : Type} (R : σ → α → σ → Prop) : σ → List α → σ → Prop
  | nil (s : σ) : Trail R s [] s
  | cons {s t u : σ} {a : α} {as : List α} (h : R s a t) (htail : Trail R t as u) : Trail R s (a :: as) u

namespace Trail

variable {σ α : Type} {R : σ → α → σ → Prop} {s t u : σ} {a : α} {as as' : List α}

theorem single (h : R s a t) : Trail R s [a] t := .cons h (.nil t)

theorem append (h : Trail R s as t) (h' : Trail R t as' u) : Trail R s (as ++ as') u := by
  induction h with
  | nil => exact h'
  | cons h htail ih => exact .cons h (ih h')

theorem split (h : Trail R s (as ++ as') u) : ∃ t, Trail R s as t ∧ Trail R t as' u := by
  induction as generalizing s with
  | nil => exact ⟨s, .nil s, h⟩
  | cons a as ih =>
    cases h with
    | cons h htail =>
      obtain ⟨t, hfirst, hrest⟩ := ih htail
      exact ⟨t, .cons h hfirst, hrest⟩

theorem map {β : Type} {R' : σ → β → σ → Prop} {f : α → β} (hstep : ∀ s a t, R s a t → R' s (f a) t)
    (h : Trail R s as t) : Trail R' s (as.map f) t := by
  induction h with
  | nil s => exact .nil s
  | cons h htail ih => exact .cons (hstep _ _ _ h) ih

theorem invariant {I : σ → Prop} (hstep : ∀ s a t, I s → R s a t → I t) (h : Trail R s as t) (hs : I s) : I t := by
  induction h with
  | nil => exact hs
  | cons h htail ih => exact ih (hstep _ _ _ hs h)

theorem records {I : List α → σ → Prop} (hstep : ∀ log s a t, I log s → R s a t → I (log ++ [a]) t)
    {log : List α} (h : Trail R s as t) (hs : I log s) : I (log ++ as) t := by
  induction h generalizing log with
  | nil =>
    rw [List.append_nil]
    exact hs
  | cons h htail ih =>
    rw [List.append_cons]
    exact ih (hstep _ _ _ _ hs h)

theorem observes {γ : Type} (see : γ → α → γ) (view : σ → γ) (hstep : ∀ s a t, R s a t → view t = see (view s) a)
    (h : Trail R s as t) : view t = as.foldl see (view s) := by
  induction h with
  | nil => rfl
  | cons h htail ih => rw [ih, hstep _ _ _ h, List.foldl_cons]

end Trail
