import Mathlib.Data.List.Forall2
import Mathlib.Data.List.Induction
import Mathlib.Data.Set.Insert

namespace Transducer

variable {σ τ α α' β β' γ δ ε : Type}

def trace (step : σ → α → σ × β) : σ → List α → σ × List β
  | s, [] => (s, [])
  | s, a :: as =>
    let (s₁, b) := step s a
    let (s₂, bs) := trace step s₁ as
    (s₂, b :: bs)

def run (step : σ → α → Except ε (σ × β)) : σ → List α → Except ε (σ × List β)
  | s, [] => .ok (s, [])
  | s, a :: as => do
    let (s₁, b) ← step s a
    let (s₂, bs) ← run step s₁ as
    .ok (s₂, b :: bs)

section Trace

variable {step : σ → α → σ × β}

@[simp] theorem trace_nil (s : σ) : trace step s [] = (s, []) := rfl

@[simp] theorem trace_cons (s : σ) (a : α) (as : List α) :
    trace step s (a :: as) =
      ((trace step (step s a).1 as).1, (step s a).2 :: (trace step (step s a).1 as).2) := rfl

theorem trace_invariant {I : σ → Prop} (hstep : ∀ s a, I s → I (step s a).1)
    {s : σ} (hs : I s) (as : List α) : I (trace step s as).1 := by
  induction as generalizing s with
  | nil => exact hs
  | cons a as ih => exact ih (hstep s a hs)

theorem within_of_trace {B : σ → Prop} (hback : ∀ s a, B (step s a).1 → B s) {s : σ} (as : List α)
    (h : B (trace step s as).1) : B s := by
  induction as generalizing s with
  | nil => exact h
  | cons a as ih => exact hback s a (ih h)

/-- An invariant that needs a bound, for a bound that can only be broken for good. -/
theorem trace_invariant_within {I B : σ → Prop} (hback : ∀ s a, B (step s a).1 → B s)
    (hstep : ∀ s a, I s → B (step s a).1 → I (step s a).1)
    {s : σ} (hs : I s) (as : List α) (h : B (trace step s as).1) : I (trace step s as).1 := by
  induction as generalizing s with
  | nil => exact hs
  | cons a as ih => exact ih (hstep s a hs (within_of_trace hback as h)) h

theorem trace_simulates_within {step' : τ → α → τ × β} {R : σ → τ → Prop} {B : σ → Prop}
    (hback : ∀ s a, B (step s a).1 → B s)
    (hstep : ∀ s t a, R s t → B (step s a).1 →
      (step s a).2 = (step' t a).2 ∧ R (step s a).1 (step' t a).1)
    {s : σ} {t : τ} (hst : R s t) (as : List α) (h : B (trace step s as).1) :
    (trace step s as).2 = (trace step' t as).2 ∧ R (trace step s as).1 (trace step' t as).1 := by
  induction as generalizing s t with
  | nil => exact ⟨rfl, hst⟩
  | cons a as ih =>
    obtain ⟨hout, hrel⟩ := hstep s t a hst (within_of_trace hback as h)
    obtain ⟨houts, hfinal⟩ := ih hrel h
    simp only [trace_cons, hout, houts]
    exact ⟨trivial, hfinal⟩

theorem trace_observes_within {see : γ → β → γ} {R : σ → γ → Prop} {B : σ → Prop}
    (hback : ∀ s a, B (step s a).1 → B s)
    (hstep : ∀ s g a, R s g → B (step s a).1 → R (step s a).1 (see g (step s a).2))
    {s : σ} {g : γ} (hsg : R s g) (as : List α) (h : B (trace step s as).1) :
    R (trace step s as).1 ((trace step s as).2.foldl see g) := by
  induction as generalizing s g with
  | nil => exact hsg
  | cons a as ih => exact ih (hstep s g a hsg (within_of_trace hback as h)) h

theorem trace_observes_of {see : γ → β → γ} {R : σ → γ → Prop} {V : α → Prop}
    (hstep : ∀ s g a, V a → R s g → R (step s a).1 (see g (step s a).2))
    {s : σ} {g : γ} (hsg : R s g) {as : List α} (hvalid : ∀ a ∈ as, V a) :
    R (trace step s as).1 ((trace step s as).2.foldl see g) := by
  induction as generalizing s g with
  | nil => exact hsg
  | cons a as ih =>
    rw [List.forall_mem_cons] at hvalid
    exact ih (hstep s g a hvalid.1 hsg) hvalid.2

theorem trace_observes {see : γ → β → γ} {R : σ → γ → Prop}
    (hstep : ∀ s g a, R s g → R (step s a).1 (see g (step s a).2))
    {s : σ} {g : γ} (hsg : R s g) (as : List α) :
    R (trace step s as).1 ((trace step s as).2.foldl see g) :=
  trace_observes_of (V := fun _ => True) (fun s g a _ => hstep s g a) hsg (fun _ _ => trivial)

theorem trace_simulates {step' : τ → α → τ × β} {R : σ → τ → Prop}
    (hstep : ∀ s t a, R s t → (step s a).2 = (step' t a).2 ∧ R (step s a).1 (step' t a).1)
    {s : σ} {t : τ} (hst : R s t) (as : List α) :
    (trace step s as).2 = (trace step' t as).2 ∧ R (trace step s as).1 (trace step' t as).1 :=
  trace_simulates_within (B := fun _ => True) (fun _ _ _ => trivial) (fun s t a h _ => hstep s t a h) hst as
    trivial

theorem trace_map {f : α → α'} {g : β → β'} {step' : τ → α' → τ × β'} {R : σ → τ → Prop}
    (hstep : ∀ s t a, R s t → (step' t (f a)).2 = g (step s a).2 ∧ R (step s a).1 (step' t (f a)).1)
    {s : σ} {t : τ} (hst : R s t) (as : List α) :
    (trace step' t (as.map f)).2 = (trace step s as).2.map g ∧
      R (trace step s as).1 (trace step' t (as.map f)).1 := by
  induction as generalizing s t with
  | nil => exact ⟨rfl, hst⟩
  | cons a as ih =>
    obtain ⟨hout, hrel⟩ := hstep s t a hst
    obtain ⟨houts, hfinal⟩ := ih hrel
    simp only [List.map_cons, trace_cons, hout, houts]
    exact ⟨trivial, hfinal⟩

theorem trace_answers {I : σ → Prop} {Q : α → β → Prop} (hstep : ∀ s a, I s → I (step s a).1 ∧ Q a (step s a).2)
    {s : σ} (hs : I s) (as : List α) : List.Forall₂ Q as (trace step s as).2 := by
  induction as generalizing s with
  | nil => exact .nil
  | cons a as ih => exact .cons (hstep s a hs).2 (ih (hstep s a hs).1)

def answersTo (keep : α → Bool) (as : List α) (bs : List β) : List β :=
  ((as.zip bs).filter fun ab => keep ab.1).map Prod.snd

theorem trace_filter {step : σ → α → σ × β} {R : σ → σ → Prop} {keep : α → Bool} {valid : α → Prop} {ok : β → Prop}
    {f g : β → δ} {view view' : β → List γ}
    (hdrop : ∀ s t a, R s t → valid a → keep a = false → ok (step s a).2 →
      R (step s a).1 t ∧ view (step s a).2 = [])
    (hkeep : ∀ s t a, R s t → valid a → keep a = true → ok (step s a).2 → R (step s a).1 (step t a).1 ∧
      g (step t a).2 = f (step s a).2 ∧ view' (step t a).2 = view (step s a).2)
    {s t : σ} (hst : R s t) {as : List α} (hvalid : ∀ a ∈ as, valid a) (hok : ∀ b ∈ (trace step s as).2, ok b) :
    R (trace step s as).1 (trace step t (as.filter keep)).1 ∧
      (trace step t (as.filter keep)).2.map g = (answersTo keep as (trace step s as).2).map f ∧
      (trace step t (as.filter keep)).2.flatMap view' = (trace step s as).2.flatMap view := by
  induction as generalizing s t with
  | nil => exact ⟨hst, rfl, rfl⟩
  | cons a as ih =>
    rw [List.forall_mem_cons] at hvalid
    simp only [trace_cons, List.forall_mem_cons] at hok
    cases hk : keep a with
    | false =>
      obtain ⟨hrel, hview⟩ := hdrop s t a hst hvalid.1 hk hok.1
      obtain ⟨hfinal, hanswers, hviews⟩ := ih hrel hvalid.2 hok.2
      rw [List.filter_cons_of_neg (by simp [hk])]
      refine ⟨hfinal, ?_, ?_⟩
      · rw [trace_cons, answersTo, List.zip_cons_cons, List.filter_cons_of_neg (by simp [hk])]
        exact hanswers
      · rw [trace_cons, List.flatMap_cons, hview, List.nil_append]
        exact hviews
    | true =>
      obtain ⟨hrel, hanswer, hview⟩ := hkeep s t a hst hvalid.1 hk hok.1
      obtain ⟨hfinal, hanswers, hviews⟩ := ih hrel hvalid.2 hok.2
      rw [List.filter_cons_of_pos hk]
      refine ⟨hfinal, ?_, ?_⟩
      · rw [trace_cons, trace_cons, answersTo, List.zip_cons_cons, List.filter_cons_of_pos (by simp [hk])]
        rw [List.map_cons, List.map_cons, List.map_cons, hanswer, hanswers]
        rfl
      · rw [trace_cons, trace_cons, List.flatMap_cons, List.flatMap_cons, hview, hviews]

end Trace

section Run

variable {step : σ → α → Except ε (σ × β)}

@[simp] theorem run_nil (s : σ) : run step s [] = .ok (s, []) := rfl

theorem run_cons_ok {s s₁ s₂ : σ} {a : α} {as : List α} {b : β} {bs : List β}
    (h₁ : step s a = .ok (s₁, b)) (h₂ : run step s₁ as = .ok (s₂, bs)) :
    run step s (a :: as) = .ok (s₂, b :: bs) := by
  simp only [run, h₁]
  change (run step s₁ as >>= _) = _
  rw [h₂]
  rfl

theorem run_cons_inv {s s₂ : σ} {a : α} {as : List α} {cs : List β} (h : run step s (a :: as) = .ok (s₂, cs)) :
    ∃ s₁ b bs, step s a = .ok (s₁, b) ∧ run step s₁ as = .ok (s₂, bs) ∧ cs = b :: bs := by
  cases h₁ : step s a with
  | error e =>
    simp only [run, h₁] at h
    cases h
  | ok r =>
    simp only [run, h₁] at h
    change (run step r.1 as >>= _) = _ at h
    cases h₂ : run step r.1 as with
    | error e =>
      rw [h₂] at h
      cases h
    | ok r' =>
      rw [h₂] at h
      obtain ⟨rfl, rfl⟩ := Prod.mk.inj (Except.ok.inj h)
      exact ⟨r.1, r.2, r'.2, rfl, h₂, rfl⟩

theorem run_append_ok {s s₁ s₂ : σ} {as as' : List α} {bs bs' : List β} (h : run step s as = .ok (s₁, bs))
    (h' : run step s₁ as' = .ok (s₂, bs')) : run step s (as ++ as') = .ok (s₂, bs ++ bs') := by
  induction as generalizing s bs with
  | nil =>
    obtain ⟨rfl, rfl⟩ := Prod.mk.inj (Except.ok.inj h)
    exact h'
  | cons a as ih =>
    obtain ⟨s', b, cs, hstep, hrun, rfl⟩ := run_cons_inv h
    exact run_cons_ok hstep (ih hrun)

theorem run_append_inv {s s₂ : σ} {as as' : List α} {cs : List β} (h : run step s (as ++ as') = .ok (s₂, cs)) :
    ∃ s₁ bs bs', run step s as = .ok (s₁, bs) ∧ run step s₁ as' = .ok (s₂, bs') ∧ cs = bs ++ bs' := by
  induction as generalizing s cs with
  | nil => exact ⟨s, [], cs, rfl, h, rfl⟩
  | cons a as ih =>
    obtain ⟨s', b, cs', hstep, hrun, rfl⟩ := run_cons_inv h
    obtain ⟨s₁, bs, bs', hrun₁, hrun₂, rfl⟩ := ih hrun
    exact ⟨s₁, b :: bs, bs', run_cons_ok hstep hrun₁, hrun₂, rfl⟩

theorem run_history {H : List α → σ → Prop} {s₀ : σ} (h₀ : H [] s₀)
    (hstep : ∀ as bs s a s' b, run step s₀ as = .ok (s, bs) → H as s → step s a = .ok (s', b) →
      H (as ++ [a]) s')
    {as : List α} {s : σ} {bs : List β} (h : run step s₀ as = .ok (s, bs)) : H as s := by
  induction as using List.reverseRecOn generalizing s bs with
  | nil =>
    obtain ⟨rfl, -⟩ := Prod.mk.inj (Except.ok.inj h)
    exact h₀
  | append_singleton as a ih =>
    obtain ⟨s₁, cs, cs', hrun, hlast, -⟩ := run_append_inv h
    obtain ⟨s₂, b, cs'', ha, hend, -⟩ := run_cons_inv hlast
    obtain ⟨rfl, -⟩ := Prod.mk.inj (Except.ok.inj hend)
    exact hstep as cs s₁ a s₂ b hrun (ih hrun) ha

theorem run_invariant {I : σ → Prop} (hstep : ∀ s a s' b, I s → step s a = .ok (s', b) → I s')
    {s₀ s : σ} {as : List α} {bs : List β} (h₀ : I s₀) (h : run step s₀ as = .ok (s, bs)) : I s :=
  run_history (H := fun _ => I) h₀ (fun _ _ s a s' b _ hs ha => hstep s a s' b hs ha) h

theorem run_simulates {step' : τ → α → τ × β} {R : σ → τ → Prop}
    (hstep : ∀ s t a, R s t → ∃ s', step s a = .ok (s', (step' t a).2) ∧ R s' (step' t a).1)
    {s : σ} {t : τ} (hst : R s t) (as : List α) :
    ∃ s', run step s as = .ok (s', (trace step' t as).2) ∧ R s' (trace step' t as).1 := by
  induction as generalizing s t with
  | nil => exact ⟨s, rfl, hst⟩
  | cons a as ih =>
    obtain ⟨s₁, h₁, hrel⟩ := hstep s t a hst
    obtain ⟨s₂, h₂, hfinal⟩ := ih hrel
    exact ⟨s₂, run_cons_ok h₁ h₂, hfinal⟩

theorem run_answers {I : σ → Prop} {Q : α → β → Prop}
    (hstep : ∀ s a, I s → ∃ s' b, step s a = .ok (s', b) ∧ I s' ∧ Q a b) {s : σ} (hs : I s) (as : List α) :
    ∃ s' bs, run step s as = .ok (s', bs) ∧ I s' ∧ List.Forall₂ Q as bs := by
  induction as generalizing s with
  | nil => exact ⟨s, [], rfl, hs, .nil⟩
  | cons a as ih =>
    obtain ⟨s₁, b, h₁, hs₁, hb⟩ := hstep s a hs
    obtain ⟨s₂, bs, h₂, hs₂, hbs⟩ := ih hs₁
    exact ⟨s₂, b :: bs, run_cons_ok h₁ h₂, hs₂, .cons hb hbs⟩

end Run

def visited (step : σ → α → Except ε (σ × β)) (s : σ) (as : List α) : Set σ :=
  {s' | ∃ done bs, done <+: as ∧ run step s done = .ok (s', bs)}

section Visited

variable {step : σ → α → Except ε (σ × β)} {s s₁ s₂ : σ} {a : α} {b : β} {as : List α} {bs : List β}

theorem visited_nil : visited step s [] = {s} := by
  ext s'
  constructor
  · rintro ⟨done, bs, hdone, hrun⟩
    obtain rfl := List.prefix_nil.mp hdone
    exact (Prod.mk.inj (Except.ok.inj hrun)).1.symm
  · rintro rfl
    exact ⟨[], [], List.nil_prefix, rfl⟩

theorem visited_concat (h : run step s as = .ok (s₁, bs)) (ha : step s₁ a = .ok (s₂, b)) :
    visited step s (as ++ [a]) = insert s₂ (visited step s as) := by
  have hrun := run_append_ok h (run_cons_ok ha (run_nil s₂))
  ext s'
  rw [Set.mem_insert_iff]
  constructor
  · rintro ⟨done, cs, hdone, hdone'⟩
    obtain rfl | hdone := List.prefix_concat_iff.mp hdone
    · exact .inl (Prod.mk.inj (Except.ok.inj (hdone'.symm.trans hrun))).1
    · exact .inr ⟨done, cs, hdone, hdone'⟩
  · rintro (rfl | ⟨done, cs, hdone, hdone'⟩)
    · exact ⟨as ++ [a], _, List.prefix_rfl, hrun⟩
    · exact ⟨done, cs, hdone.trans (List.prefix_append as [a]), hdone'⟩

end Visited

def Throughout (step : σ → α → Except ε (σ × β)) (good : σ → Prop) (s : σ) (as : List α) : Prop :=
  ∀ done, done <+: as → ∃ s' bs, run step s done = .ok (s', bs) ∧ good s'

def StepsFit (step : σ → α → Except ε (σ × β)) (fits : σ → α → Prop) (s : σ) (as : List α) : Prop :=
  ∀ done a, done ++ [a] <+: as → ∃ s' bs, run step s done = .ok (s', bs) ∧ fits s' a

section Throughout

variable {step : σ → α → Except ε (σ × β)} {good : σ → Prop} {fits : σ → α → Prop} {s s₁ : σ} {a : α} {b : β}
  {as : List α}

theorem run_of_run_cons {done : List α} {s₂ : σ} {bs : List β} (h₁ : step s a = .ok (s₁, b))
    (h : run step s (a :: done) = .ok (s₂, bs)) : ∃ bs', run step s₁ done = .ok (s₂, bs') := by
  obtain ⟨s', b', bs', h₁', hrun, -⟩ := run_cons_inv h
  obtain ⟨rfl, -⟩ := Prod.mk.inj (Except.ok.inj (h₁.symm.trans h₁'))
  exact ⟨bs', hrun⟩

theorem Throughout.start (h : Throughout step good s as) : good s := by
  obtain ⟨s', bs, hrun, hgood⟩ := h [] List.nil_prefix
  obtain ⟨rfl, -⟩ := Prod.mk.inj (Except.ok.inj hrun)
  exact hgood

theorem throughout_nil : Throughout step good s [] ↔ good s := by
  refine ⟨Throughout.start, fun h done hdone => ?_⟩
  obtain rfl := List.prefix_nil.mp hdone
  exact ⟨s, [], rfl, h⟩

theorem throughout_cons (h₁ : step s a = .ok (s₁, b)) :
    Throughout step good s (a :: as) ↔ good s ∧ Throughout step good s₁ as := by
  constructor
  · refine fun h => ⟨h.start, fun done hdone => ?_⟩
    obtain ⟨s', bs, hrun, hgood⟩ := h (a :: done) ((List.prefix_cons_inj a).mpr hdone)
    obtain ⟨bs', hrun'⟩ := run_of_run_cons h₁ hrun
    exact ⟨s', bs', hrun', hgood⟩
  · rintro ⟨hgood, h⟩ done hdone
    rcases List.prefix_cons_iff.mp hdone with rfl | ⟨done', rfl, hdone'⟩
    · exact ⟨s, [], rfl, hgood⟩
    · obtain ⟨s', bs, hrun, hgood'⟩ := h done' hdone'
      exact ⟨s', b :: bs, run_cons_ok h₁ hrun, hgood'⟩

theorem stepsFit_nil : StepsFit step fits s [] :=
  fun done a h => absurd (List.prefix_nil.mp h) (List.append_ne_nil_of_right_ne_nil done (List.cons_ne_nil a []))

theorem stepsFit_cons (h₁ : step s a = .ok (s₁, b)) :
    StepsFit step fits s (a :: as) ↔ fits s a ∧ StepsFit step fits s₁ as := by
  constructor
  · refine fun h => ⟨?_, fun done a' hdone => ?_⟩
    · obtain ⟨s', bs, hrun, hfits⟩ := h [] a ((List.prefix_cons_inj a).mpr List.nil_prefix)
      obtain ⟨rfl, -⟩ := Prod.mk.inj (Except.ok.inj hrun)
      exact hfits
    · obtain ⟨s', bs, hrun, hfits⟩ := h (a :: done) a' ((List.prefix_cons_inj a).mpr hdone)
      obtain ⟨bs', hrun'⟩ := run_of_run_cons h₁ hrun
      exact ⟨s', bs', hrun', hfits⟩
  · rintro ⟨hfits, h⟩ done a' hdone
    cases done with
    | nil =>
      obtain ⟨rfl, -⟩ := List.cons_prefix_cons.mp hdone
      exact ⟨s, [], rfl, hfits⟩
    | cons a₀ done =>
      obtain ⟨rfl, hdone'⟩ := List.cons_prefix_cons.mp hdone
      obtain ⟨s', bs, hrun, hfits'⟩ := h done a' hdone'
      exact ⟨s', b :: bs, run_cons_ok h₁ hrun, hfits'⟩

/-- Where a step keeps an invariant when it fits and spoils the state when it does not, a run goes through
good states only exactly when all of its steps fit. -/
theorem throughout_iff {I : σ → Prop} (hgood : ∀ s, I s → good s)
    (hstep : ∀ s a, I s → ∃ s' b, step s a = .ok (s', b) ∧ (fits s a → I s') ∧ (good s' → fits s a))
    (hs : I s) (as : List α) : Throughout step good s as ↔ StepsFit step fits s as := by
  induction as generalizing s with
  | nil => exact iff_of_true (throughout_nil.mpr (hgood s hs)) stepsFit_nil
  | cons a as ih =>
    obtain ⟨s₁, b, h₁, hkeeps, hspoils⟩ := hstep s a hs
    rw [throughout_cons h₁, stepsFit_cons h₁]
    constructor
    · rintro ⟨-, h⟩
      have hfits := hspoils h.start
      exact ⟨hfits, (ih (hkeeps hfits)).mp h⟩
    · rintro ⟨hfits, h⟩
      exact ⟨hgood s hs, (ih (hkeeps hfits)).mpr h⟩

end Throughout

def select : List Bool → List α → List α
  | [], as => as
  | _ :: _, [] => []
  | true :: keep, a :: as => a :: select keep as
  | false :: keep, _ :: as => select keep as

def LeavesOut (p : α → Prop) (keep : List Bool) (as : List α) : Prop :=
  ∀ (i : ℕ) a, keep[i]? = some false → as[i]? = some a → p a

section Select

variable {step : σ → α → Except ε (σ × β)} {step' : τ → α → τ × β} {R : σ → τ → Prop} {B : τ → Prop}
  {idle : β → Prop}

theorem run_select (hback : ∀ t a, B (step' t a).1 → B t)
    (hstep : ∀ s t a, R s t → B (step' t a).1 → ∃ s', step s a = .ok (s', (step' t a).2) ∧
      R s' (step' t a).1 ∧ (idle (step' t a).2 → s' = s))
    {s : σ} {t : τ} (hst : R s t) (as : List α) (hB : B (trace step' t as).1) (keep : List Bool)
    (hkeep : LeavesOut idle keep (trace step' t as).2) :
    ∃ s', run step s as = .ok (s', (trace step' t as).2) ∧
      run step s (select keep as) = .ok (s', select keep (trace step' t as).2) := by
  induction as generalizing s t keep with
  | nil => exact ⟨s, rfl, by cases keep <;> rfl⟩
  | cons a as ih =>
    obtain ⟨s₁, h₁, hrel, hidle⟩ := hstep s t a hst (within_of_trace hback as hB)
    cases keep with
    | nil =>
      obtain ⟨s₂, h₂, -⟩ := ih hrel hB [] (fun i b hi => by simp at hi)
      exact ⟨s₂, run_cons_ok h₁ h₂, run_cons_ok h₁ h₂⟩
    | cons k keep =>
      obtain ⟨s₂, h₂, hselect⟩ := ih hrel hB keep (fun i b hi hb => hkeep (i + 1) b hi hb)
      refine ⟨s₂, run_cons_ok h₁ h₂, ?_⟩
      cases k with
      | true => exact run_cons_ok h₁ hselect
      | false =>
        obtain rfl := hidle (hkeep 0 _ rfl rfl)
        exact hselect

end Select

end Transducer
