import Mathlib.Data.List.Basic

namespace Scripts

variable {σ α β : Type}

def Ensures (pre : σ → Prop) (script : StateM σ α) (post : α → σ → Prop) : Prop :=
  ∀ s, pre s → post (script s).1 (script s).2

namespace Ensures

variable {pre pre' : σ → Prop} {script : StateM σ α} {next : α → StateM σ β} {mid post : α → σ → Prop}

theorem of_pre (h : Ensures pre script post) (hpre : ∀ s, pre' s → pre s) : Ensures pre' script post :=
  fun s hs => h s (hpre s hs)

theorem of_post (h : Ensures pre script mid) (hpost : ∀ a s, mid a s → post a s) : Ensures pre script post :=
  fun s hs => hpost _ _ (h s hs)

theorem bind {post : β → σ → Prop} (h : Ensures pre script mid) (hnext : ∀ a, Ensures (mid a) (next a) post) :
    Ensures pre (script >>= next) post := fun s hs => hnext _ _ (h s hs)

theorem seq {first : StateM σ Unit} {second : StateM σ β} {middle : σ → Prop} {post : β → σ → Prop}
    (h : Ensures pre first fun _ => middle) (hsecond : Ensures middle second post) :
    Ensures pre (first >>= fun _ => second) post := h.bind fun _ => hsecond

theorem of_fact {p : Prop} (h : p → Ensures pre script post) : Ensures (fun s => p ∧ pre s) script post :=
  fun s hs => h hs.1 s hs.2

theorem forIn {l : List α} {body : α → β → StateM σ (ForInStep β)} (I : List α → β → σ → Prop)
    (hbody : ∀ done a rest b, l = done ++ a :: rest →
      Ensures (I done b) (body a b) fun step s => ∃ b', step = .yield b' ∧ I (done ++ [a]) b' s)
    (b : β) : Ensures (I [] b) (ForIn.forIn l b body) (I l) := by
  have hrest : ∀ todo done b, l = done ++ todo → Ensures (I done b) (ForIn.forIn todo b body) (I l) := by
    intro todo
    induction todo with
    | nil =>
      intro done b hl s hs
      rw [hl, List.append_nil]
      exact hs
    | cons a todo ih =>
      intro done b hl
      rw [List.forIn_cons]
      refine Ensures.bind (hbody done a todo b hl) ?_
      intro step s hs
      obtain ⟨b', rfl, hs⟩ := hs
      rw [List.append_cons] at hl
      exact ih (done ++ [a]) b' hl s hs
  exact hrest l [] b rfl

end Ensures

end Scripts
