import Mathlib.Data.List.Induction
import Mathlib.Data.List.Sort

/-!
Lists kept in order of a priority key, first come first served among equal keys: what a family of
queues, one for each key, looks like when it is read from the best key to the worst.
-/

namespace PriorityList

variable {α β κ : Type} {before : κ → κ → Prop} {key : α → κ}

def Prioritized (before : κ → κ → Prop) (key : α → κ) (l : List α) : Prop :=
  l.Pairwise (fun a b => ¬ before (key b) (key a))

def enqueue (before : κ → κ → Prop) [DecidableRel before] (key : α → κ) (a : α) (l : List α) : List α :=
  l.orderedInsert (fun a b => before (key a) (key b)) a

theorem Prioritized.sublist {l l' : List α} (h : Prioritized before key l) (hs : l'.Sublist l) :
    Prioritized before key l' := List.Pairwise.sublist hs h

theorem Prioritized.remove {as bs : List α} {x : α} (h : Prioritized before key (as ++ x :: bs)) :
    Prioritized before key (as ++ bs) :=
  h.sublist (List.Sublist.append_left (List.sublist_cons_self x bs) as)

theorem Prioritized.map {key' : β → κ} {f : α → β} (hf : ∀ a, key' (f a) = key a) {l : List α} :
    Prioritized before key' (l.map f) ↔ Prioritized before key l := by
  simp only [Prioritized, List.pairwise_map, hf]

theorem flatMap_filter_perm {key : α → ℕ} {l : List α} {n : ℕ} (h : ∀ a ∈ l, key a < n) :
    ((List.range n).flatMap (fun p => l.filter (key · = p))).Perm l := by
  have hbelow : ∀ m, ((List.range m).flatMap (fun p => l.filter (key · = p))).Perm
      (l.filter (key · < m)) := by
    intro m
    induction m with
    | zero => simp
    | succ m ih =>
      have hsplit := List.filter_append_perm (fun a => decide (key a < m)) (l.filter (key · < m + 1))
      rw [List.filter_filter, List.filter_filter] at hsplit
      have hlow : l.filter (fun a => decide (key a < m) && decide (key a < m + 1)) =
          l.filter (key · < m) := List.filter_congr (fun a _ => by simp; omega)
      have htop : l.filter (fun a => !decide (key a < m) && decide (key a < m + 1)) =
          l.filter (key · = m) := List.filter_congr (fun a _ => by
            rw [← decide_not, ← Bool.decide_and, decide_eq_decide]
            omega)
      rw [hlow, htop] at hsplit
      rw [List.range_succ, List.flatMap_append, List.flatMap_singleton]
      exact (ih.append_right _).trans hsplit
  have hall := hbelow n
  rwa [List.filter_eq_self.mpr (fun a ha => decide_eq_true (h a ha))] at hall

section Enqueue

variable [DecidableRel before]

theorem enqueue_perm (a : α) (l : List α) : (enqueue before key a l).Perm (a :: l) :=
  List.perm_orderedInsert _ a l

theorem enqueue_cons (a b : α) (l : List α) :
    enqueue before key a (b :: l) =
      if before (key a) (key b) then a :: b :: l else b :: enqueue before key a l := by
  simp [enqueue, List.orderedInsert_cons]

theorem head_enqueue (a : α) (l : List α) :
    (enqueue before key a l).head? =
      match l.head? with
      | none => some a
      | some b => if before (key a) (key b) then some a else some b := by
  cases l with
  | nil => rfl
  | cons b l =>
    rw [enqueue_cons]
    split_ifs with h <;> simp [h]

theorem head_key_enqueue {a b : α} (h : key a = key b) (l : List α) :
    (enqueue before key a l).head?.map key = (enqueue before key b l).head?.map key := by
  rw [head_enqueue, head_enqueue]
  cases l.head? with
  | none => exact congrArg some h
  | some c =>
    dsimp only
    rw [h]
    split_ifs
    · exact congrArg some h
    · rfl

theorem head_key_enqueue_again [IsStrictOrder κ before] {a b : α} (h : key a = key b) (l : List α) :
    (enqueue before key b (enqueue before key a l)).head?.map key = (enqueue before key a l).head?.map key := by
  rw [head_enqueue b, head_enqueue a]
  cases l.head? with
  | none =>
    dsimp only
    rw [← h, if_neg (irrefl_of before _)]
  | some c =>
    dsimp only
    split_ifs with hac
    · dsimp only
      rw [← h, if_neg (irrefl_of before _)]
    · dsimp only
      rw [← h, if_neg hac]

theorem map_enqueue_of {κ' : Type} {before' : κ' → κ' → Prop} [DecidableRel before'] {key' : β → κ'} {f : α → β}
    {a : α} {l : List α} (hf : ∀ b ∈ l, before' (key' (f a)) (key' (f b)) ↔ before (key a) (key b)) :
    (enqueue before key a l).map f = enqueue before' key' (f a) (l.map f) := by
  induction l with
  | nil => rfl
  | cons b l ih =>
    rw [List.forall_mem_cons] at hf
    simp only [enqueue_cons, List.map_cons, hf.1]
    split_ifs
    · rfl
    · rw [List.map_cons, ih hf.2]

theorem map_enqueue {key' : β → κ} {f : α → β} (hf : ∀ a, key' (f a) = key a) (a : α) (l : List α) :
    (enqueue before key a l).map f = enqueue before key' (f a) (l.map f) := by
  apply map_enqueue_of
  intro b _
  rw [hf, hf]

theorem enqueue_prioritized [IsStrictOrder κ before] (a : α) {l : List α}
    (h : Prioritized before key l) : Prioritized before key (enqueue before key a l) := by
  induction l with
  | nil => exact List.pairwise_singleton _ a
  | cons b l ih =>
    obtain ⟨hb, hl⟩ := List.pairwise_cons.mp h
    rw [enqueue_cons]
    split_ifs with hab
    · refine List.pairwise_cons.mpr ⟨?_, h⟩
      intro c hc hca
      rcases List.mem_cons.mp hc with rfl | hc
      · exact asymm_of before hab hca
      · exact hb c hc (trans_of before hca hab)
    · refine List.pairwise_cons.mpr ⟨?_, ih hl⟩
      intro c hc
      rcases List.mem_cons.mp ((enqueue_perm a l).mem_iff.mp hc) with rfl | hc
      · exact hab
      · exact hb c hc

theorem enqueue_pairwise [IsStrictOrder κ before] {R : α → α → Prop} {a : α} {l : List α}
    (h : Prioritized before key l) (hl : l.Pairwise (fun b c => key b = key c → R b c))
    (ha : ∀ b ∈ l, R b a) :
    (enqueue before key a l).Pairwise (fun b c => key b = key c → R b c) := by
  induction l with
  | nil => exact List.pairwise_singleton _ a
  | cons b l ih =>
    obtain ⟨hb, htail⟩ := List.pairwise_cons.mp h
    obtain ⟨hR, hRtail⟩ := List.pairwise_cons.mp hl
    rw [enqueue_cons]
    split_ifs with hab
    · refine List.pairwise_cons.mpr ⟨?_, hl⟩
      intro c hc he
      rw [he] at hab
      rcases List.mem_cons.mp hc with rfl | hc
      · exact absurd hab (irrefl_of before _)
      · exact absurd hab (hb c hc)
    · refine List.pairwise_cons.mpr ⟨?_, ih htail hRtail (fun c hc => ha c (List.mem_cons_of_mem b hc))⟩
      intro c hc
      rcases List.mem_cons.mp ((enqueue_perm a l).mem_iff.mp hc) with rfl | hc
      · exact fun _ => ha b List.mem_cons_self
      · exact hR c hc

theorem filter_enqueue [DecidableEq κ] [IsStrictOrder κ before] (a : α) {l : List α}
    (h : Prioritized before key l) (p : κ) :
    (enqueue before key a l).filter (key · = p) =
      if key a = p then l.filter (key · = p) ++ [a] else l.filter (key · = p) := by
  induction l with
  | nil => by_cases hp : key a = p <;> simp [enqueue, hp]
  | cons b l ih =>
    obtain ⟨hb, hl⟩ := List.pairwise_cons.mp h
    rw [enqueue_cons]
    by_cases hab : before (key a) (key b)
    · have hnone : (b :: l).filter (key · = key a) = [] := by
        rw [List.filter_eq_nil_iff]
        intro c hc
        rw [decide_eq_true_eq]
        intro hca
        rw [← hca] at hab
        rcases List.mem_cons.mp hc with rfl | hc
        · exact irrefl_of before _ hab
        · exact hb c hc hab
      rw [if_pos hab, List.filter_cons]
      by_cases hp : key a = p
      · subst hp
        simp only [hnone, decide_true, ↓reduceIte, List.nil_append]
      · simp only [hp, decide_false, Bool.false_eq_true, ↓reduceIte]
    · rw [if_neg hab, List.filter_cons, List.filter_cons, ih hl]
      by_cases hp : key a = p <;> by_cases hbp : key b = p <;> simp [hp, hbp]

theorem filter_enqueue_comm [IsStrictTotalOrder κ before] (p : α → Bool) (a : α) {l : List α}
    (h : Prioritized before key l) :
    (enqueue before key a l).filter p =
      if p a then enqueue before key a (l.filter p) else l.filter p := by
  induction l with
  | nil => by_cases hp : p a <;> simp [enqueue, hp]
  | cons b l ih =>
    obtain ⟨hb, hl⟩ := List.pairwise_cons.mp h
    rw [enqueue_cons]
    by_cases hab : before (key a) (key b)
    · have hahead : enqueue before key a ((b :: l).filter p) = a :: (b :: l).filter p := by
        cases hf : (b :: l).filter p with
        | nil => rfl
        | cons c cs =>
          have hc : c ∈ b :: l := List.mem_of_mem_filter (p := p) (hf ▸ List.mem_cons_self)
          have hac : before (key a) (key c) := by
            rcases List.mem_cons.mp hc with rfl | hc
            · exact hab
            · rcases trichotomous_of before (key c) (key b) with hcb | he | hbc
              · exact absurd hcb (hb c hc)
              · rwa [he]
              · exact trans_of before hab hbc
          rw [enqueue_cons, if_pos hac]
      rw [if_pos hab, List.filter_cons, hahead]
    · rw [if_neg hab, List.filter_cons, ih hl, List.filter_cons]
      by_cases hp : p a <;> by_cases hbp : p b <;> simp [hp, hbp, enqueue_cons, hab]

def prioritize (before : κ → κ → Prop) [DecidableRel before] (key : α → κ) (l : List α) : List α :=
  l.foldl (fun q a => enqueue before key a q) []

theorem prioritize_concat (l : List α) (a : α) :
    prioritize before key (l ++ [a]) = enqueue before key a (prioritize before key l) := by
  rw [prioritize, List.foldl_append]
  rfl

theorem prioritize_perm (before : κ → κ → Prop) [DecidableRel before] (key : α → κ) (l : List α) :
    (prioritize before key l).Perm l := by
  induction l using List.reverseRecOn with
  | nil => exact List.Perm.refl _
  | append_singleton l a ih =>
    rw [prioritize_concat]
    exact (enqueue_perm a _).trans ((ih.cons a).trans (List.perm_append_singleton a l).symm)

theorem prioritize_prioritized [IsStrictOrder κ before] (l : List α) :
    Prioritized before key (prioritize before key l) := by
  induction l using List.reverseRecOn with
  | nil => exact List.Pairwise.nil
  | append_singleton l a ih =>
    rw [prioritize_concat]
    exact enqueue_prioritized a ih

theorem prioritize_filter [IsStrictTotalOrder κ before] (p : α → Bool) (l : List α) :
    prioritize before key (l.filter p) = (prioritize before key l).filter p := by
  induction l using List.reverseRecOn with
  | nil => rfl
  | append_singleton l a ih =>
    rw [prioritize_concat, filter_enqueue_comm p a (prioritize_prioritized l), List.filter_append, ← ih]
    by_cases hp : p a
    · rw [List.filter_cons_of_pos hp, List.filter_nil, prioritize_concat, if_pos hp]
    · rw [List.filter_cons_of_neg hp, List.filter_nil, List.append_nil, if_neg hp]

theorem prioritize_map {f : α → α} (hf : ∀ a, key (f a) = key a) (l : List α) :
    prioritize before key (l.map f) = (prioritize before key l).map f := by
  induction l using List.reverseRecOn with
  | nil => rfl
  | append_singleton l a ih =>
    rw [List.map_append, List.map_singleton, prioritize_concat, prioritize_concat, ih]
    exact (map_enqueue hf a _).symm

end Enqueue

end PriorityList
