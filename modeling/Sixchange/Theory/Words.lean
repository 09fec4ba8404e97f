import Mathlib.Data.List.TakeWhile

namespace Words

variable {α : Type} {sep : α → Bool} {a : α} {l word : List α}

def words (sep : α → Bool) (l : List α) : List (List α) := (l.splitOnP sep).filter (! ·.isEmpty)

theorem words_sep (h : sep a = true) : words sep (a :: l) = words sep l := by
  rw [words, List.splitOnP_cons_eq_if_modifyHead, if_pos h]
  rfl

theorem words_word (hne : word ≠ []) (hword : ∀ a ∈ word, sep a = false)
    (hl : ∀ a, l.head? = some a → sep a = true) : words sep (word ++ l) = word :: words sep l := by
  cases l with
  | nil =>
    rw [List.append_nil, words, List.splitOnP_eq_singleton hword]
    cases word with
    | nil => exact absurd rfl hne
    | cons a word => rfl
  | cons a l =>
    have ha : sep a = true := hl a rfl
    rw [words_sep ha, words, List.splitOnP_append_cons_of_forall_mem hword a ha]
    cases word with
    | nil => exact absurd rfl hne
    | cons a word => rfl

theorem words_intercalate {ws : List (List α)} (ha : sep a = true)
    (hws : ∀ word ∈ ws, word ≠ [] ∧ ∀ b ∈ word, sep b = false) : words sep ([a].intercalate ws) = ws := by
  induction ws with
  | nil => rfl
  | cons word ws ih =>
    rw [List.forall_mem_cons] at hws
    obtain ⟨⟨hne, hword⟩, hws⟩ := hws
    cases ws with
    | nil => simpa [words, Words.words] using words_word hne hword (l := []) (by simp)
    | cons next ws =>
      rw [List.intercalate_cons_cons, List.append_assoc, words_word hne hword]
      · rw [List.singleton_append, words_sep ha, ih hws]
      · intro b hb
        obtain rfl := Option.some.inj hb
        exact ha

theorem mem_intercalate {b : α} {ws : List (List α)} (hb : b ∈ [a].intercalate ws) : b = a ∨ ∃ word ∈ ws, b ∈ word := by
  induction ws with
  | nil => cases hb
  | cons word ws ih =>
    cases ws with
    | nil => exact .inr ⟨word, List.mem_singleton_self _, by simpa using hb⟩
    | cons next ws =>
      rw [List.intercalate_cons_cons] at hb
      rcases List.mem_append.mp hb with hb | hb
      · rcases List.mem_append.mp hb with hb | hb
        · exact .inr ⟨word, List.mem_cons_self, hb⟩
        · exact .inl (List.mem_singleton.mp hb)
      · rcases ih hb with he | ⟨other, hother, hb⟩
        · exact .inl he
        · exact .inr ⟨other, List.mem_cons_of_mem _ hother, hb⟩

theorem words_dropWhile (l : List α) : words sep (l.dropWhile sep) = words sep l := by
  induction l with
  | nil => rfl
  | cons a l ih =>
    rw [List.dropWhile_cons]
    split_ifs with h
    · rw [ih, words_sep h]
    · rfl

theorem words_eq (l : List α) : words sep l =
    if (l.dropWhile sep).isEmpty then []
    else (l.dropWhile sep).takeWhile (! sep ·) :: words sep ((l.dropWhile sep).dropWhile (! sep ·)) := by
  rw [← words_dropWhile l]
  cases hl : l.dropWhile sep with
  | nil => rfl
  | cons a l' =>
    have ha : sep a = false := by
      have := List.head?_dropWhile_not sep l
      rw [hl] at this
      simpa using this
    have hne : (a :: l').takeWhile (! sep ·) ≠ [] := by simp [ha]
    have hword : ∀ b ∈ (a :: l').takeWhile (! sep ·), sep b = false := fun b hb => by
      simpa using List.mem_takeWhile_imp hb
    have hrest : ∀ b, ((a :: l').dropWhile (! sep ·)).head? = some b → sep b = true := fun b hb => by
      have := List.head?_dropWhile_not (! sep ·) (a :: l')
      rw [hb] at this
      simpa using this
    rw [if_neg (by simp), ← words_word hne hword hrest, List.takeWhile_append_dropWhile]

end Words
