import Mathlib.Data.List.Nodup
import Mathlib.Data.Nat.Notation

/-!
Queues threaded through a memory of cells by successor and predecessor pointers, related to the
list of their cells. Every update is described by what the pointers of the listed cells become, so
that it applies to any memory those pointers are read from.
-/

namespace LinkedQueue

variable {L : Type} {next prev next' prev' : L → Option L}

def Segment (next prev : L → Option L) : Option L → List L → Option L → Prop
  | _, [], _ => True
  | p, x :: xs, n => prev x = p ∧ next x = xs.head?.or n ∧ Segment next prev (some x) xs n

structure Queue (next prev : L → Option L) (head tail : Option L) (xs : List L) : Prop where
  head_eq : head = xs.head?
  tail_eq : tail = xs.getLast?
  linked : Segment next prev none xs none
  nodup : xs.Nodup

def Chain (next : L → Option L) : List L → Prop
  | [] => True
  | x :: xs => next x = xs.head? ∧ Chain next xs

def walk (next : L → Option L) : ℕ → Option L → List L
  | 0, _ => []
  | _ + 1, none => []
  | n + 1, some x => x :: walk next n (next x)

theorem getLast?_cons_or (x : L) (xs : List L) (p : Option L) :
    (x :: xs).getLast?.or p = xs.getLast?.or (some x) := by
  cases xs with
  | nil => simp
  | cons y ys => simp [List.getLast?_cons]

theorem segment_append {p n : Option L} {xs ys : List L} :
    Segment next prev p (xs ++ ys) n ↔
      Segment next prev p xs (ys.head?.or n) ∧ Segment next prev (xs.getLast?.or p) ys n := by
  induction xs generalizing p with
  | nil => simp [Segment]
  | cons x xs ih =>
    simp only [List.cons_append, Segment, ih, List.head?_append, getLast?_cons_or, Option.or_assoc,
      and_assoc]

theorem Segment.frame {p n : Option L} {xs : List L} (h : Segment next prev p xs n)
    (hn : ∀ x ∈ xs, next' x = next x) (hp : ∀ x ∈ xs, prev' x = prev x) :
    Segment next' prev' p xs n := by
  induction xs generalizing p with
  | nil => trivial
  | cons x xs ih =>
    obtain ⟨h₁, h₂, h₃⟩ := h
    exact ⟨(hp x (by simp)).trans h₁, (hn x (by simp)).trans h₂,
      ih h₃ (fun y hy => hn y (by simp [hy])) (fun y hy => hp y (by simp [hy]))⟩

theorem Segment.relink_end {p n n' : Option L} {xs : List L} (h : Segment next prev p xs n)
    (hd : xs.Nodup) (hlast : ∀ x ∈ xs, some x = xs.getLast? → next' x = n')
    (hn : ∀ x ∈ xs, some x ≠ xs.getLast? → next' x = next x) (hp : ∀ x ∈ xs, prev' x = prev x) :
    Segment next' prev' p xs n' := by
  induction xs generalizing p with
  | nil => trivial
  | cons x xs ih =>
    obtain ⟨h₁, h₂, h₃⟩ := h
    refine ⟨(hp x (by simp)).trans h₁, ?_, ?_⟩
    · cases xs with
      | nil => simpa using hlast x (by simp) (by simp)
      | cons y ys =>
        have hne : some x ≠ (x :: y :: ys).getLast? := by
          rw [List.getLast?_cons_cons]
          intro he
          exact (List.nodup_cons.mp hd).1 (List.mem_of_getLast? he.symm)
        rw [hn x (by simp) hne, h₂]
        simp
    · cases xs with
      | nil => trivial
      | cons y ys =>
        refine ih h₃ (List.nodup_cons.mp hd).2 ?_ ?_ (fun z hz => hp z (List.mem_cons_of_mem _ hz))
        · intro z hz he
          apply hlast z (List.mem_cons_of_mem _ hz)
          rwa [List.getLast?_cons_cons]
        · intro z hz he
          apply hn z (List.mem_cons_of_mem _ hz)
          rwa [List.getLast?_cons_cons]

theorem Segment.relink_start {p p' n : Option L} {xs : List L} (h : Segment next prev p xs n)
    (hd : xs.Nodup) (hfirst : ∀ x ∈ xs, some x = xs.head? → prev' x = p')
    (hp : ∀ x ∈ xs, some x ≠ xs.head? → prev' x = prev x) (hn : ∀ x ∈ xs, next' x = next x) :
    Segment next' prev' p' xs n := by
  cases xs with
  | nil => trivial
  | cons x xs =>
    obtain ⟨h₁, h₂, h₃⟩ := h
    refine ⟨hfirst x (by simp) (by simp), (hn x (by simp)).trans h₂, ?_⟩
    refine h₃.frame (fun y hy => hn y (by simp [hy])) (fun y hy => hp y (by simp [hy]) ?_)
    rintro he
    simp only [List.head?_cons, Option.some.injEq] at he
    exact (List.nodup_cons.mp hd).1 (he ▸ hy)

theorem Segment.chain {p : Option L} {xs : List L} (h : Segment next prev p xs none) :
    Chain next xs := by
  induction xs generalizing p with
  | nil => trivial
  | cons x xs ih => exact ⟨by simpa using h.2.1, ih h.2.2⟩

theorem Segment.reverse {p n : Option L} {xs : List L} (h : Segment next prev p xs n) :
    Segment prev next n xs.reverse p := by
  induction xs generalizing p with
  | nil => trivial
  | cons x xs ih =>
    obtain ⟨hprev, hnext, hrest⟩ := h
    rw [List.reverse_cons]
    refine segment_append.mpr ⟨by simpa using ih hrest, ?_, ?_, trivial⟩
    · rwa [List.getLast?_reverse]
    · simpa using hprev

theorem Chain.frame {xs : List L} (h : Chain next xs) (hn : ∀ x ∈ xs, next' x = next x) :
    Chain next' xs := by
  induction xs with
  | nil => trivial
  | cons x xs ih => exact ⟨(hn x (by simp)).trans h.1, ih h.2 (fun y hy => hn y (by simp [hy]))⟩

theorem Chain.walk {xs : List L} (h : Chain next xs) {n : ℕ} (hn : xs.length ≤ n) :
    walk next n xs.head? = xs := by
  induction xs generalizing n with
  | nil => cases n <;> rfl
  | cons x xs ih =>
    cases n with
    | zero => simp at hn
    | succ n => rw [List.head?_cons, LinkedQueue.walk, h.1, ih h.2 (by simpa using hn)]

namespace Queue

variable {head tail : Option L} {xs as bs : List L} {x : L}

theorem empty (next prev : L → Option L) : Queue next prev none none [] := ⟨rfl, rfl, trivial, List.nodup_nil⟩

theorem frame (q : Queue next prev head tail xs) (hn : ∀ x ∈ xs, next' x = next x)
    (hp : ∀ x ∈ xs, prev' x = prev x) : Queue next' prev' head tail xs :=
  ⟨q.head_eq, q.tail_eq, q.linked.frame hn hp, q.nodup⟩

theorem walk (q : Queue next prev head tail xs) {n : ℕ} (hn : xs.length ≤ n) :
    walk next n head = xs := by
  rw [q.head_eq]
  exact q.linked.chain.walk hn

theorem reverse (q : Queue next prev head tail xs) : Queue prev next tail head xs.reverse where
  head_eq := by rw [q.tail_eq, List.head?_reverse]
  tail_eq := by rw [q.head_eq, List.getLast?_reverse]
  linked := q.linked.reverse
  nodup := List.nodup_reverse.mpr q.nodup

theorem next_eq (q : Queue next prev head tail (as ++ x :: bs)) : next x = bs.head? := by
  simpa using (segment_append.mp q.linked).2.2.1

theorem prev_eq (q : Queue next prev head tail (as ++ x :: bs)) : prev x = as.getLast? := by
  simpa using (segment_append.mp q.linked).2.1

theorem push (q : Queue next prev head tail xs) (hx : x ∉ xs)
    (hxn : next' x = none) (hxp : prev' x = tail)
    (hlast : ∀ y ∈ xs, some y = tail → next' y = some x)
    (hn : ∀ y ∈ xs, some y ≠ tail → next' y = next y) (hp : ∀ y ∈ xs, prev' y = prev y) :
    Queue next' prev' (head.or (some x)) (some x) (xs ++ [x]) where
  head_eq := by rw [q.head_eq, List.head?_append]; rfl
  tail_eq := by simp
  linked := by
    rw [q.tail_eq] at hlast hn hxp
    refine segment_append.mpr ⟨q.linked.relink_end q.nodup hlast hn hp, ?_⟩
    exact ⟨by simpa using hxp, by simpa using hxn, trivial⟩
  nodup := by
    rw [← List.concat_eq_append]
    exact q.nodup.concat hx

theorem remove (q : Queue next prev head tail (as ++ x :: bs))
    (hlast : ∀ y ∈ as, some y = as.getLast? → next' y = bs.head?)
    (hfirst : ∀ y ∈ bs, some y = bs.head? → prev' y = as.getLast?)
    (hna : ∀ y ∈ as, some y ≠ as.getLast? → next' y = next y) (hnb : ∀ y ∈ bs, next' y = next y)
    (hpa : ∀ y ∈ as, prev' y = prev y) (hpb : ∀ y ∈ bs, some y ≠ bs.head? → prev' y = prev y) :
    Queue next' prev' (as.head?.or bs.head?) (bs.getLast?.or as.getLast?) (as ++ bs) where
  head_eq := by rw [List.head?_append]
  tail_eq := by rw [List.getLast?_append]
  linked := by
    obtain ⟨ha, -, -, hb⟩ := segment_append.mp q.linked
    obtain ⟨hda, hdb, -⟩ := List.nodup_append.mp q.nodup
    refine segment_append.mpr ⟨ha.relink_end hda ?_ hna hpa, ?_⟩
    · simpa using hlast
    · exact hb.relink_start (List.nodup_cons.mp hdb).2 (by simpa using hfirst) hpb hnb
  nodup := q.nodup.sublist (List.Sublist.append_left (List.sublist_cons_self x bs) as)

theorem head_eq_none_iff (q : Queue next prev head tail xs) : head = none ↔ tail = none := by
  rw [q.head_eq, q.tail_eq, List.head?_eq_none_iff, List.getLast?_eq_none_iff]

theorem prev_head (q : Queue next prev (some x) tail xs) : prev x = none := by
  have hx := q.head_eq
  cases xs with
  | nil => cases hx
  | cons y ys =>
    obtain rfl := Option.some.inj hx
    exact q.linked.1

theorem next_tail (q : Queue next prev head (some x) xs) : next x = none := by
  obtain ⟨ys, rfl⟩ := List.getLast?_eq_some_iff.mp q.tail_eq.symm
  exact q.next_eq

theorem next_iff_prev {y : L} (q : Queue next prev head tail xs) (hx : x ∈ xs) (hy : y ∈ xs) :
    next x = some y ↔ prev y = some x := by
  constructor
  · intro h
    obtain ⟨as, bs, rfl⟩ := List.append_of_mem hx
    rw [q.next_eq] at h
    obtain ⟨cs, rfl⟩ := List.head?_eq_some_iff.mp h
    have hq := q
    rw [List.append_cons] at hq
    simpa using hq.prev_eq
  · intro h
    obtain ⟨as, bs, rfl⟩ := List.append_of_mem hy
    rw [q.prev_eq] at h
    obtain ⟨cs, rfl⟩ := List.getLast?_eq_some_iff.mp h
    have hq := q
    rw [List.append_assoc, List.singleton_append] at hq
    exact hq.next_eq

end Queue

end LinkedQueue
