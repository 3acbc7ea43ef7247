import Mathlib

/-!
# Lists of distinguishable elements

Facts about lists that a validator has walked: a loop that refuses what it has seen leaves a list
without repetition, and a list in order has its elements one before the other.
-/

namespace CloudHelp

variable {α β : Type}

/-- A loop `P` over a list, given the keys seen so far, that refuses a key seen before. -/
theorem nodup_of_fresh {f : α → β} {P : List β → List α → Prop}
    (hstep : ∀ seen a rest, P seen (a :: rest) → f a ∉ seen ∧ P (f a :: seen) rest)
    {seen : List β} {l : List α} (h : P seen l) :
    (l.map f).Nodup ∧ ∀ a ∈ l, f a ∉ seen := by
  induction l generalizing seen with
  | nil => simp
  | cons a rest ih =>
      obtain ⟨ha, hrest⟩ := hstep seen a rest h
      obtain ⟨hnodup, hfresh⟩ := ih hrest
      refine ⟨?_, List.forall_mem_cons.mpr ⟨ha, fun b hb hmem => ?_⟩⟩
      · rw [List.map_cons, List.nodup_cons]
        refine ⟨fun hmem => ?_, hnodup⟩
        obtain ⟨b, hb, he⟩ := List.mem_map.mp hmem
        exact hfresh b hb (he ▸ List.mem_cons_self)
      · exact hfresh b hb (List.mem_cons_of_mem _ hmem)

/-- A map that is injective on a predicate is injective on lists of it. -/
theorem map_injOn {f : α → β} {P : α → Prop} (hf : ∀ a b, P a → P b → f a = f b → a = b)
    {l m : List α} (hl : ∀ a ∈ l, P a) (hm : ∀ b ∈ m, P b) (h : l.map f = m.map f) : l = m := by
  induction l generalizing m with
  | nil => simpa using h.symm
  | cons a l ih =>
      cases m with
      | nil => cases h
      | cons b m =>
          obtain ⟨ha, hl⟩ := List.forall_mem_cons.mp hl
          obtain ⟨hb, hm⟩ := List.forall_mem_cons.mp hm
          rw [List.map_cons, List.map_cons, List.cons.injEq] at h
          rw [hf a b ha hb h.1, ih hl hm h.2]

/-- Two elements of a list are equal or stand in one of the two orders. -/
theorem pairwise_cases {R : α → α → Prop} {l : List α} (h : l.Pairwise R) {a b : α} (ha : a ∈ l)
    (hb : b ∈ l) : a = b ∨ R a b ∨ R b a := by
  induction h with
  | nil => simp at ha
  | cons hc _ ih =>
      rcases List.mem_cons.mp ha with rfl | ha'
      · rcases List.mem_cons.mp hb with rfl | hb'
        · exact Or.inl rfl
        · exact Or.inr (Or.inl (hc b hb'))
      · rcases List.mem_cons.mp hb with rfl | hb'
        · exact Or.inr (Or.inr (hc a ha'))
        · exact ih ha' hb'

/-- Elements no two of which go together are at most one. -/
theorem length_filter_le_one {p : α → Bool} {l : List α}
    (h : l.Pairwise fun a b => p a = true → p b = true → False) : (l.filter p).length ≤ 1 := by
  have hfilter := List.pairwise_filter.mpr h
  match hl : l.filter p with
  | [] => exact Nat.zero_le 1
  | [_] => exact le_rfl
  | a :: b :: rest =>
      rw [hl] at hfilter
      exact (List.rel_of_pairwise_cons hfilter List.mem_cons_self).elim

/-- A list split at two consecutive elements. -/
theorem eq_take_append_of_getElem? {l : List α} {i : ℕ} {a b : α} (ha : l[i]? = some a)
    (hb : l[i + 1]? = some b) : l = l.take i ++ a :: b :: l.drop (i + 2) := by
  obtain ⟨hi, rfl⟩ := List.getElem?_eq_some_iff.mp ha
  obtain ⟨hj, rfl⟩ := List.getElem?_eq_some_iff.mp hb
  conv_lhs => rw [← List.take_append_drop i l, List.drop_eq_getElem_cons hi,
    List.drop_eq_getElem_cons hj]

/-! ## Cutting at an element -/

theorem takeWhile_ne_append [BEq α] [LawfulBEq α] {a : α} {front back : List α} (h : a ∉ front) :
    (front ++ a :: back).takeWhile (· != a) = front := by
  induction front with
  | nil => simp
  | cons b rest ih =>
      rw [List.mem_cons, not_or] at h
      have hb : (b != a) = true := bne_iff_ne.mpr (Ne.symm h.1)
      rw [List.cons_append, List.takeWhile_cons, if_pos hb, ih h.2]

theorem dropWhile_ne_append [BEq α] [LawfulBEq α] {a : α} {front back : List α} (h : a ∉ front) :
    (front ++ a :: back).dropWhile (· != a) = a :: back := by
  induction front with
  | nil => simp
  | cons b rest ih =>
      rw [List.mem_cons, not_or] at h
      have hb : (b != a) = true := bne_iff_ne.mpr (Ne.symm h.1)
      rw [List.cons_append, List.dropWhile_cons, if_pos hb, ih h.2]

/-- What a strict condition takes is there for two weaker ones. -/
theorem mem_takeWhile_takeWhile {p q r : α → Bool} (h : ∀ a, p a = true → q a = true ∧ r a = true)
    {l : List α} {a : α} (ha : a ∈ l.takeWhile p) : a ∈ (l.takeWhile q).takeWhile r := by
  induction l with
  | nil => exact absurd ha List.not_mem_nil
  | cons b rest ih =>
      by_cases hp : p b = true
      · rw [List.takeWhile_cons_of_pos hp] at ha
        rw [List.takeWhile_cons_of_pos (h b hp).1, List.takeWhile_cons_of_pos (h b hp).2]
        rcases List.mem_cons.mp ha with rfl | ha
        · exact List.mem_cons_self
        · exact List.mem_cons_of_mem _ (ih ha)
      · rw [List.takeWhile_cons_of_neg hp] at ha
        exact absurd ha List.not_mem_nil

/-- If what has a property comes first, then so it does among the first `n`. -/
theorem countP_take_of_first {p : α → Bool} {l : List α}
    (h : l.Pairwise fun a b => p b = true → p a = true) (n : ℕ) :
    (l.take n).countP p = min n (l.countP p) := by
  induction l generalizing n with
  | nil => simp
  | cons a l ih =>
      obtain ⟨hfirst, hrest⟩ := List.pairwise_cons.mp h
      cases n with
      | zero => simp
      | succ n =>
          rw [List.take_succ_cons, List.countP_cons, List.countP_cons, ih hrest]
          by_cases ha : p a = true
          · rw [if_pos ha]
            omega
          · have hnone : l.countP p = 0 :=
              List.countP_eq_zero.mpr fun b hb hp => ha (hfirst b hb hp)
            rw [if_neg ha, hnone]
            omega

end CloudHelp
