import Mathlib

/-!
# Choosing from a list, one element after the other

A loop with a memory: each turn it looks at its memory and at what is left, takes one element out
of the list and remembers it, until the list is empty or enough is chosen. `turns` is the record of
such a loop, so that a property of one choice can be stated for the list and the memory it was made
on. The two lemmas about a whole run are that nothing is lost or taken twice (`perm_turns`), and
that the loop from any turn on is the same loop on what was left then (`turns_split`).
-/

namespace CloudHelp.Selection

variable {σ α : Type}

structure Turn (σ α : Type) where
  memory : σ
  remaining : List α
  picked : α

section Loop

variable (pick : σ → List α → ℕ) (see : σ → α → σ)

def turns : ℕ → σ → List α → List (Turn σ α)
  | 0, _, _ => []
  | n + 1, memory, remaining =>
      match remaining[pick memory remaining]? with
      | none => []
      | some a =>
          ⟨memory, remaining, a⟩ ::
            turns n (see memory a) (remaining.eraseIdx (pick memory remaining))

def leftover : ℕ → σ → List α → List α
  | 0, _, remaining => remaining
  | n + 1, memory, remaining =>
      match remaining[pick memory remaining]? with
      | none => remaining
      | some a => leftover n (see memory a) (remaining.eraseIdx (pick memory remaining))

end Loop

variable {pick : σ → List α → ℕ} {see : σ → α → σ}

theorem perm_cons_eraseIdx {l : List α} {i : ℕ} {a : α} (h : l[i]? = some a) :
    (a :: l.eraseIdx i).Perm l := by
  obtain ⟨hi, rfl⟩ := List.getElem?_eq_some_iff.mp h
  exact List.getElem_cons_eraseIdx_perm hi

/-- Every element is chosen once or left. -/
theorem perm_turns (pick : σ → List α → ℕ) (see : σ → α → σ) (n : ℕ) (memory : σ) (l : List α) :
    ((turns pick see n memory l).map Turn.picked ++ leftover pick see n memory l).Perm l := by
  induction n generalizing memory l with
  | zero => exact List.Perm.refl l
  | succ n ih =>
      unfold turns leftover
      cases ha : l[pick memory l]? with
      | none => exact List.Perm.refl l
      | some a =>
          simp only [List.map_cons, List.cons_append]
          exact ((ih _ _).cons a).trans (perm_cons_eraseIdx ha)

/-- A loop that finds an element whenever there is one takes as many as it may. -/
theorem length_turns (hpick : ∀ memory l, l ≠ [] → pick memory l < l.length) (n : ℕ) (memory : σ)
    (l : List α) : (turns pick see n memory l).length = min n l.length := by
  induction n generalizing memory l with
  | zero => simp [turns]
  | succ n ih =>
      unfold turns
      by_cases hl : l = []
      · subst hl
        simp
      · have hlt := hpick memory l hl
        rw [List.getElem?_eq_getElem hlt]
        simp only [List.length_cons, ih, List.length_eraseIdx_of_lt hlt]
        omega

/-- The first turn of a loop, and the loop after it. -/
theorem turns_cons {n : ℕ} {memory : σ} {l : List α} {t : Turn σ α} {rest : List (Turn σ α)}
    (h : turns pick see n memory l = t :: rest) :
    ∃ k, n = k + 1 ∧ t.memory = memory ∧ t.remaining = l ∧
      l[pick memory l]? = some t.picked ∧
      turns pick see k (see memory t.picked) (l.eraseIdx (pick memory l)) = rest := by
  cases n with
  | zero => cases h
  | succ n =>
      unfold turns at h
      cases ha : l[pick memory l]? with
      | none =>
          rw [ha] at h
          cases h
      | some a =>
          rw [ha] at h
          obtain ⟨rfl, hrest⟩ := List.cons.inj h
          exact ⟨n, rfl, rfl, rfl, rfl, hrest⟩

/-- From one of its turns on, the loop is a loop on what was left. -/
theorem turns_split {n : ℕ} {memory : σ} {l : List α} {front back : List (Turn σ α)}
    {t : Turn σ α} (h : turns pick see n memory l = front ++ t :: back) :
    ∃ k, turns pick see k t.memory t.remaining = t :: back ∧
      t.memory = (front.map Turn.picked).foldl see memory ∧ t.remaining.Sublist l ∧
      (front.map Turn.picked ++ t.remaining).Perm l := by
  induction front generalizing n memory l with
  | nil =>
      obtain ⟨k, rfl, hmemory, hremaining, _⟩ := turns_cons h
      refine ⟨k + 1, ?_, hmemory, ?_, ?_⟩
      · rw [hmemory, hremaining]
        exact h
      · rw [hremaining]
      · rw [hremaining]
        exact List.Perm.refl l
  | cons f front ih =>
      obtain ⟨k, rfl, _, _, hpicked, hrest⟩ := turns_cons h
      obtain ⟨j, hj, hmemory, hsub, hperm⟩ := ih hrest
      refine ⟨j, hj, hmemory, hsub.trans (List.eraseIdx_sublist _ _), ?_⟩
      exact (hperm.cons f.picked).trans (perm_cons_eraseIdx hpicked)

/-- A turn takes an element from where the loop looks for it. -/
theorem picked_of_turn {n : ℕ} {memory : σ} {l : List α} {t : Turn σ α}
    (ht : t ∈ turns pick see n memory l) :
    t.remaining[pick t.memory t.remaining]? = some t.picked ∧ t.remaining.Sublist l := by
  obtain ⟨front, back, h⟩ := List.append_of_mem ht
  obtain ⟨k, hk, _, hsub, _⟩ := turns_split h
  obtain ⟨_, _, _, _, hpicked, _⟩ := turns_cons hk
  exact ⟨hpicked, hsub⟩

end CloudHelp.Selection
