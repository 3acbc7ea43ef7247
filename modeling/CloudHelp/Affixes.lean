import Mathlib

/-!
# Trimming a fixed beginning and a fixed end

A text is often taken apart by asking whether it begins with `front` and ends with `back`, and by
trimming both. What is left lies between the two only if they do not share letters in the text:
`front` may end with a part that `back` begins with. Such a shared part is an overlap, and every
overlap gives one text that passes both tests and has nothing between its ends.
-/

namespace CloudHelp.Affixes

variable {α : Type} [DecidableEq α]

def trimFront (front s : List α) : List α :=
  if front <+: s then s.drop front.length else s

def trimBack (back s : List α) : List α :=
  if back <:+ s then s.take (s.length - back.length) else s

def between (front back s : List α) : List α := trimBack back (trimFront front s)

/-- A common part: `front` ends with it and `back` begins with it. -/
def IsOverlap (front back shared : List α) : Prop :=
  shared ≠ [] ∧ shared <:+ front ∧ shared <+: back

@[simp]
theorem trimFront_append (front rest : List α) : trimFront front (front ++ rest) = rest := by
  simp [trimFront]

@[simp]
theorem trimBack_append (rest back : List α) : trimBack back (rest ++ back) = rest := by
  simp [trimBack]

/-- A text that is shorter than `back` is left as it is. -/
theorem trimBack_of_length_lt {back s : List α} (h : s.length < back.length) :
    trimBack back s = s := by
  apply if_neg
  intro hback
  exact absurd hback.length_le (by omega)

@[simp]
theorem between_append (front middle back : List α) :
    between front back (front ++ middle ++ back) = middle := by
  rw [between, List.append_assoc, trimFront_append, trimBack_append]

/-- With an overlap `shared`, the text that has `front` and the unshared rest of `back` passes both
tests, and trimming leaves that rest. -/
theorem between_of_overlap {front back shared rest : List α} (hne : shared ≠ [])
    (hback : back = shared ++ rest) : between front back (front ++ rest) = rest := by
  rw [between, trimFront_append]
  apply trimBack_of_length_lt
  have hpos : 0 < shared.length := List.length_pos_iff.mpr hne
  rw [hback, List.length_append]
  omega

/-- A text with both ends either has them apart, with what trimming leaves in the middle, or is
`front` and the rest of `back` after an overlap. -/
theorem apart_or_overlap {front back s : List α} (hfront : front <+: s) (hback : back <:+ s) :
    s = front ++ between front back s ++ back ∨
      ∃ shared rest, IsOverlap front back shared ∧ back = shared ++ rest ∧ s = front ++ rest ∧
        between front back s = rest := by
  obtain ⟨rest, rfl⟩ := hfront
  obtain ⟨lead, hlead⟩ := hback
  -- the two ways of splitting `s` meet in a common part, inside `front` or behind it
  rcases List.append_eq_append_iff.mp hlead with ⟨shared, hshared, hrest⟩ | ⟨middle, hmiddle, hrest⟩
  · by_cases hne : shared = []
    · left
      obtain rfl : back = rest := by rw [hrest, hne, List.nil_append]
      have hmiddle : between front back (front ++ back) = [] := by
        simpa using between_append front [] back
      rw [hmiddle, List.append_nil]
    · right
      have hoverlap : IsOverlap front back shared := by
        rw [hshared, hrest]
        exact ⟨hne, List.suffix_append _ _, List.prefix_append _ _⟩
      exact ⟨shared, rest, hoverlap, hrest, rfl, between_of_overlap hne hrest⟩
  · left
    rw [hrest, ← List.append_assoc, between_append]

end CloudHelp.Affixes
