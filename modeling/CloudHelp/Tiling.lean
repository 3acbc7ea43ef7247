import Mathlib

/-!
# Lists of intervals without gap or overlap

Each element of the list stands for the closed interval from `lo` to `hi`. In a tiling the first
interval starts at a given number, every next one right after the end of the one before, and the
last one ends at `top`. Every number in range lies in exactly one interval, and the order of the
intervals in the list is the order of the numbers they hold.
-/

namespace CloudHelp

variable {β : Type*} {lo hi : β → ℕ} {top : ℕ}

inductive Tiles (lo hi : β → ℕ) (top : ℕ) : ℕ → List β → Prop
  | last (g : β) : lo g ≤ top → hi g = top → Tiles lo hi top (lo g) [g]
  | cons (g : β) {rest : List β} : lo g ≤ hi g → Tiles lo hi top (hi g + 1) rest →
      Tiles lo hi top (lo g) (g :: rest)

namespace Tiles

/-- Every number in range lies in one of the intervals. -/
theorem exists_mem {a : ℕ} {l : List β} (h : Tiles lo hi top a l) {v : ℕ} (ha : a ≤ v)
    (hv : v ≤ top) : ∃ g ∈ l, lo g ≤ v ∧ v ≤ hi g := by
  induction h with
  | last g _ he => exact ⟨g, List.mem_singleton_self g, ha, by omega⟩
  | cons g hle _ ih =>
      by_cases hc : v ≤ hi g
      · exact ⟨g, List.mem_cons_self, ha, hc⟩
      · obtain ⟨g', hg', hcov⟩ := ih (by omega)
        exact ⟨g', List.mem_cons_of_mem _ hg', hcov⟩

theorem start_le_lo {a : ℕ} {l : List β} (h : Tiles lo hi top a l) : ∀ g ∈ l, a ≤ lo g := by
  induction h with
  | last g _ _ =>
      intro g' hg'
      rw [List.mem_singleton.mp hg']
  | cons g hle _ ih =>
      intro g' hg'
      rcases List.mem_cons.mp hg' with rfl | hr
      · exact le_rfl
      · have := ih g' hr
        omega

/-- Earlier intervals end before later ones start. -/
theorem pairwise_lt {a : ℕ} {l : List β} (h : Tiles lo hi top a l) :
    l.Pairwise fun g g' => hi g < lo g' := by
  induction h with
  | last g _ _ => exact List.pairwise_singleton _ _
  | cons g hle hrest ih => exact List.Pairwise.cons (fun g' hg' => hrest.start_le_lo g' hg') ih

end Tiles

end CloudHelp
