import Mathlib

/-!
# Runs of a partial step function

A step that is not possible in a state is `none`; a run is a list of steps each of which is possible
where it is taken. What every step keeps, every run keeps, and a run is cut wherever its list is.
-/

namespace CloudHelp

variable {S A : Type} (step : S → A → Option S)

def runs (s : S) (actions : List A) : Option S := actions.foldlM step s

variable {step} {s s' : S} {action : A} {actions rest : List A}

@[simp] theorem runs_nil : runs step s [] = some s := rfl

theorem runs_cons : runs step s (action :: actions) = some s' ↔
    ∃ mid, step s action = some mid ∧ runs step mid actions = some s' := by
  rw [runs, List.foldlM_cons]
  exact Option.bind_eq_some_iff

theorem runs_append : runs step s (actions ++ rest) = some s' ↔
    ∃ mid, runs step s actions = some mid ∧ runs step mid rest = some s' := by
  rw [runs, List.foldlM_append]
  exact Option.bind_eq_some_iff

theorem runs_invariant {P : S → Prop}
    (hstep : ∀ action ∈ actions, ∀ s s', P s → step s action = some s' → P s') (hs : P s)
    (h : runs step s actions = some s') : P s' := by
  induction actions generalizing s with
  | nil =>
      obtain rfl : s = s' := Option.some.inj h
      exact hs
  | cons action actions ih =>
      obtain ⟨mid, hmid, hrest⟩ := runs_cons.mp h
      exact ih (fun action ha => hstep action (List.mem_cons_of_mem _ ha))
        (hstep action List.mem_cons_self s mid hs hmid) hrest

/-- A reflexive and transitive relation that holds across each step holds across a run. -/
theorem runs_relation {P : S → Prop} {R : S → S → Prop} (hrefl : ∀ s, R s s)
    (htrans : ∀ s t u, R s t → R t u → R s u)
    (hstep : ∀ s action s', P s → step s action = some s' → P s' ∧ R s s') (hs : P s)
    (h : runs step s actions = some s') : R s s' := by
  induction actions generalizing s with
  | nil =>
      obtain rfl : s = s' := Option.some.inj h
      exact hrefl s
  | cons action actions ih =>
      obtain ⟨mid, hmid, hrest⟩ := runs_cons.mp h
      obtain ⟨hp, hr⟩ := hstep s action mid hs hmid
      exact htrans s mid s' hr (ih hp hrest)

end CloudHelp
