import CloudHelp.ArtifactPublication

/-!
# Artifacts are published at most once

A name has one more publisher than others have removed it, at most. A call that has to take its
publication back removes the destination by name, whatever is there: the file is its own as long as
nobody else removes the name between a call's link and its return (`Undisturbed`), and then a call
that succeeds has its file in place.
-/

namespace CloudHelp.ArtifactLock

open Manifest

variable {C : Type} [DecidableEq C] {rt : Runtime} {outputDirectory : Bytes}

/-! ## A name that nobody else removes -/

def Publishes (s : System C) (name : Bytes) (c : C) : Prop :=
  ∃ call, s.calls c = some call ∧ call.phase.publishes = true ∧ call.artifact.fileName = name

def Linked (s : System C) (name : Bytes) (c : C) : Prop :=
  ∃ call, s.calls c = some call ∧ call.phase.publishes = true ∧ call.phase.temporary ≠ none ∧
    call.artifact.fileName = name

def Succeeded (s : System C) (name : Bytes) (c : C) : Prop :=
  ∃ call path, s.calls c = some call ∧ call.artifact.fileName = name ∧ call.phase = .done (.ok path)

def InPlace (name : Bytes) (s : System C) : Prop :=
  ∀ c, Linked s name c → s.dir.entries name = some (.created c)

section Publishers

variable {s : System C} {name : Bytes} {c : C}

omit [DecidableEq C] in
theorem Linked.publishes (h : Linked s name c) : Publishes s name c := by
  obtain ⟨call, hcall, hpublishes, _, hname⟩ := h
  exact ⟨call, hcall, hpublishes, hname⟩

omit [DecidableEq C] in
theorem Succeeded.publishes (h : Succeeded s name c) : Publishes s name c := by
  obtain ⟨call, path, hcall, hname, hphase⟩ := h
  exact ⟨call, hcall, by rw [hphase]; rfl, hname⟩

omit [DecidableEq C] in
theorem Publishes.cases (h : Publishes s name c) : Linked s name c ∨ Succeeded s name c := by
  obtain ⟨call, hcall, hpublishes, hname⟩ := h
  cases hphase : call.phase with
  | removeTemporary t =>
      exact Or.inl ⟨call, hcall, hpublishes, by simp [hphase, Phase.temporary], hname⟩
  | removeDestination t e =>
      exact Or.inl ⟨call, hcall, hpublishes, by simp [hphase, Phase.temporary], hname⟩
  | done result =>
      cases result with
      | ok path => exact Or.inr ⟨call, path, hcall, hname, hphase⟩
      | error e =>
          rw [hphase] at hpublishes
          cases hpublishes
  | _ =>
      rw [hphase] at hpublishes
      cases hpublishes

end Publishers

section Step

variable {s : System C} {c : C} {call : Call} {dir : Output C} {phase : Phase}

omit [DecidableEq C] in
theorem Publishes.name (hs : Tidy rt s) {name : Bytes} {c : C} (h : Publishes s name c) :
    filePattern name = true := by
  obtain ⟨call, hcall, hpublishes, rfl⟩ := h
  rcases hs.names c call hcall with hname | ⟨e, hdone⟩
  · exact hname
  · rw [hdone] at hpublishes
    cases hpublishes

/-- Who publishes under a name after a step did so before, or has just done it where there was
nothing. -/
theorem Effect.publishes (hs : Tidy rt s) {name : Bytes} {d : C} (hcall : s.calls c = some call)
    (heffect : Effect c call.artifact s.dir call.phase dir phase)
    (h : Publishes ⟨dir, Function.update s.calls c (some ⟨call.artifact, phase⟩)⟩ name d) :
    Publishes s name d ∨
      d = c ∧ s.dir.entries name = none ∧ dir.entries name = some (.created c) := by
  obtain ⟨found, hfound, hpublishes, hname⟩ := h
  rcases update_eq_some.mp hfound with ⟨rfl, rfl⟩ | ⟨_, hold⟩
  · have hearlier : call.phase.publishes = true → Publishes s name d :=
      fun hp => ⟨call, hcall, hp, hname⟩
    cases heffect with
    | idle _ hpub => exact Or.inl (hearlier (hpub ▸ hpublishes))
    | create _ _ _ _ _ hpub => cases hpub.symm.trans hpublishes
    | write _ _ _ hpub => cases hpub.symm.trans hpublishes
    | link hbefore hlinked hfree _ _ _ =>
        subst hname
        rw [(hs.temporaries d call _ hcall hbefore).1] at hlinked
        obtain rfl := Option.some.inj hlinked
        exact Or.inr ⟨rfl, hfree, Directory.entries_bind_self⟩
    | release _ _ hpub => exact Or.inl (hearlier (hpub ▸ hpublishes))
    | withdraw _ _ _ hpub => cases hpub.symm.trans hpublishes
  · exact Or.inl ⟨found, hold, hpublishes, hname⟩

/-- Who is between link and return after a step was so before, or has just linked. -/
theorem Effect.linked (hs : Tidy rt s) {name : Bytes} {d : C} (hcall : s.calls c = some call)
    (heffect : Effect c call.artifact s.dir call.phase dir phase)
    (h : Linked ⟨dir, Function.update s.calls c (some ⟨call.artifact, phase⟩)⟩ name d) :
    Linked s name d ∨ d = c ∧ s.dir.entries name = none ∧ dir.entries name = some (.created c) := by
  rcases heffect.publishes hs hcall h.publishes with ⟨old, hold, hpublishes, hname⟩ | hnew
  · obtain ⟨found, hfound, hpub, htemp, _⟩ := h
    refine Or.inl ⟨old, hold, hpublishes, ?_, hname⟩
    rcases update_eq_some.mp hfound with ⟨rfl, rfl⟩ | ⟨_, hsame⟩
    · obtain rfl := Option.some.inj (hcall.symm.trans hold)
      cases heffect with
      | idle hsame _ => exact hsame ▸ htemp
      | create _ hnot _ _ _ _ => cases hnot.symm.trans hpublishes
      | write _ hsame _ _ => exact hsame ▸ htemp
      | link _ _ _ hnot _ _ => cases hnot.symm.trans hpublishes
      | release hbefore _ _ => exact hbefore ▸ Option.some_ne_none _
      | withdraw _ hheld _ _ => exact hheld
    · obtain rfl := Option.some.inj (hsame.symm.trans hold)
      exact htemp
  · exact Or.inr hnew

/-- What an operation can do to an entry under a destination's name: nothing, fill an empty one,
or take the call's own publication back. -/
theorem Effect.destination (hs : Tidy rt s) (hcall : s.calls c = some call) {name : Bytes}
    (hname : filePattern name = true)
    (heffect : Effect c call.artifact s.dir call.phase dir phase) :
    dir.entries name = s.dir.entries name ∨
      (s.dir.entries name = none ∧ dir.entries name = some (.created c)) ∨
      (Linked s name c ∧ phase.publishes = false ∧ dir.entries name = none) := by
  cases heffect with
  | idle _ _ => exact Or.inl rfl
  | create hbefore _ _ hhidden _ _ =>
      refine Or.inl (Directory.entries_bind_of_ne ?_)
      rintro rfl
      exact head_ne_of_filePattern hname hhidden
  | write _ _ _ _ => exact Or.inl rfl
  | link hbefore hfound hfree _ _ _ =>
      by_cases he : call.artifact.fileName = name
      · subst he
        rw [(hs.temporaries c call _ hcall hbefore).1] at hfound
        obtain rfl := Option.some.inj hfound
        exact Or.inr (Or.inl ⟨hfree, Directory.entries_bind_self⟩)
      · exact Or.inl (Directory.entries_bind_of_ne (Ne.symm he))
  | release hbefore _ _ =>
      exact Or.inl (Directory.entries_unbind_of_ne (hs.temporary_ne_name hname hcall hbefore).symm)
  | withdraw _ hheld hpub hpub' =>
      by_cases he : call.artifact.fileName = name
      · subst he
        exact Or.inr (Or.inr ⟨⟨call, hcall, hpub, hheld, rfl⟩, hpub',
          Directory.entries_unbind_self⟩)
      · exact Or.inl (Directory.entries_unbind_of_ne (Ne.symm he))

/-- A call that has just taken its publication back does not publish. -/
theorem not_publishes_of_update {name : Bytes} (h : phase.publishes = false) :
    ¬ Publishes ⟨dir, Function.update s.calls c (some ⟨call.artifact, phase⟩)⟩ name c := by
  rintro ⟨found, hfound, hpublishes, _⟩
  rcases update_eq_some.mp hfound with ⟨_, rfl⟩ | ⟨hne, _⟩
  · cases h.symm.trans hpublishes
  · exact hne rfl

/-- A call that begins does not publish. -/
theorem publishes_of_begin {artifact : Artifact} {setup : Except Error Unit} {name : Bytes} {d : C}
    (h : Publishes ⟨s.dir, Function.update s.calls c
      (some ⟨artifact, beginning rt artifact setup⟩)⟩ name d) : Publishes s name d := by
  obtain ⟨found, hfound, hpublishes, hname⟩ := h
  rcases update_eq_some.mp hfound with ⟨_, rfl⟩ | ⟨_, hold⟩
  · cases (beginning_spec rt artifact setup).2.1.symm.trans hpublishes
  · exact ⟨found, hold, hpublishes, hname⟩

end Step

/-! ## One step -/

omit [DecidableEq C] in
/-- A file of a call under a destination's name is one that the call publishes. -/
theorem Tidy.publisher {s : System C} (hs : Tidy rt s) {name : Bytes} {c : C}
    (hname : filePattern name = true) (h : s.dir.entries name = some (.created c)) :
    Publishes s name c := by
  obtain ⟨call, hcall, htemp | ⟨hpublishes, hfile⟩⟩ := hs.files name c h
  · exact absurd rfl (hs.temporary_ne_name hname hcall htemp)
  · exact ⟨call, hcall, hpublishes, hfile⟩

/-- No step changes what a destination holds, and only a call between its link and its return takes
a name away. -/
theorem step_unaltered {s s' : System C} {action : Action C} {name : Bytes} {file : File C}
    (hname : filePattern name = true) (hs : Tidy rt s)
    (h : s.step rt outputDirectory action = some s')
    (hentry : s.dir.entries name = some file) :
    s'.dir.contents file = s.dir.contents file ∧
      (action ≠ .remove name → s'.dir.entries name = some file ∨
        ∃ c event, action = .advance c event ∧ Linked s name c ∧ ¬ Publishes s' name c) := by
  rcases step_cases h with ⟨c, artifact, setup, rfl, _, rfl⟩ |
    ⟨c, event, call, dir, phase, rfl, hcall, hnext, rfl⟩ | ⟨other, rfl, _, rfl⟩
  · exact ⟨rfl, fun _ => Or.inl hentry⟩
  · have heffect := (advance_spec hnext).1
    refine ⟨?_, fun _ => ?_⟩
    · by_cases hfile : file = .created c
      · subst hfile
        obtain ⟨found, hfound, hpublishes, _⟩ := hs.publisher hname hentry
        obtain rfl := Option.some.inj (hcall.symm.trans hfound)
        -- a publisher does not write
        cases heffect with
        | create _ hpub _ _ _ _ => cases hpub.symm.trans hpublishes
        | write _ _ hpub _ => cases hpub.symm.trans hpublishes
        | _ => rfl
      · exact heffect.contents hfile
    · rcases heffect.destination hs hcall hname with hsame | ⟨hnone, _⟩ | ⟨hown, hpub, _⟩
      · exact Or.inl (hsame.trans hentry)
      · cases hnone.symm.trans hentry
      · exact Or.inr ⟨c, event, rfl, hown, not_publishes_of_update hpub⟩
  · refine ⟨rfl, fun haction => Or.inl ?_⟩
    have hne : name ≠ other := fun he => haction (he ▸ rfl)
    exact (Directory.entries_unbind_of_ne hne).trans hentry

/-- A name that is not removed keeps its file, unless the file's own call takes it back. -/
theorem InPlace.kept {s s' : System C} {action : Action C} {name : Bytes} {file : File C}
    (hplace : InPlace name s) (hname : filePattern name = true) (hs : Tidy rt s)
    (haction : action ≠ .remove name) (h : s.step rt outputDirectory action = some s')
    (hentry : s.dir.entries name = some file) :
    s'.dir.entries name = some file ∨ ∃ c, file = .created c ∧ ¬ Publishes s' name c := by
  rcases (step_unaltered hname hs h hentry).2 haction with hkept | ⟨c, _, _, hlinked, hgone⟩
  · exact Or.inl hkept
  · exact Or.inr ⟨c, Option.some.inj (hentry.symm.trans (hplace c hlinked)), hgone⟩

theorem InPlace.stays {s s' : System C} {action : Action C} {name : Bytes} {c : C}
    (hplace : InPlace name s) (hname : filePattern name = true) (hs : Tidy rt s)
    (haction : action ≠ .remove name) (h : s.step rt outputDirectory action = some s')
    (hentry : s.dir.entries name = some (.created c)) (hc : Publishes s' name c) :
    s'.dir.entries name = some (.created c) := by
  rcases hplace.kept hname hs haction h hentry with hkept | ⟨d, he, hgone⟩
  · exact hkept
  · obtain rfl := File.created.inj he
    exact absurd hc hgone

theorem step_inPlace {name : Bytes} {s s' : System C} {action : Action C}
    (hname : filePattern name = true) (hs : Tidy rt s) (hplace : InPlace name s)
    (haction : action = .remove name → ∀ c, ¬ Linked s name c)
    (h : s.step rt outputDirectory action = some s') : InPlace name s' := by
  intro d hd
  by_cases hremove : action = .remove name
  · subst hremove
    rcases step_cases h with ⟨c, artifact, setup, he, _⟩ |
      ⟨c, event, call, dir, phase, he, _⟩ | ⟨other, _, _, rfl⟩
    · cases he
    · cases he
    · exact absurd hd (haction rfl d)
  · have hkept : Linked s name d → s'.dir.entries name = some (.created d) :=
      fun hold => hplace.stays hname hs hremove h (hplace d hold) hd.publishes
    rcases step_cases h with ⟨c, artifact, setup, rfl, _, rfl⟩ |
      ⟨c, event, call, dir, phase, rfl, hcall, hnext, rfl⟩ | ⟨other, rfl, _, rfl⟩
    · obtain ⟨found, hfound, hpublishes, htemp, hfile⟩ := hd
      rcases update_eq_some.mp hfound with ⟨_, rfl⟩ | ⟨_, hold⟩
      · cases (beginning_spec rt artifact setup).2.1.symm.trans hpublishes
      · exact hkept ⟨found, hold, hpublishes, htemp, hfile⟩
    · rcases (advance_spec hnext).1.linked hs hcall hd with hold | ⟨rfl, _, hnew⟩
      · exact hkept hold
      · exact hnew
    · exact hkept hd

/-- A call's publication stays where it was put. -/
theorem step_standing {name : Bytes} {s s' : System C} {action : Action C} {c : C}
    (hname : filePattern name = true) (hs : Tidy rt s) (hplace : InPlace name s)
    (hstanding : Publishes s name c → s.dir.entries name = some (.created c))
    (haction : action ≠ .remove name) (h : s.step rt outputDirectory action = some s') :
    Publishes s' name c → s'.dir.entries name = some (.created c) := by
  intro hc
  have hkept : Publishes s name c → s'.dir.entries name = some (.created c) :=
    fun hold => hplace.stays hname hs haction h (hstanding hold) hc
  rcases step_cases h with ⟨d, artifact, setup, rfl, _, rfl⟩ |
    ⟨d, event, call, dir, phase, rfl, hcall, hnext, rfl⟩ | ⟨other, rfl, _, rfl⟩
  · exact hkept (publishes_of_begin hc)
  · rcases (advance_spec hnext).1.publishes hs hcall hc with hold | ⟨rfl, _, hnew⟩
    · exact hkept hold
    · exact hnew
  · exact hkept hc

/-! ## Counting publishers -/

def Action.removes (name : Bytes) : Action C → Bool
  | .remove other => other = name
  | _ => false

def removals (name : Bytes) (actions : List (Action C)) : ℕ := actions.countP (Action.removes name)

/-- Publishers of a name are one more than its removals at most, and no more than these while it is
free. -/
def Bounded (name : Bytes) (removed : ℕ) (s : System C) : Prop :=
  ∀ F : Finset C, (∀ c ∈ F, Publishes s name c) →
    F.card ≤ removed + if (s.dir.entries name).isSome then 1 else 0

theorem step_bounded {name : Bytes} {removed : ℕ} {s s' : System C} {action : Action C}
    (hname : filePattern name = true) (hs : Tidy rt s) (hbounded : Bounded name removed s)
    (h : s.step rt outputDirectory action = some s') :
    Bounded name (removed + if action.removes name = true then 1 else 0) s' := by
  intro F hF
  rcases step_cases h with ⟨c, artifact, setup, rfl, _, rfl⟩ |
    ⟨c, event, call, dir, phase, rfl, hcall, hnext, rfl⟩ | ⟨other, rfl, _, rfl⟩
  · exact hbounded F fun d hd => publishes_of_begin (hF d hd)
  · have heffect := (advance_spec hnext).1
    rcases heffect.destination hs hcall hname with hsame | ⟨hnone, hnew⟩ | ⟨hown, hpub, hgone⟩
    · have hbefore : ∀ d ∈ F, Publishes s name d := by
        intro d hd
        rcases heffect.publishes hs hcall (hF d hd) with hold | ⟨_, hnone, hnew⟩
        · exact hold
        · rw [hsame, hnone] at hnew
          cases hnew
      have := hbounded F hbefore
      rwa [← hsame] at this
    · -- everybody but the new publisher was one before, when the name was free
      have hothers : ∀ d ∈ F.erase c, Publishes s name d := by
        intro d hd
        obtain ⟨hne, hmem⟩ := Finset.mem_erase.mp hd
        exact (heffect.publishes hs hcall (hF d hmem)).resolve_right fun h => hne h.1
      have hcount := hbounded _ hothers
      have herase := Finset.pred_card_le_card_erase (s := F) (a := c)
      rw [hnone] at hcount
      simp only [hnew, Option.isSome_some, Option.isSome_none, Bool.false_eq_true, if_true,
        if_false, Action.removes] at hcount ⊢
      omega
    · have hfresh : c ∉ F := fun hmem => not_publishes_of_update hpub (hF c hmem)
      have hbefore : ∀ d ∈ insert c F, Publishes s name d := by
        intro d hd
        rcases Finset.mem_insert.mp hd with rfl | hmem
        · exact hown.publishes
        · rcases heffect.publishes hs hcall (hF d hmem) with hold | ⟨_, _, hnew⟩
          · exact hold
          · cases hgone.symm.trans hnew
      have hcount := hbounded _ hbefore
      rw [Finset.card_insert_of_notMem hfresh] at hcount
      simp only [hgone, Option.isSome_none, Bool.false_eq_true, if_false, Action.removes]
      split_ifs at hcount <;> omega
  · have hcount := hbounded F hF
    by_cases he : name = other
    · subst he
      simp only [Directory.entries_unbind_self, Option.isSome_none, Bool.false_eq_true, if_false,
        Action.removes, decide_true, if_true]
      split_ifs at hcount <;> omega
    · rw [Directory.entries_unbind_of_ne he]
      simpa [Action.removes, Ne.symm he] using hcount

theorem run_bounded {name : Bytes} {removed : ℕ} {s s' : System C} {actions : List (Action C)}
    (hname : filePattern name = true) (hs : Tidy rt s) (hbounded : Bounded name removed s)
    (h : s.run rt outputDirectory actions = some s') :
    Bounded name (removed + removals name actions) s' := by
  induction actions generalizing s removed with
  | nil =>
      obtain rfl : s = s' := Option.some.inj h
      exact hbounded
  | cons action rest ih =>
      obtain ⟨mid, hmid, hrest⟩ := runs_cons.mp h
      have hcount : removals name (action :: rest) =
          (if action.removes name = true then 1 else 0) + removals name rest := by
        rw [removals, List.countP_cons, add_comm]
        rfl
      rw [hcount, ← add_assoc]
      exact ih (step_tidy hs hmid) (step_bounded hname hs hbounded hmid) hrest

/-- When somebody else removes the name, no call is between its link and its return. -/
def Undisturbed (rt : Runtime) (outputDirectory name : Bytes) (start : System C)
    (actions : List (Action C)) : Prop :=
  ∀ front back s, actions = front ++ .remove name :: back →
    start.run rt outputDirectory front = some s → ∀ c, ¬ Linked s name c

section Run

variable {name : Bytes} {s s' : System C} {action : Action C} {actions rest : List (Action C)}

theorem Undisturbed.tail (h : Undisturbed rt outputDirectory name s (action :: actions))
    (hstep : s.step rt outputDirectory action = some s') :
    Undisturbed rt outputDirectory name s' actions := by
  intro front back mid hactions hrun
  exact h (action :: front) back mid (by rw [hactions]; rfl) (runs_cons.mpr ⟨s', hstep, hrun⟩)

omit [DecidableEq C] in
theorem removals_cons_eq_zero (h : removals name (action :: actions) = 0) :
    action ≠ .remove name ∧ removals name actions = 0 := by
  rw [removals, List.countP_eq_zero] at h
  constructor
  · rintro rfl
    exact h _ List.mem_cons_self (by simp [Action.removes])
  · exact List.countP_eq_zero.mpr fun a ha => h a (List.mem_cons_of_mem _ ha)

theorem undisturbed_of_removals (h : removals name actions = 0) :
    Undisturbed rt outputDirectory name s actions := by
  rintro front back mid rfl -
  rw [removals, List.countP_eq_zero] at h
  exact absurd (by simp [Action.removes]) (h (.remove name) (by simp))

theorem run_inPlace (hname : filePattern name = true) (hs : Tidy rt s) (hplace : InPlace name s)
    (hfree : Undisturbed rt outputDirectory name s actions)
    (h : s.run rt outputDirectory actions = some s') : InPlace name s' := by
  induction actions generalizing s with
  | nil =>
      obtain rfl : s = s' := Option.some.inj h
      exact hplace
  | cons action rest ih =>
      obtain ⟨mid, hmid, hrest⟩ := runs_cons.mp h
      refine ih (step_tidy hs hmid) (step_inPlace hname hs hplace ?_ hmid) (hfree.tail hmid) hrest
      rintro rfl
      exact hfree [] rest s rfl rfl

/-- As long as nobody else removes the name, a file that was there stays and so does what a call
has published. -/
theorem run_standing (hname : filePattern name = true) (hs : Tidy rt s) (hplace : InPlace name s)
    (hnone : removals name actions = 0) (h : s.run rt outputDirectory actions = some s') :
    (∀ n, s.dir.entries name = some (.existing n) → s'.dir.entries name = some (.existing n)) ∧
      ∀ c, (Publishes s name c → s.dir.entries name = some (.created c)) →
        Publishes s' name c → s'.dir.entries name = some (.created c) := by
  induction actions generalizing s with
  | nil =>
      obtain rfl : s = s' := Option.some.inj h
      exact ⟨fun _ => id, fun _ => id⟩
  | cons action rest ih =>
      obtain ⟨mid, hmid, hrest⟩ := runs_cons.mp h
      obtain ⟨haction, hnone⟩ := removals_cons_eq_zero hnone
      have hinPlace := step_inPlace hname hs hplace (fun he => absurd he haction) hmid
      obtain ⟨hexisting, hpublished⟩ := ih (step_tidy hs hmid) hinPlace hnone hrest
      refine ⟨fun n hn => hexisting n ?_, fun c hc => hpublished c ?_⟩
      · rcases hplace.kept hname hs haction hmid hn with hkept | ⟨c, he, _⟩
        · exact hkept
        · cases he
      · exact step_standing hname hs hplace hc haction hmid

end Run

/-! ## Files under a destination's name -/

/-- Nothing but what a call has created gets a new name. -/
theorem run_existing {entries : Bytes → Option ℕ} {contents : ℕ → Bytes} {s : System C}
    {actions : List (Action C)}
    (h : (System.initial entries contents).run rt outputDirectory actions = some s) :
    ∀ n, s.dir.contents (.existing n) = contents n ∧
      ∀ name, s.dir.entries name = some (.existing n) → entries name = some n := by
  refine (runs_invariant (P := fun s : System C => Tidy rt s ∧ ∀ n,
    s.dir.contents (.existing n) = contents n ∧
      ∀ name, s.dir.entries name = some (.existing n) → entries name = some n) ?_ ?_ h).2
  · rintro action - s s' ⟨hs, hold⟩ hstep
    refine ⟨step_tidy hs hstep, fun n => ?_⟩
    rcases step_cases hstep with ⟨c, artifact, setup, rfl, _, rfl⟩ |
      ⟨c, event, call, dir, phase, rfl, hcall, hnext, rfl⟩ | ⟨other, rfl, _, rfl⟩
    · exact hold n
    · have heffect := (advance_spec hnext).1
      refine ⟨(heffect.contents fun he => by cases he).trans (hold n).1, fun name hentry => ?_⟩
      rcases heffect.entries hs hcall hentry with hbefore | ⟨he, _⟩
      · exact (hold n).2 name hbefore
      · cases he
    · exact ⟨(hold n).1,
        fun name hentry => (hold n).2 name (Directory.entries_unbind_eq_some.mp hentry).2⟩
  · refine ⟨initial_tidy entries contents, fun n => ⟨rfl, fun name hentry => ?_⟩⟩
    obtain ⟨m, hm, he⟩ := Option.map_eq_some_iff.mp hentry
    obtain rfl := File.existing.inj he
    exact hm

omit [DecidableEq C] in
theorem initial_inPlace (entries : Bytes → Option ℕ) (contents : ℕ → Bytes) (name : Bytes) :
    InPlace name (System.initial entries contents : System C) := by
  rintro c ⟨call, hcall, _⟩
  cases hcall

omit [DecidableEq C] in
theorem initial_bounded (entries : Bytes → Option ℕ) (contents : ℕ → Bytes) (name : Bytes) :
    Bounded name 0 (System.initial entries contents : System C) := by
  intro F hF
  have hempty : F = ∅ := by
    apply Finset.eq_empty_of_forall_notMem
    intro c hc
    obtain ⟨call, hcall, _⟩ := hF c hc
    cases hcall
  rw [hempty, Finset.card_empty]
  exact Nat.zero_le _

/-- Publication is verified, exclusive and all or nothing, whatever the interleaving and whatever
fails. -/
theorem fetch_publishes_once {entries : Bytes → Option ℕ} {contents : ℕ → Bytes} {s : System C}
    {actions : List (Action C)}
    (h : (System.initial entries contents).run rt outputDirectory actions = some s) :
    -- a file that has appeared at a destination is complete and has the right digest
    (∀ name file, filePattern name = true → s.dir.entries name = some file →
      (entries name).map File.existing ≠ some file →
      ∃ c call, file = .created c ∧ s.calls c = some call ∧ call.artifact.fileName = name ∧
        Verified rt call.artifact (s.dir.contents file)) ∧
    -- it is never overwritten or altered; only a call that takes its publication back removes it
    (∀ name file action s', filePattern name = true → s.dir.entries name = some file →
      s.step rt outputDirectory action = some s' →
      s'.dir.contents file = s.dir.contents file ∧
        (action ≠ .remove name → s'.dir.entries name = some file ∨
          ∃ c event, action = .advance c event ∧ Linked s name c ∧ ¬ Publishes s' name c ∧
            (Undisturbed rt outputDirectory name (.initial entries contents) actions →
              file = .created c))) ∧
    (∀ name n, filePattern name = true → entries name = some n → removals name actions = 0 →
      s.dir.entries name = some (.existing n) ∧ s.dir.contents (.existing n) = contents n) ∧
    -- one call succeeds, and one more for each time the file is removed
    (∀ name (F : Finset C), (∀ c ∈ F, Succeeded s name c) → F.card ≤ removals name actions + 1) ∧
    -- success leaves the content in place, until somebody else removes it
    (∀ name c front back start, actions = front ++ back →
      (System.initial entries contents).run rt outputDirectory front = some start →
      ¬ Succeeded start name c → removals name back = 0 →
      Undisturbed rt outputDirectory name (.initial entries contents) front → Succeeded s name c →
      ∃ call, s.calls c = some call ∧ s.dir.entries name = some (.created c) ∧
        Verified rt call.artifact (s.dir.contents (.created c))) ∧
    -- failure leaves nothing
    (∀ c call e, s.calls c = some call → call.phase = .done (.error e) →
      ∀ name, s.dir.entries name ≠ some (.created c)) := by
  have hs := run_tidy h
  have hexisting := run_existing h
  refine ⟨?_, ?_, ?_, ?_, ?_, ?_⟩
  · intro name file hname hentry hnew
    cases file with
    | existing n =>
        rw [(hexisting n).2 name hentry] at hnew
        exact absurd rfl hnew
    | created c =>
        obtain ⟨call, hcall, hpublishes, hfile⟩ := hs.publisher hname hentry
        exact ⟨c, call, rfl, hcall, hfile, (hs.backed c call hcall).verified hpublishes⟩
  · intro name file action s' hname hentry hstep
    obtain ⟨hcontents, hcases⟩ := step_unaltered hname hs hstep hentry
    refine ⟨hcontents, fun haction => (hcases haction).imp_right ?_⟩
    rintro ⟨c, event, hadvance, hlinked, hgone⟩
    refine ⟨c, event, hadvance, hlinked, hgone, fun hfree => ?_⟩
    have hplace := run_inPlace hname (initial_tidy entries contents)
      (initial_inPlace entries contents name) hfree h
    exact Option.some.inj (hentry.symm.trans (hplace c hlinked))
  · intro name n hname hn hnone
    refine ⟨(run_standing hname (initial_tidy entries contents)
      (initial_inPlace entries contents name) hnone h).1 n ?_, (hexisting n).1⟩
    simp [System.initial, hn]
  · intro name F hF
    by_cases hempty : F = ∅
    · rw [hempty, Finset.card_empty]
      exact Nat.zero_le _
    · obtain ⟨c, hc⟩ := Finset.nonempty_iff_ne_empty.mpr hempty
      have hname := (hF c hc).publishes.name hs
      have hcount := run_bounded hname (initial_tidy entries contents)
        (initial_bounded entries contents name) h F fun c hc => (hF c hc).publishes
      rw [zero_add] at hcount
      split_ifs at hcount <;> omega
  · intro name c front back start hactions hfront hnot hnone hfree hsucceeded
    subst hactions
    obtain ⟨mid, hmid, hback⟩ := runs_append.mp h
    obtain rfl : start = mid := Option.some.inj (hfront.symm.trans hmid)
    have hpublishes := hsucceeded.publishes
    have hname := hpublishes.name hs
    have hplace := run_inPlace hname (initial_tidy entries contents)
      (initial_inPlace entries contents name) hfree hfront
    have hstanding := (run_standing hname (run_tidy hfront) hplace hnone hback).2 c
      fun hstart => hplace c (hstart.cases.resolve_right hnot)
    obtain ⟨call, hcall, hpub, _⟩ := hsucceeded.publishes
    exact ⟨call, hcall, hstanding hpublishes, (hs.backed c call hcall).verified hpub⟩
  · intro c call e hcall hphase name hentry
    obtain ⟨found, hfound, howns⟩ := hs.files name c hentry
    obtain rfl := Option.some.inj (hcall.symm.trans hfound)
    rw [Owns, hphase] at howns
    rcases howns with htemp | ⟨hpub, _⟩
    · cases htemp
    · cases hpub

namespace Sample

def approving : Runtime :=
  { Runtime.toy with
    parseRequestURI := fun _ => some ⟨str "https", false, str "github.com", [], []⟩ }

def tool : Artifact :=
  ⟨str "tool", str "tool.zip", str "1.0", List.replicate 40 48, str "binary",
    str "https://github.com/t", hexEncode (Runtime.toy.sha256 [1, 2]).toList, 2, str "p"⟩

def response : Response := ⟨200, 2, ⟨str "https", false, str "github.com", [], []⟩⟩

def download (c : Bool) (random : Bytes) : List (Action Bool) :=
  .begin c tool (.ok ()) :: [.ok, .responds response, .creates random, .ok, .copies [1],
    .copies [2], .ends, .ok, .ok].map (.advance c)

def race : List (Action Bool) :=
  download true [97] ++ download false [98] ++
    [.advance true .ok, .advance false .ok, .advance false .ok, .advance true .ok]

def empty : System Bool := .initial (fun _ => none) fun _ => []

def raced : Option (System Bool) := empty.run approving (str "out") race

end Sample

/-- The one that links first succeeds, and nothing is left of the other one. -/
theorem fetch_publishes_once_race : ∃ s, Sample.raced = some s ∧
    Succeeded s (str "tool.zip") true ∧ s.dir.entries (str "tool.zip") = some (.created true) ∧
    ∀ name, s.dir.entries name ≠ some (.created false) := by
  obtain ⟨s, hs⟩ := Option.isSome_iff_exists.mp (show Sample.raced.isSome = true by decide)
  have htrue : (Sample.raced.bind fun s => s.calls true) =
      some ⟨Sample.tool, .done (.ok (str "out/tool.zip"))⟩ := by decide
  have hfalse : (Sample.raced.bind fun s => s.calls false) =
      some ⟨Sample.tool, .done (.error (.new "artifact fetch: destination already exists"))⟩ := by
    decide
  rw [hs] at htrue hfalse
  have hsucceeded : Succeeded s (str "tool.zip") true := ⟨_, _, htrue, rfl, rfl⟩
  obtain ⟨_, _, _, _, hplace, hnothing⟩ := fetch_publishes_once hs
  have hnot : ¬ Succeeded Sample.empty (str "tool.zip") true := by
    rintro ⟨_, _, hcall, _⟩
    cases hcall
  obtain ⟨_, _, hentry, _⟩ := hplace _ true [] Sample.race Sample.empty rfl rfl hnot
    (by decide) (undisturbed_of_removals rfl) hsucceeded
  exact ⟨s, hs, hsucceeded, hentry, hnothing false _ _ hfalse rfl⟩

namespace Sample

/-- The first call has linked when somebody removes the name; the second one links there, and then
the first cannot remove its temporary file. -/
def displaced : List (Action Bool) :=
  download true [97] ++ download false [98] ++
    [.advance true .ok, .remove (str "tool.zip"), .advance false .ok,
      .advance true (.fails (.library "permission denied")), .advance true .ok, .advance true .ok,
      .advance false .ok]

end Sample

/-- `os.Remove(destination)` goes by the name: the second call succeeds, and its file is gone. -/
example : (Sample.empty.run Sample.approving (str "out") Sample.displaced).map
    (fun s => ((s.calls false).map Call.phase, s.dir.entries (str "tool.zip"))) =
      some (some (.done (.ok (str "out/tool.zip"))), none) := by
  decide

end CloudHelp.ArtifactLock
