import CloudHelp.ArtifactFetch

/-!
# Publication of artifacts

What one operation of a call can do to the directory is said once (`Effect`). From it follow the
invariants of all runs: a call owns its temporary file alone, a published file has been checked,
and a call that has failed owns nothing.
-/

namespace CloudHelp.ArtifactLock

open Manifest

variable {C : Type} [DecidableEq C] {rt : Runtime} {outputDirectory : Bytes}

/-! ## What an operation can do -/

def Phase.temporary : Phase → Option Bytes
  | .chmod t | .copy t _ | .sync t | .close t | .link t | .removeTemporary t
  | .removeDestination t _ | .cleanUp t _ => some t
  | _ => none

/-- The destination is the call's file, unless somebody else has removed it. -/
def Phase.publishes : Phase → Bool
  | .removeTemporary _ | .removeDestination _ _ | .done (.ok _) => true
  | _ => false

inductive Effect (c : C) (artifact : Artifact) (dir : Output C) (phase : Phase) :
    Output C → Phase → Prop
  | idle {phase' : Phase} (temporary : phase'.temporary = phase.temporary)
      (publishes : phase'.publishes = phase.publishes) : Effect c artifact dir phase dir phase'
  | create {phase' : Phase} {t : Bytes} (before : phase.temporary = none)
      (publishes : phase.publishes = false) (fresh : dir.entries t = none)
      (hidden : t.head? = some 46) (after : phase'.temporary = some t)
      (publishes' : phase'.publishes = false) :
      Effect c artifact dir phase ((dir.bind t (.created c)).write (.created c) []) phase'
  | write {phase' : Phase} (content : Bytes) (temporary : phase'.temporary = phase.temporary)
      (publishes : phase.publishes = false) (publishes' : phase'.publishes = false) :
      Effect c artifact dir phase (dir.write (.created c) content) phase'
  | link {phase' : Phase} {t : Bytes} {file : File C} (before : phase.temporary = some t)
      (found : dir.entries t = some file) (free : dir.entries artifact.fileName = none)
      (publishes : phase.publishes = false) (after : phase'.temporary = some t)
      (publishes' : phase'.publishes = true) :
      Effect c artifact dir phase (dir.bind artifact.fileName file) phase'
  | release {phase' : Phase} {t : Bytes} (before : phase.temporary = some t)
      (after : phase'.temporary = none) (publishes : phase'.publishes = phase.publishes) :
      Effect c artifact dir phase (dir.unbind t) phase'
  | withdraw {phase' : Phase} (temporary : phase'.temporary = phase.temporary)
      (held : phase.temporary ≠ none) (publishes : phase.publishes = true)
      (publishes' : phase'.publishes = false) :
      Effect c artifact dir phase (dir.unbind artifact.fileName) phase'

def Verified (rt : Runtime) (artifact : Artifact) (content : Bytes) : Prop :=
  1 ≤ content.length ∧ content.length ≤ artifact.maxBytes ∧
    hexEncode (rt.sha256 content).toList = artifact.sha256

theorem checkDownload_eq_ok {artifact : Artifact} {hashed : Bytes}
    (h : checkDownload rt artifact hashed = .ok ()) : Verified rt artifact hashed := by
  unfold checkDownload at h
  split_ifs at h with hsize hdigest
  exact ⟨by omega, by omega, not_not.mp hdigest⟩

/-- What a call knows of the content of its file. -/
def Backed (rt : Runtime) (artifact : Artifact) (content : Bytes) : Phase → Prop
  | .chmod _ => content = []
  | .copy _ hashed => content = hashed
  | .sync _ | .close _ | .link _ | .removeTemporary _ | .removeDestination _ _ | .done (.ok _) =>
      Verified rt artifact content
  | _ => True

theorem Backed.verified {artifact : Artifact} {content : Bytes} {phase : Phase}
    (h : Backed rt artifact content phase) (hpublishes : phase.publishes = true) :
    Verified rt artifact content := by
  cases phase with
  | removeTemporary t => exact h
  | removeDestination t e => exact h
  | done result =>
      cases result with
      | error e => cases hpublishes
      | ok path => exact h
  | _ => cases hpublishes

/-- The effect of an operation, and what the call knows afterwards. -/
theorem advance_spec {c : C} {artifact : Artifact} {dir dir' : Output C} {phase phase' : Phase}
    {event : Event}
    (h : advance rt c artifact outputDirectory dir phase event = some (dir', phase')) :
    Effect c artifact dir phase dir' phase' ∧
      (Backed rt artifact (dir.contents (.created c)) phase →
        Backed rt artifact (dir'.contents (.created c)) phase') := by
  cases phase with
  | inspect =>
      cases event <;> simp only [advance, reduceCtorEq] at h
      · split_ifs at h <;> cases h <;> exact ⟨.idle rfl rfl, fun _ => trivial⟩
      · split_ifs at h
        cases h
        exact ⟨.idle rfl rfl, fun _ => trivial⟩
  | request =>
      cases event <;> simp only [advance, reduceCtorEq] at h
      · cases h
        exact ⟨.idle rfl rfl, fun _ => trivial⟩
      · cases h
        exact ⟨.idle rfl rfl, fun _ => trivial⟩
      · split at h <;> cases h <;> exact ⟨.idle rfl rfl, fun _ => trivial⟩
  | createTemp =>
      cases event <;> simp only [advance, reduceCtorEq] at h
      · cases h
        exact ⟨.idle rfl rfl, fun _ => trivial⟩
      · split_ifs at h with htaken
        cases h
        exact ⟨.create rfl rfl (Option.not_isSome_iff_eq_none.mp htaken) rfl rfl rfl,
          fun _ => Directory.contents_write_self⟩
  | chmod t =>
      cases event <;> simp only [advance, reduceCtorEq] at h <;> cases h
      · exact ⟨.idle rfl rfl, id⟩
      · exact ⟨.idle rfl rfl, fun _ => trivial⟩
  | copy t hashed =>
      cases event <;> simp only [advance, reduceCtorEq] at h
      · split_ifs at h
        cases h
        refine ⟨.write _ rfl rfl rfl, fun (hcontent : _ = hashed) => ?_⟩
        rw [hcontent]
        exact Directory.contents_write_self
      · cases h
        exact ⟨.write _ rfl rfl rfl, fun _ => trivial⟩
      · split at h
        · cases h
          exact ⟨.idle rfl rfl, fun _ => trivial⟩
        · cases h
          refine ⟨.idle rfl rfl, fun (hcontent : _ = hashed) => ?_⟩
          rw [hcontent]
          exact checkDownload_eq_ok ‹_›
  | sync t =>
      cases event <;> simp only [advance, reduceCtorEq] at h <;> cases h
      · exact ⟨.idle rfl rfl, id⟩
      · exact ⟨.idle rfl rfl, fun _ => trivial⟩
  | close t =>
      cases event <;> simp only [advance, reduceCtorEq] at h <;> cases h
      · exact ⟨.idle rfl rfl, id⟩
      · exact ⟨.idle rfl rfl, fun _ => trivial⟩
  | link t =>
      cases event <;> simp only [advance, reduceCtorEq] at h
      · split at h
        · cases h
        · rename_i file hfound
          split_ifs at h with htaken
          · cases h
            exact ⟨.idle rfl rfl, fun _ => trivial⟩
          · cases h
            exact ⟨.link rfl hfound (Option.not_isSome_iff_eq_none.mp htaken) rfl rfl rfl, id⟩
      · cases h
        exact ⟨.idle rfl rfl, fun _ => trivial⟩
  | removeTemporary t =>
      cases event <;> simp only [advance, reduceCtorEq] at h <;> cases h
      · exact ⟨.release rfl rfl rfl, id⟩
      · exact ⟨.idle rfl rfl, id⟩
  | removeDestination t e =>
      cases event <;> simp only [advance, reduceCtorEq] at h
      cases h
      exact ⟨.withdraw rfl (Option.some_ne_none t) rfl rfl, fun _ => trivial⟩
  | cleanUp t e =>
      cases event <;> simp only [advance, reduceCtorEq] at h
      cases h
      exact ⟨.release rfl rfl rfl, fun _ => trivial⟩
  | done result => cases event <;> simp only [advance, reduceCtorEq] at h

/-- A call that is over does nothing more. -/
theorem advance_done {c : C} {artifact : Artifact} {dir : Output C} {result : Except Error Bytes}
    {event : Event} {next : Output C × Phase}
    (h : advance rt c artifact outputDirectory dir (.done result) event = some next) : False := by
  cases event <;> simp only [advance, reduceCtorEq] at h

/-- What a step of the system can be. -/
theorem step_cases {s s' : System C} {action : Action C}
    (h : s.step rt outputDirectory action = some s') :
    (∃ c artifact setup, action = .begin c artifact setup ∧ s.calls c = none ∧
      s' = { s with
        calls := Function.update s.calls c (some ⟨artifact, beginning rt artifact setup⟩) }) ∨
    (∃ c event call dir phase, action = .advance c event ∧ s.calls c = some call ∧
      advance rt c call.artifact outputDirectory s.dir call.phase event = some (dir, phase) ∧
      s' = ⟨dir, Function.update s.calls c (some ⟨call.artifact, phase⟩)⟩) ∨
    (∃ name, action = .remove name ∧ filePattern name = true ∧
      s' = { s with dir := s.dir.unbind name }) := by
  cases action with
  | begin c artifact setup =>
      simp only [System.step] at h
      split_ifs at h with hcalls
      exact Or.inl ⟨c, artifact, setup, rfl, Option.not_isSome_iff_eq_none.mp hcalls,
        (Option.some.inj h).symm⟩
  | advance c event =>
      simp only [System.step] at h
      cases hcall : s.calls c with
      | none =>
          rw [hcall] at h
          cases h
      | some call =>
          simp only [hcall] at h
          cases hnext : advance rt c call.artifact outputDirectory s.dir call.phase event with
          | none =>
              rw [hnext] at h
              cases h
          | some next =>
              simp only [hnext] at h
              exact Or.inr (Or.inl ⟨c, event, call, next.1, next.2, rfl, hcall, hnext,
                (Option.some.inj h).symm⟩)
  | remove name =>
      simp only [System.step] at h
      split_ifs at h with hname
      exact Or.inr (Or.inr ⟨name, rfl, hname, (Option.some.inj h).symm⟩)

/-! ## What holds in all runs -/

def Owns (call : Call) (name : Bytes) : Prop :=
  call.phase.temporary = some name ∨ call.phase.publishes = true ∧ call.artifact.fileName = name

/-- Every file of a call has only names the call has given, a temporary name is hidden and a
destination is not, and contents are what the calls know of them. -/
structure Tidy (rt : Runtime) (s : System C) : Prop where
  temporaries : ∀ c call t, s.calls c = some call → call.phase.temporary = some t →
    s.dir.entries t = some (.created c) ∧ t.head? = some 46
  files : ∀ name c, s.dir.entries name = some (.created c) →
    ∃ call, s.calls c = some call ∧ Owns call name
  names : ∀ c call, s.calls c = some call →
    filePattern call.artifact.fileName = true ∨ ∃ e, call.phase = .done (.error e)
  backed : ∀ c call, s.calls c = some call →
    Backed rt call.artifact (s.dir.contents (.created c)) call.phase

theorem head_ne_of_filePattern {name : Bytes} (h : filePattern name = true) :
    name.head? ≠ some 46 := by
  cases name with
  | nil => simp
  | cons c rest =>
      rintro he
      rw [List.head?_cons, Option.some_inj] at he
      subst he
      simp [filePattern, matchesHeadTail, isAlnum, isLower, isUpper, isDigit] at h

omit [DecidableEq C] in
theorem initial_tidy (entries : Bytes → Option ℕ) (contents : ℕ → Bytes) :
    Tidy rt (System.initial entries contents : System C) where
  temporaries := fun c call t h => by cases h
  files := by
    intro name c h
    obtain ⟨n, _, hn⟩ := Option.map_eq_some_iff.mp h
    cases hn
  names := fun c call h => by cases h
  backed := fun c call h => by cases h

theorem beginning_spec (rt : Runtime) (artifact : Artifact) (setup : Except Error Unit) :
    (beginning rt artifact setup).temporary = none ∧
      (beginning rt artifact setup).publishes = false ∧
      (filePattern artifact.fileName = true ∨
        ∃ e, beginning rt artifact setup = .done (.error e)) ∧
      ∀ content, Backed rt artifact content (beginning rt artifact setup) := by
  unfold beginning
  cases hvalid : validateArtifact rt artifact with
  | error e => exact ⟨rfl, rfl, Or.inr ⟨e, rfl⟩, fun _ => trivial⟩
  | ok u =>
      cases setup with
      | error e => exact ⟨rfl, rfl, Or.inr ⟨e, rfl⟩, fun _ => trivial⟩
      | ok v => exact ⟨rfl, rfl, Or.inl (validateArtifact_eq_ok hvalid).1, fun _ => trivial⟩

section Step

variable {s : System C} {c : C} {call : Call} {dir : Output C} {phase : Phase}

omit [DecidableEq C] in
/-- A temporary file is known to one call only. -/
theorem Tidy.temporary_ne (hs : Tidy rt s) {d : C} {other : Call} {t u : Bytes} (hd : d ≠ c)
    (hcall : s.calls c = some call) (ht : call.phase.temporary = some t)
    (hother : s.calls d = some other) (hu : other.phase.temporary = some u) : u ≠ t := by
  rintro rfl
  have hc := (hs.temporaries c call _ hcall ht).1
  rw [(hs.temporaries d other _ hother hu).1] at hc
  exact hd (File.created.inj (Option.some.inj hc))

omit [DecidableEq C] in
theorem Tidy.temporary_ne_name (hs : Tidy rt s) {name t : Bytes} (hname : filePattern name = true)
    (hcall : s.calls c = some call) (ht : call.phase.temporary = some t) : t ≠ name := by
  rintro rfl
  exact head_ne_of_filePattern hname (hs.temporaries c call _ hcall ht).2

/-- Other calls keep their temporary files, and so does the call while it has one. -/
theorem Effect.temporaries (hs : Tidy rt s) (hcall : s.calls c = some call)
    (hname : filePattern call.artifact.fileName = true)
    (heffect : Effect c call.artifact s.dir call.phase dir phase) (d : C) (found : Call) (t : Bytes)
    (hd : Function.update s.calls c (some ⟨call.artifact, phase⟩) d = some found)
    (ht : found.phase.temporary = some t) :
    dir.entries t = some (.created d) ∧ t.head? = some 46 := by
  rcases update_eq_some.mp hd with ⟨rfl, rfl⟩ | ⟨hne, hold⟩
  · cases heffect with
    | idle htemp _ => exact hs.temporaries d call t hcall (htemp ▸ ht)
    | create _ _ hfresh hhidden hafter _ =>
        obtain rfl := Option.some.inj (hafter.symm.trans ht)
        exact ⟨Directory.entries_bind_self, hhidden⟩
    | write content htemp _ _ => exact hs.temporaries d call t hcall (htemp ▸ ht)
    | link hbefore hfound hfree _ hafter _ =>
        obtain rfl := Option.some.inj (hafter.symm.trans ht)
        have hne := hs.temporary_ne_name hname hcall hbefore
        rw [Directory.entries_bind_of_ne hne]
        exact hs.temporaries d call _ hcall hbefore
    | release _ hafter _ => cases hafter.symm.trans ht
    | withdraw htemp _ _ _ =>
        have hbefore : call.phase.temporary = some t := htemp ▸ ht
        rw [Directory.entries_unbind_of_ne (hs.temporary_ne_name hname hcall hbefore)]
        exact hs.temporaries d call t hcall hbefore
  · obtain ⟨hentry, hhidden⟩ := hs.temporaries d found t hold ht
    refine ⟨?_, hhidden⟩
    cases heffect with
    | idle _ _ => exact hentry
    | create _ _ hfresh _ _ _ =>
        rw [Directory.entries_write, Directory.entries_bind_of_ne, hentry]
        rintro rfl
        rw [hentry] at hfresh
        cases hfresh
    | write content _ _ _ => exact hentry
    | link _ _ _ _ _ _ =>
        rwa [Directory.entries_bind_of_ne (hs.temporary_ne_name hname hold ht)]
    | release hbefore _ _ =>
        rwa [Directory.entries_unbind_of_ne (hs.temporary_ne hne hcall hbefore hold ht)]
    | withdraw _ _ _ _ =>
        rwa [Directory.entries_unbind_of_ne (hs.temporary_ne_name hname hold ht)]

/-- The call still gives its file the names it had before, except for one that is taken away. -/
theorem Effect.owns {name : Bytes} (heffect : Effect c call.artifact s.dir call.phase dir phase)
    (hkept : dir.entries name ≠ none) (h : Owns call name) : Owns ⟨call.artifact, phase⟩ name := by
  cases heffect with
  | idle htemp hpub =>
      unfold Owns at h ⊢
      rwa [htemp, hpub]
  | create hbefore hpub _ _ _ _ =>
      rcases h with h | ⟨h, _⟩
      · cases hbefore.symm.trans h
      · cases hpub.symm.trans h
  | write _ htemp hpub _ =>
      rcases h with h | ⟨h, _⟩
      · exact Or.inl (htemp.trans h)
      · cases hpub.symm.trans h
  | link hbefore _ _ hpub hafter _ =>
      rcases h with h | ⟨h, _⟩
      · exact Or.inl (hafter.trans (hbefore.symm.trans h))
      · cases hpub.symm.trans h
  | release hbefore _ hpub =>
      rcases h with h | ⟨h, hname⟩
      · obtain rfl := Option.some.inj (hbefore.symm.trans h)
        exact absurd Directory.entries_unbind_self hkept
      · exact Or.inr ⟨hpub.trans h, hname⟩
  | withdraw htemp _ _ _ =>
      rcases h with h | ⟨_, hname⟩
      · exact Or.inl (htemp.trans h)
      · subst hname
        exact absurd Directory.entries_unbind_self hkept

/-- A step gives a name to no file but the call's own. -/
theorem Effect.entries (hs : Tidy rt s) (hcall : s.calls c = some call) {name : Bytes}
    {file : File C} (heffect : Effect c call.artifact s.dir call.phase dir phase)
    (h : dir.entries name = some file) :
    s.dir.entries name = some file ∨ file = .created c ∧ Owns ⟨call.artifact, phase⟩ name := by
  cases heffect with
  | idle _ _ => exact Or.inl h
  | create _ _ _ _ hafter _ =>
      rcases Directory.entries_bind_eq_some.mp h with ⟨rfl, rfl⟩ | ⟨_, h⟩
      · exact Or.inr ⟨rfl, Or.inl hafter⟩
      · exact Or.inl h
  | write _ _ _ _ => exact Or.inl h
  | link hbefore hfound _ _ _ hpub =>
      rcases Directory.entries_bind_eq_some.mp h with ⟨rfl, rfl⟩ | ⟨_, h⟩
      · rw [(hs.temporaries c call _ hcall hbefore).1] at hfound
        exact Or.inr ⟨(Option.some.inj hfound).symm, Or.inr ⟨hpub, rfl⟩⟩
      · exact Or.inl h
  | release _ _ _ => exact Or.inl (Directory.entries_unbind_eq_some.mp h).2
  | withdraw _ _ _ _ => exact Or.inl (Directory.entries_unbind_eq_some.mp h).2

theorem Effect.files (hs : Tidy rt s) (hcall : s.calls c = some call)
    (heffect : Effect c call.artifact s.dir call.phase dir phase) (name : Bytes) (d : C)
    (h : dir.entries name = some (.created d)) :
    ∃ found, Function.update s.calls c (some ⟨call.artifact, phase⟩) d = some found ∧
      Owns found name := by
  rcases heffect.entries hs hcall h with hold | ⟨hfile, howns⟩
  · obtain ⟨other, hother, howns⟩ := hs.files name d hold
    by_cases hd : d = c
    · subst hd
      obtain rfl := Option.some.inj (hcall.symm.trans hother)
      refine ⟨_, update_eq_some.mpr (Or.inl ⟨rfl, rfl⟩), heffect.owns ?_ howns⟩
      rw [h]
      exact Option.some_ne_none _
    · exact ⟨other, update_eq_some.mpr (Or.inr ⟨hd, hother⟩), howns⟩
  · obtain rfl := File.created.inj hfile
    exact ⟨_, update_eq_some.mpr (Or.inl ⟨rfl, rfl⟩), howns⟩

/-- A step writes to no file but the call's own. -/
theorem Effect.contents (heffect : Effect c call.artifact s.dir call.phase dir phase)
    {file : File C} (h : file ≠ .created c) : dir.contents file = s.dir.contents file := by
  cases heffect with
  | create _ _ _ _ _ _ => exact Directory.contents_write_of_ne h
  | write content _ _ _ => exact Directory.contents_write_of_ne h
  | _ => rfl

end Step

theorem step_tidy {s s' : System C} {action : Action C} (hs : Tidy rt s)
    (h : s.step rt outputDirectory action = some s') : Tidy rt s' := by
  rcases step_cases h with ⟨c, artifact, setup, rfl, hnone, rfl⟩ |
    ⟨c, event, call, dir, phase, rfl, hcall, hnext, rfl⟩ | ⟨name, rfl, hname, rfl⟩
  · -- a call that begins has no file
    obtain ⟨htemp, _, hnames, hbacked⟩ := beginning_spec rt artifact setup
    constructor
    · intro d found t hd ht
      rcases update_eq_some.mp hd with ⟨_, rfl⟩ | ⟨_, hold⟩
      · cases htemp.symm.trans ht
      · exact hs.temporaries d found t hold ht
    · intro name d hentry
      obtain ⟨other, hother, howns⟩ := hs.files name d hentry
      refine ⟨other, update_eq_some.mpr (Or.inr ⟨?_, hother⟩), howns⟩
      rintro rfl
      cases hnone.symm.trans hother
    · intro d found hd
      rcases update_eq_some.mp hd with ⟨_, rfl⟩ | ⟨_, hold⟩
      · exact hnames
      · exact hs.names d found hold
    · intro d found hd
      rcases update_eq_some.mp hd with ⟨_, rfl⟩ | ⟨_, hold⟩
      · exact hbacked _
      · exact hs.backed d found hold
  · obtain ⟨heffect, hbacked⟩ := advance_spec hnext
    have hname : filePattern call.artifact.fileName = true := by
      rcases hs.names c call hcall with hname | ⟨e, hdone⟩
      · exact hname
      · rw [hdone] at hnext
        exact (advance_done hnext).elim
    constructor
    · exact heffect.temporaries hs hcall hname
    · exact heffect.files hs hcall
    · intro d found hd
      rcases update_eq_some.mp hd with ⟨_, rfl⟩ | ⟨_, hold⟩
      · exact Or.inl hname
      · exact hs.names d found hold
    · intro d found hd
      rcases update_eq_some.mp hd with ⟨rfl, rfl⟩ | ⟨hne, hold⟩
      · exact hbacked (hs.backed d call hcall)
      · rw [heffect.contents fun he => hne (File.created.inj he)]
        exact hs.backed d found hold
  · constructor
    · intro c call t hcall ht
      obtain ⟨hentry, hhidden⟩ := hs.temporaries c call t hcall ht
      refine ⟨?_, hhidden⟩
      rwa [Directory.entries_unbind_of_ne (hs.temporary_ne_name hname hcall ht)]
    · intro other c hentry
      exact hs.files other c (Directory.entries_unbind_eq_some.mp hentry).2
    · exact hs.names
    · exact hs.backed

theorem run_tidy {entries : Bytes → Option ℕ} {contents : ℕ → Bytes} {actions : List (Action C)}
    {s : System C} (h : (System.initial entries contents).run rt outputDirectory actions = some s) :
    Tidy rt s :=
  runs_invariant (fun _ _ _ _ hs hstep => step_tidy hs hstep) (initial_tidy entries contents) h

end CloudHelp.ArtifactLock
