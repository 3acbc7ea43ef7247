import CloudHelp.ApiRuns

/-!
# Every request comes to its end

The requests of the public API wait for each other in two places, at the channel and at the
issuer's mutex, and for the file system and the readiness checks. None of them waits for ever
because of another one: in every state of the server in which a request is not at its end, some
step is possible, and each step leaves less to do.
-/

namespace CloudHelp.ManifestAPI

open Manifest Service

variable {K : Type} {h : Handler K} {rt : Runtime} {C : Catalog → Prop} {start : Issuer}
  {x x' : Server K}

/-! ## Something can always happen -/

/-- The bodies of `Issue` and `Close` can always go on. -/
theorem bodyStep_progress (issuer : Issuer) (place : BodyPlace) :
    ∃ input next, input.Loads C ∧ bodyStep rt issuer place input = some next := by
  cases place with
  | issuing =>
      cases hserve : issuer.serve (Time.truncateSecond 0) with
      | some answer => exact ⟨.clock 0, _, trivial, by simp only [bodyStep, hserve]; rfl⟩
      | none => exact ⟨.clock 0, _, trivial, by simp only [bodyStep, hserve]; rfl⟩
  | loading now => exact ⟨.catalog (.error .notExist), _, (fun _ hloaded => by cases hloaded), rfl⟩
  | saving now envelope next => exact ⟨.saved (.ok ()), _, trivial, rfl⟩
  | assigning rest answer =>
      cases rest with
      | nil => exact ⟨.proceed, _, trivial, rfl⟩
      | cons assignment rest => exact ⟨.proceed, _, trivial, rfl⟩
  | closing =>
      by_cases hclosed : issuer.closed = true
      · exact ⟨.proceed, _, trivial, by simp only [bodyStep]; rw [if_pos hclosed]⟩
      · exact ⟨.proceed, _, trivial, by simp only [bodyStep]; rw [if_neg hclosed]⟩
  | unlocking => exact ⟨.unlocked (.ok ()), _, trivial, rfl⟩

/-- An event that brings nothing new: no request comes in, and the process makes no call. -/
def Event.Quiet : Event → Prop
  | .arrive _ _ | .issuer (.call none _) => False
  | _ => True

/-- The result of a call of `Issue` is one of `Issue`. -/
theorem Tracks.issued_of_done (hx : Tracks h rt C start x) {u : Option ℕ} {since index : ℕ}
    {result : Result} (hdone : x.issuer.threads u = .done .issue since result index) :
    ∃ answer, result = .issued answer := by
  obtain ⟨_, _, hentry⟩ := (hx.ordered.threads u).done _ _ _ _ hdone
  obtain ⟨base, hserial, _⟩ := hx.ordered.serial
  have hlog : ∀ e ∈ x.issuer.log, e.call = .issue → ∃ answer, e.result = .issued answer := by
    refine hserial.forall_mem (P := fun _ => True) (fun _ _ _ _ _ _ _ => trivial) ?_ trivial
    intro s e s' _ hcall hissue
    rw [hissue] at hcall
    obtain ⟨_, answer, hresult, _⟩ := answerTo_of_executes hcall
    exact ⟨answer, hresult⟩
  exact hlog _ (List.mem_of_getElem? hentry) rfl

/-- A step in the middle of a call is permitted. -/
theorem Tracks.permits_of_pending (hx : Tracks h rt C start x)
    {action : Monitor.Action (Option ℕ) Method Input}
    {issuer : Monitor.System (Option ℕ) Issuer BodyPlace Method Input Result}
    (hpending : (x.issuer.threads action.thread).Pending) (hleave : action ≠ .leave action.thread)
    (hstep : x.issuer.step (issuerMonitor rt) action = some issuer) :
    permits x.phases action = true ∧ (Event.issuer action).Quiet := by
  have hcalling : ∀ t, action.thread = some t → (x.phases t).isCalling = true := by
    intro t ht
    rw [ht] at hpending
    obtain ⟨visit, hphase, _⟩ := hx.calling_of_thread (t := t) fun hidle => by
      rw [hidle] at hpending
      exact hpending
    rw [hphase]
    rfl
  cases action with
  | call u c =>
      cases Monitor.step_effect hstep with
      | called c hidle =>
          change (x.issuer.threads u).Pending at hpending
          rw [hidle] at hpending
          exact hpending.elim
  | lock u =>
      cases u with
      | none => exact ⟨rfl, trivial⟩
      | some t => exact ⟨hcalling t rfl, trivial⟩
  | step u i =>
      cases u with
      | none => exact ⟨rfl, trivial⟩
      | some t => exact ⟨hcalling t rfl, trivial⟩
  | unlock u =>
      cases u with
      | none => exact ⟨rfl, trivial⟩
      | some t => exact ⟨hcalling t rfl, trivial⟩
  | leave u => exact absurd rfl hleave

/-- While a request is not at its end, something can happen that brings nothing new. -/
theorem Tracks.progress (hx : Tracks h rt C start x) {t : ℕ} (ht : x.phases t ≠ .idle) :
    ∃ event, event.Quiet ∧ event.Allowed C ∧ ∃ x', x.step h rt event = some x' := by
  cases hphase : x.phases t with
  | idle => exact absurd hphase ht
  | arrived visit =>
      refine ⟨.acquire t, trivial, trivial, ?_⟩
      simp only [Server.step, hphase]
      cases Handler.answers visit.request with
      | some response => exact ⟨_, rfl⟩
      | none =>
          by_cases hroom : x.inFlight < h.capacity
          · exact ⟨_, if_pos hroom⟩
          · exact ⟨_, if_neg hroom⟩
  | checking visit index rest =>
      refine ⟨.check t (.ok ()), trivial, trivial, ?_⟩
      simp only [Server.step, hphase]
      cases rest with
      | nil => exact ⟨_, rfl⟩
      | cons check rest => exact ⟨_, rfl⟩
  | answered slot =>
      cases slot with
      | false =>
          refine ⟨.finish t, trivial, trivial, ?_⟩
          simp only [Server.step, hphase]
          exact ⟨_, rfl⟩
      | true =>
          have hpos : 0 < x.inFlight := hx.slots.pos (t := t) (by rw [hphase]; trivial)
          refine ⟨.release t, trivial, trivial, ?_⟩
          simp only [Server.step, hphase, if_pos hpos]
          exact ⟨_, rfl⟩
  | calling visit =>
      -- a pending thread, this one or the one with the lock, takes a step that is permitted
      have hpending : (x.issuer.threads (some t)).Pending →
          ∃ event, event.Quiet ∧ event.Allowed C ∧ ∃ x', x.step h rt event = some x' := by
        intro hthread
        obtain ⟨action, hpending, hleave, hallowed, issuer, hstep⟩ :=
          hx.ordered.progress bodyStep_progress hthread
        obtain ⟨hpermits, hquiet⟩ := hx.permits_of_pending hpending hleave hstep
        refine ⟨.issuer action, hquiet, hallowed, ?_⟩
        rw [Server.step, if_pos hpermits, hstep]
        exact ⟨_, rfl⟩
      cases hthread : x.issuer.threads (some t) with
      | idle =>
          refine ⟨.issuer (.call (some t) .issue), trivial, trivial, ?_⟩
          simp only [Server.step, permits, hphase, Phase.isCalling, if_true, Monitor.System.step,
            hthread]
          exact ⟨_, rfl⟩
      | done c since result index =>
          obtain ⟨_, _, hcall⟩ := hx.calling_of_thread (t := t)
            (by rw [hthread]; exact fun hidle => by cases hidle)
          rw [hthread] at hcall
          obtain rfl : c = .issue := Option.some.inj hcall
          obtain ⟨answer, rfl⟩ := hx.issued_of_done hthread
          refine ⟨.resume t, trivial, trivial, ?_⟩
          simp only [Server.step, hphase, hthread, Monitor.System.step]
          exact ⟨_, rfl⟩
      | waiting c since => exact hpending (by rw [hthread]; trivial)
      | inside c since taken l => exact hpending (by rw [hthread]; trivial)
      | leaving c since taken r => exact hpending (by rw [hthread]; trivial)

/-! ## The work that is left -/

def placeWork : BodyPlace → ℕ
  | .issuing => 10
  | .loading _ => 9
  | .saving _ _ _ => 8
  | .assigning rest _ => rest.length + 1
  | .closing => 2
  | .unlocking => 1

def threadWork : Monitor.Thread BodyPlace Method Input Result → ℕ
  | .idle => 0
  | .waiting _ _ => 13
  | .inside _ _ _ l => placeWork l + 2
  | .leaving _ _ _ _ => 2
  | .done _ _ _ _ => 1

def callWork : Monitor.Thread BodyPlace Method Input Result → ℕ
  | .idle => 14
  | thread => threadWork thread

theorem callWork_eq {thread : Monitor.Thread BodyPlace Method Input Result}
    (hthread : thread ≠ .idle) : callWork thread = threadWork thread := by
  cases thread with
  | idle => exact absurd rfl hthread
  | _ => rfl

def phaseWork (h : Handler K) (thread : Monitor.Thread BodyPlace Method Input Result) : Phase K → ℕ
  | .idle => 0
  | .arrived _ => h.checks.length + 18
  | .calling _ => callWork thread + h.checks.length + 3
  | .checking _ _ rest => rest.length + 3
  | .answered true => 2
  | .answered false => 1

theorem placeWork_fails (issuer : Issuer) (now : ℤ) (e : Error) :
    placeWork (issuer.fails now e) ≤ 4 := by
  unfold Issuer.fails
  split_ifs
  · exact le_refl 4
  · exact Nat.le_succ 3

theorem placeWork_step {issuer issuer' : Issuer} {place place' : BodyPlace} {input : Input}
    (hstep : bodyStep rt issuer place input = some (issuer', .inl place')) :
    placeWork place' < placeWork place := by
  cases place with
  | issuing =>
      cases input with
      | clock time =>
          simp only [bodyStep] at hstep
          cases hserve : issuer.serve (Time.truncateSecond time) with
          | some answer => simp [hserve] at hstep
          | none =>
              simp only [hserve, Option.some.injEq, Prod.mk.injEq, Sum.inl.injEq] at hstep
              obtain ⟨_, rfl⟩ := hstep
              exact Nat.lt_succ_self 9
      | _ => cases hstep
  | loading now =>
      cases input with
      | catalog loaded =>
          simp only [bodyStep] at hstep
          cases hplan : issuer.plan rt now loaded with
          | error e =>
              simp only [hplan, Option.some.injEq, Prod.mk.injEq, Sum.inl.injEq] at hstep
              obtain ⟨_, rfl⟩ := hstep
              exact (placeWork_fails issuer now e).trans_lt (by decide : 4 < 9)
          | ok found =>
              simp only [hplan, Option.some.injEq, Prod.mk.injEq, Sum.inl.injEq] at hstep
              obtain ⟨_, rfl⟩ := hstep
              exact Nat.lt_succ_self 8
      | _ => cases hstep
  | saving now envelope next =>
      cases input with
      | saved outcome =>
          cases outcome with
          | error e =>
              simp only [bodyStep, Option.some.injEq, Prod.mk.injEq, Sum.inl.injEq] at hstep
              obtain ⟨_, rfl⟩ := hstep
              exact (placeWork_fails issuer now _).trans_lt (by decide : 4 < 8)
          | ok u =>
              simp only [bodyStep, Option.some.injEq, Prod.mk.injEq, Sum.inl.injEq] at hstep
              obtain ⟨_, rfl⟩ := hstep
              exact Nat.lt_succ_self 7
      | _ => cases hstep
  | assigning rest answer =>
      cases rest with
      | nil => cases input <;> simp [bodyStep] at hstep
      | cons assignment rest =>
          cases input with
          | proceed =>
              simp only [bodyStep, Option.some.injEq, Prod.mk.injEq, Sum.inl.injEq] at hstep
              obtain ⟨_, rfl⟩ := hstep
              exact Nat.lt_succ_self _
          | _ => cases hstep
  | closing =>
      cases input with
      | proceed =>
          simp only [bodyStep] at hstep
          split_ifs at hstep
          · cases hstep
          · simp only [Option.some.injEq, Prod.mk.injEq, Sum.inl.injEq] at hstep
            obtain ⟨_, rfl⟩ := hstep
            exact Nat.lt_succ_self 1
      | _ => cases hstep
  | unlocking => cases input <;> cases hstep

/-- Each step of a thread but its call leaves less to do. -/
theorem threadWork_step {y y' : Monitor.System (Option ℕ) Issuer BodyPlace Method Input Result}
    {action : Monitor.Action (Option ℕ) Method Input}
    (hcall : ∀ c, action ≠ .call action.thread c)
    (hstep : y.step (issuerMonitor rt) action = some y') :
    threadWork (y'.threads action.thread) < threadWork (y.threads action.thread) := by
  cases Monitor.step_effect hstep with
  | called c hidle => exact absurd rfl (hcall c)
  | @locked t c since hwaiting hfree =>
      simp only [Monitor.Action.thread, hwaiting, Monitor.System.put_self]
      cases c with
      | issue => exact (by decide : 12 < 13)
      | close => exact (by decide : 4 < 13)
  | wentOn hinside hbody =>
      simp only [Monitor.Action.thread, hinside, Monitor.System.put_self]
      exact Nat.add_lt_add_right (placeWork_step hbody) 2
  | @returned t c since taken l i s r hinside hbody =>
      simp only [Monitor.Action.thread, hinside, Monitor.System.put_self]
      have hpos : 0 < placeWork l := by cases l <;> simp [placeWork]
      exact Nat.lt_add_of_pos_left hpos
  | unlocked hleaving =>
      simp only [Monitor.Action.thread, hleaving, Monitor.System.put_self]
      exact Nat.lt_succ_self 1
  | left hdone =>
      simp only [Monitor.Action.thread, hdone, Monitor.System.put_self]
      exact Nat.zero_lt_one

def work (h : Handler K) (x : Server K) (t : ℕ) : ℕ :=
  phaseWork h (x.issuer.threads (some t)) (x.phases t)

/-- The work of one request, or that of the process, gets less, and no other work changes. -/
def Lessens (h : Handler K) (x x' : Server K) : Prop :=
  (∃ t, x.phases t ≠ .idle ∧ work h x' t < work h x t ∧ (∀ u, u ≠ t → work h x' u = work h x u) ∧
      x'.issuer.threads none = x.issuer.threads none) ∨
    (∀ u, work h x' u = work h x u) ∧
      threadWork (x'.issuer.threads none) < threadWork (x.issuer.threads none)

/-- A request moves on; the other callers of the issuer do not. -/
theorem lessens_put {t : ℕ} {phase : Phase K} {n : ℕ} {served : List Served}
    {issuer : Monitor.System (Option ℕ) Issuer BodyPlace Method Input Result}
    (hothers : ∀ u, u ≠ some t → issuer.threads u = x.issuer.threads u) (ht : x.phases t ≠ .idle)
    (hless : phaseWork h (issuer.threads (some t)) phase < work h x t) :
    Lessens h x ⟨issuer, n, Function.update x.phases t phase, served⟩ := by
  refine Or.inl ⟨t, ht, ?_, fun u hut => ?_, hothers none nofun⟩
  · simp only [work, Function.update_self]
    exact hless
  · simp only [work, Function.update_of_ne hut]
    rw [hothers (some u) fun he => hut (Option.some.inj he)]

theorem lessens_called {action : Monitor.Action (Option ℕ) Method Input}
    {issuer : Monitor.System (Option ℕ) Issuer BodyPlace Method Input Result}
    (hquiet : (Event.issuer action).Quiet) (hpermits : permits x.phases action = true)
    (hstep : x.issuer.step (issuerMonitor rt) action = some issuer) :
    Lessens h x { x with issuer := issuer } := by
  have hothers := @Monitor.threads_of_ne _ _ _ _ _ _ _ _ _ _ _ hstep
  cases hthread : action.thread with
  | none =>
      refine Or.inr ⟨fun u => ?_, ?_⟩
      · rw [work, work, hothers (u := some u) (by rw [hthread]; nofun)]
      · have hless := threadWork_step (fun c hc => ?_) hstep
        · rwa [hthread] at hless
        · rw [hc, hthread] at hquiet
          exact hquiet
  | some t =>
      obtain ⟨⟨visit, hphase⟩, hleave, _⟩ := calling_of_permits hpermits hthread
      refine Or.inl ⟨t, by rw [hphase]; nofun, ?_, fun u hut => ?_,
        hothers (by rw [hthread]; nofun)⟩
      · simp only [work, hphase, phaseWork]
        have hmoved := Monitor.thread_step hstep hleave
        rcases hmoved with ⟨c, _, hidle, hwaiting⟩ | ⟨hsame, _, hbusy⟩
        · rw [← hthread, hwaiting, hidle]
          exact Nat.add_lt_add_right (Nat.add_lt_add_right (by decide : 13 < 14) _) _
        · have hless := threadWork_step (fun c hc => ?_) hstep
          · have hbusy' : issuer.threads action.thread ≠ .idle := by
              intro hidle
              rw [hidle] at hsame
              cases hold : x.issuer.threads action.thread with
              | idle => exact hbusy hold
              | _ => rw [hold] at hsame; cases hsame
            rw [← hthread, callWork_eq hbusy, callWork_eq hbusy']
            omega
          · rw [hc] at hstep hbusy
            cases Monitor.step_effect hstep with
            | called c hidle => exact hbusy hidle
      · rw [work, work, hothers (u := some u) ?_]
        rw [hthread]
        exact fun he => hut (Option.some.inj he)

theorem Tracks.lessens (hx : Tracks h rt C start x) {event : Event} (hquiet : event.Quiet)
    (hstep : x.step h rt event = some x') : Lessens h x x' := by
  have hbusy : ∀ {t : ℕ} {phase : Phase K}, x.phases t = phase → phase ≠ .idle →
      x.phases t ≠ .idle := fun hphase hne => hphase ▸ hne
  cases step_effect hstep with
  | called hpermits hissuer => exact lessens_called hquiet hpermits hissuer
  | arrived request hphase => exact hquiet.elim
  | answered hphase hanswers =>
      apply lessens_put (fun _ _ => rfl) (hbusy hphase nofun)
      simp only [work, hphase, phaseWork]
      omega
  | full hphase hanswers hfull =>
      apply lessens_put (fun _ _ => rfl) (hbusy hphase nofun)
      simp only [work, hphase, phaseWork]
      omega
  | @admitted t visit hphase hanswers hroom =>
      apply lessens_put (fun _ _ => rfl) (hbusy hphase nofun)
      simp only [work, hphase, phaseWork]
      have hfits := hx.phases t
      rw [hphase] at hfits
      rw [hfits.1, callWork]
      omega
  | @resumed t visit c since index answer issuer hphase hdone hleave =>
      have hothers : ∀ u, u ≠ some t → issuer.threads u = x.issuer.threads u :=
        fun u hu => Monitor.threads_of_ne hleave hu
      have hwork : work h x t = h.checks.length + 4 := by
        simp only [work, hphase, phaseWork, hdone, callWork, threadWork]
        omega
      rcases resumed_cases (h := h) { x with issuer := issuer } t visit index answer with
        ⟨response, hresumed, _⟩ | ⟨_, hresumed⟩
      · rw [hresumed]
        apply lessens_put hothers (hbusy hphase nofun)
        rw [hwork, phaseWork]
        omega
      · rw [hresumed]
        apply lessens_put hothers (hbusy hphase nofun)
        rw [hwork, phaseWork]
        omega
  | passed hphase =>
      apply lessens_put (fun _ _ => rfl) (hbusy hphase nofun)
      simp only [work, hphase, phaseWork, List.length_cons]
      omega
  | failed hphase err =>
      apply lessens_put (fun _ _ => rfl) (hbusy hphase nofun)
      simp only [work, hphase, phaseWork]
      omega
  | readied outcome hphase =>
      apply lessens_put (fun _ _ => rfl) (hbusy hphase nofun)
      simp only [work, hphase, phaseWork]
      omega
  | panicked hphase =>
      apply lessens_put (fun _ _ => rfl) (hbusy hphase nofun)
      simp only [work, hphase, phaseWork]
      omega
  | released hphase hpos =>
      apply lessens_put (fun _ _ => rfl) (hbusy hphase nofun)
      simp only [work, hphase, phaseWork]
      omega
  | finished hphase =>
      apply lessens_put (fun _ _ => rfl) (hbusy hphase nofun)
      simp only [work, hphase, phaseWork]
      omega

/-- A request that is at its end stays there until a new one comes in. -/
theorem idle_step {event : Event} (hquiet : event.Quiet) (hstep : x.step h rt event = some x')
    {u : ℕ} (hu : x.phases u = .idle) : x'.phases u = .idle := by
  have hupdate : ∀ {t : ℕ} {old new : Phase K}, x.phases t = old → old ≠ .idle →
      Function.update x.phases t new u = .idle := by
    intro t old new hphase hne
    have hut : u ≠ t := by
      rintro rfl
      exact hne (hphase.symm.trans hu)
    rw [Function.update_of_ne hut, hu]
  cases step_effect hstep with
  | called hpermits hissuer => exact hu
  | arrived request hphase => exact hquiet.elim
  | @resumed t visit c since index answer issuer hphase hdone hleave =>
      rcases resumed_cases (h := h) { x with issuer := issuer } t visit index answer with
        ⟨response, hresumed, _⟩ | ⟨_, hresumed⟩
      · rw [hresumed]
        exact hupdate hphase nofun
      · rw [hresumed]
        exact hupdate hphase nofun
  | answered hphase | full hphase | admitted hphase => exact hupdate hphase nofun
  | passed hphase | failed hphase | panicked hphase | released hphase | finished hphase =>
      exact hupdate hphase nofun
  | readied outcome hphase => exact hupdate hphase nofun

/-- Only finitely many requests are not at their end. -/
theorem Reachable.active (hx : Reachable h rt C start x) :
    ∃ active : Finset ℕ, ∀ t, t ∉ active → x.phases t = .idle := by
  induction hx with
  | initial => exact ⟨∅, fun _ _ => rfl⟩
  | @step x x' event _ _ hstep ih =>
      obtain ⟨active, hactive⟩ := ih
      by_cases hquiet : event.Quiet
      · exact ⟨active, fun t ht => idle_step hquiet hstep (hactive t ht)⟩
      · cases step_effect hstep with
        | called hpermits hissuer => exact ⟨active, hactive⟩
        | @arrived t request hphase =>
            refine ⟨insert t active, fun u hu => ?_⟩
            obtain ⟨hut, hold⟩ := not_or.mp (fun hmem => hu (Finset.mem_insert.mpr hmem))
            exact (Function.update_of_ne hut ..).trans (hactive u hold)
        | _ => exact absurd trivial hquiet

def totalWork (h : Handler K) (active : Finset ℕ) (x : Server K) : ℕ :=
  threadWork (x.issuer.threads none) + ∑ t ∈ active, work h x t

theorem totalWork_lt {active : Finset ℕ} (hactive : ∀ t, t ∉ active → x.phases t = .idle)
    (hless : Lessens h x x') : totalWork h active x' < totalWork h active x := by
  unfold totalWork
  rcases hless with ⟨t, ht, hlt, hothers, hprocess⟩ | ⟨hsame, hlt⟩
  · have hmem : t ∈ active := by
      by_contra hnot
      exact ht (hactive t hnot)
    rw [hprocess]
    apply Nat.add_lt_add_left
    apply Finset.sum_lt_sum
    · intro u _
      by_cases hut : u = t
      · exact hut ▸ hlt.le
      · exact (hothers u hut).le
    · exact ⟨t, hmem, hlt⟩
  · rw [Finset.sum_congr rfl fun u _ => hsame u]
    exact Nat.add_lt_add_right hlt _

theorem length_le_totalWork {active : Finset ℕ} {events : List Event}
    (hx : Reachable h rt C start x) (hactive : ∀ t, t ∉ active → x.phases t = .idle)
    (hevents : ∀ event ∈ events, event.Quiet ∧ event.Allowed C)
    (hrun : CloudHelp.runs (Server.step h rt) x events = some x') :
    events.length ≤ totalWork h active x := by
  induction events generalizing x with
  | nil => exact Nat.zero_le _
  | cons event events ih =>
      obtain ⟨mid, hmid, hrest⟩ := runs_cons.mp hrun
      obtain ⟨hquiet, hallowed⟩ := hevents event List.mem_cons_self
      have hlt := totalWork_lt hactive (hx.tracks.lessens hquiet hmid)
      have hle := ih (hx.step event hallowed hmid)
        (fun t ht => idle_step hquiet hmid (hactive t ht))
        (fun e he => hevents e (List.mem_cons_of_mem _ he)) hrest
      rw [List.length_cons]
      omega

/-- If no request comes in any more and the process makes no call, then the server is at its end
after finitely many events, whatever they are: it cannot stop before every request has been
answered or given up by a panic, and then the channel is empty. -/
theorem requests_end (hx : Reachable h rt C start x) :
    ∃ bound, ∀ events x', (∀ event ∈ events, event.Quiet ∧ event.Allowed C) →
      CloudHelp.runs (Server.step h rt) x events = some x' →
        events.length ≤ bound ∧
          ((∀ event : Event, event.Quiet → event.Allowed C → x'.step h rt event = none) →
            (∀ t, x'.phases t = .idle) ∧ x'.inFlight = 0) := by
  obtain ⟨active, hactive⟩ := hx.active
  refine ⟨totalWork h active x, fun events x' hevents hrun => ⟨?_, fun hstuck => ?_⟩⟩
  · exact length_le_totalWork hx hactive hevents hrun
  · have htracks := (hx.runs (fun event he => (hevents event he).2) hrun).tracks
    have hidle : ∀ t, x'.phases t = .idle := by
      intro t
      by_contra hbusy
      obtain ⟨event, hquiet, hallowed, next, hstep⟩ := htracks.progress hbusy
      cases (hstuck event hquiet hallowed).symm.trans hstep
    refine ⟨hidle, ?_⟩
    obtain ⟨holders, hmem, hcard⟩ := htracks.slots
    rw [← hcard, Finset.card_eq_zero, Finset.eq_empty_iff_forall_notMem]
    intro t ht
    have hholds := (hmem t).mp ht
    rw [hidle t] at hholds
    exact hholds

theorem requests_end_crowded : ∃ x : Server Unit,
    CloudHelp.runs (Server.step Sample.single .toy)
        (.initial (Service.Sample.running Service.Sample.hourly)) Sample.crowded = some x ∧
      x.inFlight = 1 ∧
      ∃ bound, ∀ events x', (∀ event ∈ events, event.Quiet ∧ event.Allowed Catalog.Utf8) →
        CloudHelp.runs (Server.step Sample.single .toy) x events = some x' →
          events.length ≤ bound := by
  obtain ⟨x, hrun, hinFlight, _⟩ := Sample.runs_crowded .toy
    (Service.Sample.running Service.Sample.hourly)
  have hx : Reachable Sample.single .toy Catalog.Utf8 _ x := Sample.reachable_crowded hrun
  obtain ⟨bound, hbound⟩ := requests_end hx
  exact ⟨x, hrun, hinFlight, bound, fun events x' hevents hrest =>
    (hbound events x' hevents hrest).1⟩

end CloudHelp.ManifestAPI
