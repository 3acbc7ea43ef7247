import CloudHelp.Continuity
import CloudHelp.ManifestAPI

/-!
# Runs of the public API

What holds in every state that the server of the public API can get into, however the requests,
the process and the file system interleave. The channel has one element for each request between
`acquire` and `release`, and none is lost. The answers of `/v1/manifest` rest on calls of the
issuer that could have been made one after the other, in an order in which no request comes before
an answer that was written before it came in. So a client that asks again and again, each time
after its last answer, can verify every answer with the state that the last one left.
-/

namespace CloudHelp.ManifestAPI

open Manifest Service

variable {K : Type} {h : Handler K} {rt : Runtime} {C : Catalog → Prop} {start : Issuer}

/-! ## The elements of the channel -/

/-- As many requests as `n` have an element in the channel. -/
def Slots (phases : ℕ → Phase K) (n : ℕ) : Prop :=
  ∃ holders : Finset ℕ, (∀ t, t ∈ holders ↔ (phases t).Holds) ∧ holders.card = n

namespace Slots

variable {phases : ℕ → Phase K} {n t : ℕ} {phase : Phase K}

theorem update_same (hs : Slots phases n) (hsame : phase.Holds ↔ (phases t).Holds) :
    Slots (Function.update phases t phase) n := by
  obtain ⟨holders, hmem, hcard⟩ := hs
  refine ⟨holders, ?_, hcard⟩
  apply (Function.forall_update_iff phases fun u phase => u ∈ holders ↔ phase.Holds).mpr
  exact ⟨(hmem t).trans hsame.symm, fun u _ => hmem u⟩

theorem update_add (hs : Slots phases n) (hnot : ¬(phases t).Holds) (hphase : phase.Holds) :
    Slots (Function.update phases t phase) (n + 1) := by
  obtain ⟨holders, hmem, hcard⟩ := hs
  refine ⟨insert t holders, ?_, ?_⟩
  · apply (Function.forall_update_iff phases fun u phase => u ∈ insert t holders ↔ phase.Holds).mpr
    refine ⟨⟨fun _ => hphase, fun _ => Finset.mem_insert_self t holders⟩, fun u hut => ?_⟩
    rw [Finset.mem_insert, ← hmem u]
    exact ⟨fun hu => hu.resolve_left hut, Or.inr⟩
  · rw [Finset.card_insert_of_notMem (fun ht => hnot ((hmem t).mp ht)), hcard]

theorem update_sub (hs : Slots phases n) (hholds : (phases t).Holds) (hnot : ¬phase.Holds) :
    Slots (Function.update phases t phase) (n - 1) := by
  obtain ⟨holders, hmem, hcard⟩ := hs
  refine ⟨holders.erase t, ?_, ?_⟩
  · apply (Function.forall_update_iff phases fun u phase => u ∈ holders.erase t ↔ phase.Holds).mpr
    refine ⟨⟨fun ht => absurd rfl (Finset.mem_erase.mp ht).1, fun ht => absurd ht hnot⟩,
      fun u hut => ?_⟩
    rw [Finset.mem_erase, ← hmem u]
    exact ⟨fun hu => hu.2, fun hu => ⟨hut, hu⟩⟩
  · rw [Finset.card_erase_of_mem ((hmem t).mpr hholds), hcard]

theorem pos (hs : Slots phases n) (hholds : (phases t).Holds) : 0 < n := by
  obtain ⟨holders, hmem, rfl⟩ := hs
  exact Finset.card_pos.mpr ⟨t, (hmem t).mpr hholds⟩

end Slots

/-! ## The order of requests and calls -/

abbrev Log := List (Monitor.Entry (Option ℕ) Method Input Result)

/-- The answers that were written before the request came in rest on calls before its mark. -/
structure Visit.Fits (log : Log) (served : List Served) (visit : Visit) : Prop where
  mark : visit.mark ≤ log.length
  started : visit.started ≤ served.length
  earlier : ∀ (i : ℕ) (s : Served) (k : ℕ), i < visit.started → served[i]? = some s →
    s.index = some k → k < visit.mark

def Visit.Called (log : Log) (visit : Visit) (index : ℕ) (answer : Except Error Envelope) : Prop :=
  visit.mark ≤ index ∧ ∃ e : Monitor.Entry (Option ℕ) Method Input Result, log[index]? = some e ∧
    e.result = .issued answer

def Served.Rests (h : Handler K) (log : Log) (s : Served) : Prop :=
  match s.index with
  | none => s.visit.request.route = .manifest → s.response.status ≠ 200
  | some index => ∃ answer, s.visit.Called log index answer ∧
      (s.visit.request.route = .manifest → s.response = h.manifest s.visit.request answer)

def Phase.Fits (log : Log) (served : List Served)
    (thread : Monitor.Thread BodyPlace Method Input Result) : Phase K → Prop
  | .idle | .answered _ => thread = .idle
  | .arrived visit => thread = .idle ∧ visit.Fits log served
  | .calling visit =>
      (thread = .idle ∨ visit.mark ≤ thread.since ∧ thread.call? = some .issue) ∧
        visit.Fits log served
  | .checking visit index _ => thread = .idle ∧ visit.Fits log served ∧
      visit.request.route = .readyz ∧ ∃ answer, visit.Called log index answer

section Mono

variable {log log' : Log} {served served' : List Served}

theorem getElem?_of_isPrefix {α : Type} {l l' : List α} (hl : l <+: l') {i : ℕ}
    (hi : i < l.length) : l'[i]? = l[i]? := by
  obtain ⟨rest, rfl⟩ := hl
  exact List.getElem?_append_left hi

theorem Visit.Fits.mono {visit : Visit} (hv : visit.Fits log served) (hlog : log <+: log')
    (hserved : served <+: served') : visit.Fits log' served' where
  mark := hv.mark.trans hlog.length_le
  started := hv.started.trans hserved.length_le
  earlier := by
    intro i s k hi hs hk
    rw [getElem?_of_isPrefix hserved (hi.trans_le hv.started)] at hs
    exact hv.earlier i s k hi hs hk

theorem Visit.Called.mono {visit : Visit} {index : ℕ} {answer : Except Error Envelope}
    (hc : visit.Called log index answer) (hlog : log <+: log') :
    visit.Called log' index answer := by
  obtain ⟨hmark, e, he, hresult⟩ := hc
  obtain ⟨hindex, _⟩ := List.getElem?_eq_some_iff.mp he
  exact ⟨hmark, e, (getElem?_of_isPrefix hlog hindex).trans he, hresult⟩

theorem Served.Rests.mono {s : Served} (hs : s.Rests h log) (hlog : log <+: log') :
    s.Rests h log' := by
  unfold Served.Rests at hs ⊢
  cases hindex : s.index with
  | none => simpa only [hindex] using hs
  | some index =>
      simp only [hindex] at hs ⊢
      obtain ⟨answer, hcalled, hresponse⟩ := hs
      exact ⟨answer, hcalled.mono hlog, hresponse⟩

theorem Phase.Fits.mono {phase : Phase K} {thread : Monitor.Thread BodyPlace Method Input Result}
    (hp : phase.Fits log served thread) (hlog : log <+: log') (hserved : served <+: served') :
    phase.Fits log' served' thread := by
  cases phase with
  | idle => exact hp
  | arrived visit => exact ⟨hp.1, hp.2.mono hlog hserved⟩
  | calling visit => exact ⟨hp.1, hp.2.mono hlog hserved⟩
  | checking visit index rest =>
      obtain ⟨hthread, hvisit, hroute, answer, hcalled⟩ := hp
      exact ⟨hthread, hvisit.mono hlog hserved, hroute, answer, hcalled.mono hlog⟩
  | answered slot => exact hp

end Mono

/-! ## What every event keeps -/

structure Tracks (h : Handler K) (rt : Runtime) (C : Catalog → Prop) (start : Issuer)
    (x : Server K) : Prop where
  ordered : Monitor.Ordered (issuerMonitor rt) (Input.Loads C) start x.issuer
  phases : ∀ t, (x.phases t).Fits x.issuer.log x.served (x.issuer.threads (some t))
  served : ∀ s ∈ x.served, s.Rests h x.issuer.log ∧ s.visit.Fits x.issuer.log x.served
  slots : Slots x.phases x.inFlight
  capacity : x.inFlight ≤ h.capacity

def Event.Allowed (C : Catalog → Prop) : Event → Prop
  | .issuer action => action.Allowed (Input.Loads C)
  | _ => True

variable {x x' : Server K}

theorem tracks_initial : Tracks h rt C start (.initial start) where
  ordered := Monitor.ordered_initial
  phases := fun _ => rfl
  served := fun _ hs => absurd hs List.not_mem_nil
  slots := ⟨∅, fun t => ⟨fun ht => absurd ht (Finset.notMem_empty t), fun ht => ht.elim⟩, rfl⟩
  capacity := Nat.zero_le _

/-- One request moves on; nothing else changes. -/
theorem Tracks.phases_put (hx : Tracks h rt C start x) {t : ℕ} {phase : Phase K}
    {issuer : Monitor.System (Option ℕ) Issuer BodyPlace Method Input Result} {served : List Served}
    (hthreads : ∀ u, u ≠ some t → issuer.threads u = x.issuer.threads u)
    (hlog : x.issuer.log <+: issuer.log) (hserved : x.served <+: served)
    (hphase : phase.Fits issuer.log served (issuer.threads (some t))) (u : ℕ) :
    (Function.update x.phases t phase u).Fits issuer.log served (issuer.threads (some u)) := by
  by_cases hut : u = t
  · subst hut
    rw [Function.update_self]
    exact hphase
  · rw [Function.update_of_ne hut, hthreads (some u) fun he => hut (Option.some.inj he)]
    exact (hx.phases u).mono hlog hserved

/-- An answer is added. -/
theorem Tracks.served_append (hx : Tracks h rt C start x) {log : Log}
    (hlog : x.issuer.log <+: log) {s : Served} (hrests : s.Rests h log)
    (hvisit : s.visit.Fits log x.served) :
    ∀ s' ∈ x.served ++ [s], s'.Rests h log ∧ s'.visit.Fits log (x.served ++ [s]) := by
  intro s' hs'
  rcases List.mem_append.mp hs' with hold | hnew
  · obtain ⟨hrests', hvisit'⟩ := hx.served s' hold
    exact ⟨hrests'.mono hlog, hvisit'.mono hlog (List.prefix_append _ _)⟩
  · rw [List.mem_singleton.mp hnew]
    exact ⟨hrests, hvisit.mono (List.prefix_refl _) (List.prefix_append _ _)⟩

theorem exists_of_isCalling {phase : Phase K} (hcalling : phase.isCalling = true) :
    ∃ visit, phase = .calling visit := by
  cases phase with
  | calling visit => exact ⟨visit, rfl⟩
  | _ => cases hcalling

/-- A request takes part in the issuer's calls only between `acquire` and the return of `issue`. -/
theorem calling_of_permits {phases : ℕ → Phase K}
    {action : Monitor.Action (Option ℕ) Method Input} (hpermits : permits phases action = true)
    {t : ℕ} (ht : action.thread = some t) :
    (∃ visit, phases t = .calling visit) ∧ action ≠ .leave action.thread ∧
      ∀ c, action = .call action.thread c → c = .issue := by
  cases action with
  | call u c =>
      obtain rfl : u = some t := ht
      cases c with
      | issue =>
          refine ⟨exists_of_isCalling hpermits, nofun, fun c hc => ?_⟩
          cases hc
          rfl
      | close => cases hpermits
  | lock u =>
      obtain rfl : u = some t := ht
      exact ⟨exists_of_isCalling hpermits, nofun, nofun⟩
  | step u i =>
      obtain rfl : u = some t := ht
      exact ⟨exists_of_isCalling hpermits, nofun, nofun⟩
  | unlock u =>
      obtain rfl : u = some t := ht
      exact ⟨exists_of_isCalling hpermits, nofun, nofun⟩
  | leave u =>
      obtain rfl : u = some t := ht
      cases hpermits

theorem status_of_answers {request : Request} {response : Response}
    (hanswers : Handler.answers request = some response) (hroute : request.route = .manifest) :
    response.status ≠ 200 := by
  unfold Handler.answers at hanswers
  simp only [hroute] at hanswers
  split_ifs at hanswers
  obtain rfl := Option.some.inj hanswers
  decide

/-- A caller of the issuer takes a step. -/
theorem Tracks.called (hx : Tracks h rt C start x)
    {action : Monitor.Action (Option ℕ) Method Input}
    {issuer : Monitor.System (Option ℕ) Issuer BodyPlace Method Input Result}
    (hallowed : action.Allowed (Input.Loads C)) (hpermits : permits x.phases action = true)
    (hstep : x.issuer.step (issuerMonitor rt) action = some issuer) :
    Tracks h rt C start { x with issuer := issuer } where
  ordered := hx.ordered.step hallowed hstep
  phases := by
    intro t
    have hlog := Monitor.log_mono hstep
    have hfits := (hx.phases t).mono hlog (List.prefix_refl x.served)
    by_cases ht : action.thread = some t
    · obtain ⟨⟨visit, hphase⟩, hleave, hcall⟩ := calling_of_permits hpermits ht
      have hold := hx.phases t
      simp only [hphase] at hfits hold ⊢
      refine ⟨Or.inr ?_, hfits.2⟩
      rw [← ht] at hold ⊢
      rcases Monitor.thread_step hstep hleave with ⟨c, hc, _, hwaiting⟩ | ⟨hsame, hsince, hbusy⟩
      · rw [hwaiting, hcall c hc]
        exact ⟨hold.2.mark, rfl⟩
      · rw [hsame, hsince]
        exact hold.1.resolve_left hbusy
    · rw [Monitor.threads_of_ne hstep fun he => ht he.symm]
      exact hfits
  served := by
    intro s hs
    obtain ⟨hrests, hvisit⟩ := hx.served s hs
    exact ⟨hrests.mono (Monitor.log_mono hstep),
      hvisit.mono (Monitor.log_mono hstep) (List.prefix_refl _)⟩
  slots := hx.slots
  capacity := hx.capacity

/-- A request moves on with the issuer as it is. -/
theorem Tracks.put (hx : Tracks h rt C start x) (t : ℕ) (phase : Phase K) (n : ℕ)
    (hphase : phase.Fits x.issuer.log x.served (x.issuer.threads (some t)))
    (hslots : Slots (Function.update x.phases t phase) n) (hn : n ≤ h.capacity) :
    Tracks h rt C start { x.put t phase with inFlight := n } where
  ordered := hx.ordered
  phases := hx.phases_put (fun _ _ => rfl) (List.prefix_refl _) (List.prefix_refl _) hphase
  served := hx.served
  slots := hslots
  capacity := hn

theorem Tracks.put_same (hx : Tracks h rt C start x) (t : ℕ) (phase : Phase K)
    (hphase : phase.Fits x.issuer.log x.served (x.issuer.threads (some t)))
    (hholds : phase.Holds ↔ (x.phases t).Holds) : Tracks h rt C start (x.put t phase) :=
  hx.put t phase x.inFlight hphase (hx.slots.update_same hholds) hx.capacity

/-- A request writes its answer. -/
theorem Tracks.respond (hx : Tracks h rt C start x) {t : ℕ} {s : Served} {slot : Bool}
    (hthread : x.issuer.threads (some t) = .idle)
    (hholds : (Phase.answered slot : Phase K).Holds ↔ (x.phases t).Holds)
    (hrests : s.Rests h x.issuer.log) (hvisit : s.visit.Fits x.issuer.log x.served) :
    Tracks h rt C start (x.respond t s slot) where
  ordered := hx.ordered
  phases := hx.phases_put (fun _ _ => rfl) (List.prefix_refl _) (List.prefix_append _ _) hthread
  served := hx.served_append (List.prefix_refl _) hrests hvisit
  slots := hx.slots.update_same hholds
  capacity := hx.capacity

/-- The issuer's call is over, and the request has its result. -/
theorem Tracks.left (hx : Tracks h rt C start x) {t : ℕ} {visit : Visit} {c : Method}
    {since index : ℕ} {answer : Except Error Envelope}
    {issuer : Monitor.System (Option ℕ) Issuer BodyPlace Method Input Result}
    (hphase : x.phases t = .calling visit)
    (hdone : x.issuer.threads (some t) = .done c since (.issued answer) index)
    (hleave : x.issuer.step (issuerMonitor rt) (.leave (some t)) = some issuer) :
    Tracks h rt C start { x with issuer := issuer } ∧ issuer.threads (some t) = .idle ∧
      visit.Fits issuer.log x.served ∧ visit.Called issuer.log index answer := by
  have hallowed : (Monitor.Action.leave (some t) : Monitor.Action (Option ℕ) Method Input).Allowed
      (Input.Loads C) := trivial
  have hordered := hx.ordered.step hallowed hleave
  have hfits := hx.phases t
  simp only [hphase, hdone] at hfits
  obtain ⟨hsince, hvisit⟩ := hfits
  obtain ⟨hindex, _, hentry⟩ := (hx.ordered.threads (some t)).done _ _ _ _ hdone
  cases Monitor.step_effect hleave with
  | left hthread =>
      refine ⟨⟨hordered, fun u => ?_, hx.served, hx.slots, hx.capacity⟩, Monitor.System.put_self ..,
        hvisit, ?_⟩
      · by_cases hut : u = t
        · subst hut
          simp only [hphase, Monitor.System.put_self]
          exact ⟨Or.inl rfl, hvisit⟩
        · change (x.phases u).Fits _ _ ((x.issuer.put (some t) .idle).threads (some u))
          rw [Monitor.System.put_of_ne fun he => hut (Option.some.inj he)]
          exact hx.phases u
      · refine ⟨?_, _, hentry, rfl⟩
        rcases hsince with hidle | ⟨hsince, _⟩
        · cases hidle
        · exact hsince.trans hindex

theorem status_busy (request : Request) : (busy request).status ≠ 200 := by
  change 503 ≠ 200
  decide

theorem Tracks.step (hx : Tracks h rt C start x) {event : Event} (hallowed : event.Allowed C)
    (hstep : x.step h rt event = some x') : Tracks h rt C start x' := by
  cases step_effect hstep with
  | called hpermits hissuer => exact hx.called hallowed hpermits hissuer
  | @arrived t request hphase =>
      have hfits := hx.phases t
      rw [hphase] at hfits
      apply hx.put_same t (.arrived _) ⟨hfits, le_refl _, le_refl _, fun i s k _ hs hk => ?_⟩
      · rw [hphase]
        exact Iff.rfl
      · -- an answer rests on a call that has returned
        obtain ⟨hrests, _⟩ := hx.served s (List.mem_of_getElem? hs)
        simp only [Served.Rests, hk] at hrests
        obtain ⟨answer, ⟨_, e, he, _⟩, _⟩ := hrests
        exact (List.getElem?_eq_some_iff.mp he).1
  | @answered t visit response hphase hanswers =>
      have hfits := hx.phases t
      rw [hphase] at hfits
      apply hx.respond hfits.1 ?_ ?_ hfits.2
      · rw [hphase]
        exact Iff.rfl
      · exact fun hroute => status_of_answers hanswers hroute
  | @full t visit hphase hanswers hfull =>
      have hfits := hx.phases t
      rw [hphase] at hfits
      apply hx.respond hfits.1 ?_ ?_ hfits.2
      · rw [hphase]
        exact Iff.rfl
      · exact fun _ => status_busy _
  | @admitted t visit hphase hanswers hroom =>
      have hfits := hx.phases t
      rw [hphase] at hfits
      apply hx.put t (.calling visit) _ ⟨Or.inl hfits.1, hfits.2⟩
        (hx.slots.update_add ?_ trivial) hroom
      rw [hphase]
      exact id
  | @resumed t visit c since index answer issuer hphase hdone hleave =>
      obtain ⟨hleft, hidle, hvisit, hcalled⟩ := hx.left hphase hdone hleave
      rcases resumed_cases (h := h) { x with issuer := issuer } t visit index answer with
        ⟨response, hresumed, hresponse⟩ | ⟨hroute, hresumed⟩
      · rw [hresumed]
        apply hleft.respond hidle ?_ ?_ hvisit
        · simp only [hphase]
          exact Iff.rfl
        · exact ⟨answer, hcalled, hresponse⟩
      · rw [hresumed]
        apply hleft.put_same t (.checking visit index h.checks)
          ⟨hidle, hvisit, hroute, answer, hcalled⟩
        simp only [hphase]
        exact Iff.rfl
  | @passed t visit index check rest hphase =>
      have hfits := hx.phases t
      rw [hphase] at hfits
      apply hx.put_same t (.checking visit index rest) hfits
      rw [hphase]
      exact Iff.rfl
  | @failed t visit index check rest hphase err =>
      have hfits := hx.phases t
      rw [hphase] at hfits
      obtain ⟨hidle, hvisit, hroute, answer, hcalled⟩ := hfits
      apply hx.respond hidle ?_ ?_ hvisit
      · rw [hphase]
        exact Iff.rfl
      · exact ⟨answer, hcalled, fun hmanifest => by cases hroute.symm.trans hmanifest⟩
  | @readied t visit index outcome hphase =>
      have hfits := hx.phases t
      rw [hphase] at hfits
      obtain ⟨hidle, hvisit, hroute, answer, hcalled⟩ := hfits
      apply hx.respond hidle ?_ ?_ hvisit
      · rw [hphase]
        exact Iff.rfl
      · exact ⟨answer, hcalled, fun hmanifest => by cases hroute.symm.trans hmanifest⟩
  | @panicked t visit index check rest hphase =>
      have hfits := hx.phases t
      rw [hphase] at hfits
      apply hx.put_same t (.answered true) hfits.1
      rw [hphase]
      exact Iff.rfl
  | @released t hphase hpos =>
      have hfits := hx.phases t
      rw [hphase] at hfits
      apply hx.put t (.answered false) _ hfits (hx.slots.update_sub ?_ id)
        ((Nat.sub_le _ _).trans hx.capacity)
      rw [hphase]
      trivial
  | @finished t hphase =>
      have hfits := hx.phases t
      rw [hphase] at hfits
      apply hx.put_same t .idle hfits
      rw [hphase]
      exact Iff.rfl

inductive Reachable (h : Handler K) (rt : Runtime) (C : Catalog → Prop) (start : Issuer) :
    Server K → Prop where
  | initial : Reachable h rt C start (.initial start)
  | step {x x' : Server K} (event : Event) (hx : Reachable h rt C start x)
      (hallowed : event.Allowed C) (hstep : x.step h rt event = some x') :
      Reachable h rt C start x'

theorem Reachable.tracks (hx : Reachable h rt C start x) : Tracks h rt C start x := by
  induction hx with
  | initial => exact tracks_initial
  | step event _ hallowed hstep ih => exact ih.step hallowed hstep

/-- A thread in a call has a request that is between `acquire` and the return of `issue`. -/
theorem Tracks.calling_of_thread (hx : Tracks h rt C start x) {t : ℕ}
    (ht : x.issuer.threads (some t) ≠ .idle) :
    ∃ visit, x.phases t = .calling visit ∧ (x.issuer.threads (some t)).call? = some .issue := by
  have hfits := hx.phases t
  cases hphase : x.phases t with
  | calling visit =>
      simp only [hphase] at hfits
      exact ⟨visit, rfl, (hfits.1.resolve_left ht).2⟩
  | idle =>
      simp only [hphase] at hfits
      exact absurd hfits ht
  | answered slot =>
      simp only [hphase] at hfits
      exact absurd hfits ht
  | arrived visit =>
      simp only [hphase] at hfits
      exact absurd hfits.1 ht
  | checking visit index rest =>
      simp only [hphase] at hfits
      exact absurd hfits.1 ht

theorem Reachable.runs {events : List Event} (hx : Reachable h rt C start x)
    (hallowed : ∀ event ∈ events, event.Allowed C)
    (hrun : CloudHelp.runs (Server.step h rt) x events = some x') : Reachable h rt C start x' := by
  induction events generalizing x with
  | nil =>
      obtain rfl := Option.some.inj hrun
      exact hx
  | cons event events ih =>
      obtain ⟨mid, hmid, hrest⟩ := runs_cons.mp hrun
      exact ih (hx.step event (hallowed event List.mem_cons_self) hmid)
        (fun e he => hallowed e (List.mem_cons_of_mem _ he)) hrest

/-- The channel has as many elements as there are requests between `acquire` and `release`, and
never more than its capacity; whoever is in a call of the issuer for a request is one of them. A
request that asks for an element gets one or is told `busy`, the latter exactly if all are taken;
and `release` never blocks. -/
theorem slots_exact (hx : Reachable h rt C start x) :
    ∃ holders : Finset ℕ, (∀ t, t ∈ holders ↔ (x.phases t).Holds) ∧
      holders.card = x.inFlight ∧ holders.card ≤ h.capacity ∧
      (∀ t, x.issuer.threads (some t) ≠ .idle → t ∈ holders) ∧
      (∀ t visit x', x.phases t = .arrived visit → Handler.answers visit.request = none →
        x.step h rt (.acquire t) = some x' →
        (holders.card < h.capacity ↔ x'.phases t = .calling visit) ∧
        (holders.card = h.capacity ↔ x'.served = x.served ++ [⟨visit, none, busy visit.request⟩])) ∧
      ∀ t, x.phases t = .answered true → ∃ x', x.step h rt (.release t) = some x' := by
  have htracks := hx.tracks
  obtain ⟨holders, hmem, hcard⟩ := htracks.slots
  refine ⟨holders, hmem, hcard, hcard ▸ htracks.capacity, fun t ht => ?_,
    fun t visit x' hphase hanswers hstep => ?_, fun t hphase => ?_⟩
  · obtain ⟨visit, hphase, _⟩ := htracks.calling_of_thread ht
    rw [hmem, hphase]
    trivial
  · rw [hcard]
    cases step_effect hstep with
    | @answered _ visit' response hphase' hanswers' =>
        obtain rfl := Phase.arrived.inj (hphase.symm.trans hphase')
        cases hanswers.symm.trans hanswers'
    | @full _ visit' hphase' hanswers' hfull =>
        obtain rfl := Phase.arrived.inj (hphase.symm.trans hphase')
        have heq : x.inFlight = h.capacity := le_antisymm htracks.capacity hfull
        have hphases : (x.respond t ⟨visit, none, busy visit.request⟩ false).phases t =
            .answered false := Function.update_self ..
        refine ⟨⟨fun hlt => absurd heq hlt.ne, fun hcalling => ?_⟩, ⟨fun _ => rfl, fun _ => heq⟩⟩
        cases hphases.symm.trans hcalling
    | @admitted _ visit' hphase' hanswers' hroom =>
        obtain rfl := Phase.arrived.inj (hphase.symm.trans hphase')
        refine ⟨⟨fun _ => Function.update_self .., fun _ => hroom⟩,
          ⟨fun heq => absurd heq hroom.ne, fun hserved => ?_⟩⟩
        have hlength := congrArg List.length hserved
        rw [List.length_append, List.length_singleton] at hlength
        exact absurd hlength (Nat.lt_succ_self _).ne
  · have hpos : 0 < x.inFlight := htracks.slots.pos (t := t) (by rw [hphase]; trivial)
    simp only [Server.step, hphase, if_pos hpos]
    exact ⟨_, rfl⟩

/-- However the calls of `Issue` and `Close` wait for each other, they return what they would
return one after the other with the clock readings, catalogs and outcomes that each of them has had:
in the order in which they give the mutex back, which puts no call before one that had returned when
it was made. No `Issue` after a `Close` returns an envelope. -/
theorem calls_serial (hx : Reachable h rt C start x) :
    performs rt start (x.issuer.log.map fun e => .of e.call e.taken) =
      x.issuer.log.map Monitor.Entry.result ∧
    (∀ (k : ℕ) (e : Monitor.Entry (Option ℕ) Method Input Result), x.issuer.log[k]? = some e →
      e.since ≤ k) ∧
    x.issuer.log.Pairwise fun a b => a.call = .close → b.call = .issue →
      b.result = .issued (.error (.new "issuer: closed")) := by
  have hordered := hx.tracks.ordered
  obtain ⟨base, hserial, _⟩ := hordered.serial
  exact ⟨(performs_of_serial hserial).1, hordered.log, issues_after_close hserial⟩

namespace Sample

def single : Handler Unit := newHandler false 0 [none]

def get : Request := ⟨PilotAPI.methodGet, .manifest⟩

def crowded : List Event := [.arrive 0 get, .arrive 1 get, .acquire 0]

theorem runs_crowded (rt : Runtime) (start : Issuer) :
    ∃ x, runs (Server.step single rt) (.initial start) crowded = some x ∧ x.inFlight = 1 ∧
      x.phases 1 = .arrived ⟨get, 0, 0⟩ ∧ x.served = [] :=
  ⟨_, rfl, rfl, rfl, rfl⟩

theorem reachable_crowded {start : Issuer} {x : Server Unit}
    (hrun : runs (Server.step single rt) (.initial start) crowded = some x) :
    Reachable single rt C start x := by
  apply Reachable.initial.runs _ hrun
  simp [crowded, Event.Allowed]

def closing : List Event :=
  [.arrive 0 get, .acquire 0, .issuer (.call none .close), .issuer (.lock none),
    .issuer (.call (some 0) .issue), .issuer (.step none .proceed),
    .issuer (.step none (.unlocked (.ok ()))), .issuer (.unlock none), .issuer (.lock (some 0)),
    .issuer (.step (some 0) (.clock 0)), .issuer (.unlock (some 0))]

end Sample

theorem calls_serial_closing : ∃ x : Server Unit,
    runs (Server.step Sample.single .toy) (.initial (Service.Sample.running Service.Sample.hourly))
        Sample.closing = some x ∧
      performs .toy (Service.Sample.running Service.Sample.hourly)
        [.close (.ok ()), .issue ⟨0, .error .notExist, fun _ => .ok ()⟩] =
          x.issuer.log.map Monitor.Entry.result ∧
      x.issuer.log.Pairwise fun a b => a.call = .close → b.call = .issue →
        b.result = .issued (.error (.new "issuer: closed")) := by
  have hrun : (runs (Server.step Sample.single .toy)
      (.initial (Service.Sample.running Service.Sample.hourly)) Sample.closing).map
        (fun x => x.issuer.log.map fun e => (e.call, e.taken)) =
          some [(.close, [.proceed, .unlocked (.ok ())]), (.issue, [.clock 0])] := by
    decide +kernel
  obtain ⟨x, hx, hlog⟩ := Option.map_eq_some_iff.mp hrun
  have hallowed : ∀ event ∈ Sample.closing, event.Allowed Catalog.Utf8 := by
    simp [Sample.closing, Event.Allowed, Monitor.Action.Allowed, Input.Loads]
  obtain ⟨hoperations, _, hclosed⟩ := calls_serial (Reachable.initial.runs hallowed hx)
  refine ⟨x, hx, ?_, hclosed⟩
  have hcalls := congrArg (List.map fun call => Operation.of call.1 call.2) hlog
  rw [List.map_map] at hcalls
  rw [← hoperations]
  exact congrArg (performs .toy _) hcalls.symm

theorem slots_exact_crowded : ∃ x x' : Server Unit,
    runs (Server.step Sample.single .toy) (.initial (Service.Sample.running Service.Sample.hourly))
        Sample.crowded = some x ∧
      x.step Sample.single .toy (.acquire 1) = some x' ∧
      x'.served = [⟨⟨Sample.get, 0, 0⟩, none, busy Sample.get⟩] := by
  obtain ⟨x, hrun, hinFlight, hphase, hserved⟩ := Sample.runs_crowded .toy
    (Service.Sample.running Service.Sample.hourly)
  have hx : Reachable Sample.single .toy Catalog.Utf8 _ x := Sample.reachable_crowded hrun
  obtain ⟨holders, _, hcard, _, _, hacquire, _⟩ := slots_exact hx
  have hstep : x.step Sample.single .toy (.acquire 1) =
      some (x.respond 1 ⟨⟨Sample.get, 0, 0⟩, none, busy Sample.get⟩ false) := by
    simp only [Server.step, hphase, hinFlight]
    rfl
  refine ⟨x, _, hrun, hstep, ?_⟩
  have hbusy := (hacquire 1 _ _ hphase rfl hstep).2.mp (hcard.trans hinFlight)
  rw [hserved] at hbusy
  exact hbusy

end CloudHelp.ManifestAPI
