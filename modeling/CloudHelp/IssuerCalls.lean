import CloudHelp.IssuerInvariant
import CloudHelp.RoundTrip

/-!
# The calls of one issuer

An issuer answers one `Issue` after the other, with any clock readings, catalogs and save
outcomes. A call takes one of three courses (`issue_course`): it is served without a refresh, or
its refresh fails, or it publishes. `Kept` ties the cached envelope and its deadlines to the state
of the issuer and is kept by every course. The calls of a process among others, with crashes, are
such calls (`run_reached`).
-/

namespace CloudHelp.Service

open Manifest Issuance

/-- What one call of `Issue` meets: the clock, the catalog it loads, and how its save ends. -/
structure Request where
  clock : ℤ
  loaded : Except Error Catalog
  save : State → Except Error Unit

def Request.now (request : Request) : ℤ := Time.truncateSecond request.clock

structure Exchange where
  before : Issuer
  request : Request
  after : Issuer
  answer : Except Error Envelope

section Calls

variable (rt : Runtime)

def Issuer.answerTo (issuer : Issuer) (request : Request) : Issuer × Except Error Envelope :=
  issuer.issue rt request.clock request.loaded request.save

def exchange (issuer : Issuer) (request : Request) : Exchange :=
  ⟨issuer, request, (issuer.answerTo rt request).1, (issuer.answerTo rt request).2⟩

def exchanges : Issuer → List Request → List Exchange
  | _, [] => []
  | issuer, request :: rest =>
      exchange rt issuer request :: exchanges (exchange rt issuer request).after rest

end Calls

variable {rt : Runtime} {issuer : Issuer} {request : Request} {now : ℤ}

/-- What every call keeps holds before each of them. -/
theorem exchanges_invariant {P : Issuer → Prop} {requests : List Request}
    (hstep : ∀ issuer, ∀ request ∈ requests, P issuer → P (issuer.answerTo rt request).1)
    (h : P issuer) :
    ∀ x ∈ exchanges rt issuer requests,
      P x.before ∧ x.request ∈ requests ∧ x = exchange rt x.before x.request := by
  induction requests generalizing issuer with
  | nil => exact fun x hx => (List.not_mem_nil hx).elim
  | cons request rest ih =>
      intro x hx
      rcases List.mem_cons.mp hx with rfl | hx
      · exact ⟨h, List.mem_cons_self, rfl⟩
      · have hnext := hstep issuer request List.mem_cons_self h
        obtain ⟨hP, hmem, heq⟩ := ih
          (fun issuer r hr => hstep issuer r (List.mem_cons_of_mem _ hr)) hnext x hx
        exact ⟨hP, List.mem_cons_of_mem _ hmem, heq⟩

/-- What the first of two calls brings about and every call keeps holds before the second. -/
theorem exchanges_pairwise {P : Issuer → Prop} {Q : Exchange → Issuer → Prop}
    {requests : List Request}
    (hP : ∀ issuer, ∀ request ∈ requests, P issuer → P (issuer.answerTo rt request).1)
    (hfirst : ∀ issuer request, P issuer →
      Q (exchange rt issuer request) (issuer.answerTo rt request).1)
    (hstep : ∀ x issuer request, P issuer → Q x issuer → Q x (issuer.answerTo rt request).1)
    (h : P issuer) :
    (exchanges rt issuer requests).Pairwise fun x y => Q x y.before := by
  induction requests generalizing issuer with
  | nil => exact List.Pairwise.nil
  | cons request rest ih =>
      have hrest : ∀ issuer, ∀ r ∈ rest, P issuer → P (issuer.answerTo rt r).1 :=
        fun issuer r hr => hP issuer r (List.mem_cons_of_mem _ hr)
      have hnext := hP issuer request List.mem_cons_self h
      refine List.pairwise_cons.mpr ⟨fun y hy => ?_, ih hrest hnext⟩
      exact (exchanges_invariant (P := fun i => P i ∧ Q (exchange rt issuer request) i)
        (fun i r hr hi => ⟨hrest i r hr hi.1, hstep _ i r hi.1 hi.2⟩)
        ⟨hnext, hfirst issuer request h⟩ y hy).1.2

/-! ## What a call does -/

namespace Issuer

/-- The call refreshes, and the refresh gets to its end. -/
def Refreshes (rt : Runtime) (issuer : Issuer) (request : Request) : Prop :=
  issuer.serve request.now = none ∧ ∃ envelope next,
    issuer.plan rt request.now request.loaded = .ok (envelope, next) ∧ request.save next = .ok ()

inductive Course (rt : Runtime) (issuer : Issuer) (request : Request) :
    Issuer × Except Error Envelope → Prop where
  | served {answer : Except Error Envelope} (hserve : issuer.serve request.now = some answer) :
      Course rt issuer request (issuer, answer)
  | failed (e : Error) (hserve : issuer.serve request.now = none)
      (hfails : ¬issuer.Refreshes rt request) :
      Course rt issuer request (issuer.failed request.now e)
  | published {envelope : Envelope} {next : State} (hserve : issuer.serve request.now = none)
      (hplan : issuer.plan rt request.now request.loaded = .ok (envelope, next))
      (hsave : request.save next = .ok ()) :
      Course rt issuer request (issuer.published request.now envelope next)

theorem issue_course (issuer : Issuer) (request : Request) :
    Course rt issuer request (issuer.answerTo rt request) := by
  have hnow : Time.truncateSecond request.clock = request.now := rfl
  simp only [answerTo, issue, hnow]
  cases hserve : issuer.serve request.now with
  | some answer => exact .served hserve
  | none =>
      cases hplan : issuer.plan rt request.now request.loaded with
      | error e =>
          refine .failed e hserve ?_
          rintro ⟨_, envelope, next, hok, _⟩
          rw [hplan] at hok
          cases hok
      | ok found =>
          obtain ⟨envelope, next⟩ := found
          simp only
          cases hsave : request.save next with
          | ok u => exact .published hserve hplan hsave
          | error e =>
              refine .failed _ hserve ?_
              rintro ⟨_, envelope', next', hok, hsaved⟩
              obtain ⟨rfl, rfl⟩ := Prod.mk.inj (Except.ok.inj (hplan.symm.trans hok))
              rw [hsave] at hsaved
              cases hsaved

theorem answerTo_of_served {answer : Except Error Envelope}
    (h : issuer.serve request.now = some answer) :
    issuer.answerTo rt request = (issuer, answer) := by
  have hserve : issuer.serve (Time.truncateSecond request.clock) = some answer := h
  simp only [answerTo, issue, hserve]

theorem Refreshes.answerTo (h : issuer.Refreshes rt request) :
    ∃ envelope next, issuer.plan rt request.now request.loaded = .ok (envelope, next) ∧
      issuer.answerTo rt request = issuer.published request.now envelope next := by
  have hcourse : Course rt issuer request (issuer.answerTo rt request) :=
    issue_course issuer request
  generalize issuer.answerTo rt request = result at hcourse ⊢
  cases hcourse with
  | served hserve =>
      rw [h.1] at hserve
      cases hserve
  | failed e hserve hfails => exact absurd h hfails
  | published hserve hplan hsave => exact ⟨_, _, hplan, rfl⟩

def ClockOk (issuer : Issuer) (now : ℤ) : Prop :=
  issuer.state.lastVersion ≠ 0 → issuer.state.lastIssuedAt ≤ now

theorem clockOk_iff :
    issuer.ClockOk now ↔ ¬(0 < issuer.state.lastVersion ∧ now < issuer.state.lastIssuedAt) := by
  rw [not_and, not_lt, UInt64.pos_iff_ne_zero]
  exact Iff.rfl

/-- Everything `serve` says: what it refuses, when it hands out the cached envelope, and when not.
-/
theorem serve_cases (issuer : Issuer) (now : ℤ) :
    ((issuer.closed = true ∨ ¬issuer.ClockOk now) ∧ ∃ e, issuer.serve now = some (.error e)) ∨
    (issuer.closed = false ∧ issuer.ClockOk now ∧
      ((issuer.cached.payload ≠ [] ∧ (now < issuer.cacheUntil ∨ now < issuer.validUntil) ∧
          issuer.serve now = some (.ok issuer.cached)) ∨
        (¬(issuer.cached.payload ≠ [] ∧ now < issuer.validUntil) ∧
          ∃ e, issuer.serve now = some (.error e)) ∨
        (¬(issuer.cached.payload ≠ [] ∧ now < issuer.cacheUntil) ∧
          (∀ e, issuer.lastError = some e → issuer.retryAt ≤ now) ∧ issuer.serve now = none))) := by
  unfold serve
  by_cases hclosed : issuer.closed = true
  · rw [if_pos hclosed]
    exact Or.inl ⟨Or.inl hclosed, _, rfl⟩
  rw [if_neg hclosed]
  by_cases hclock : 0 < issuer.state.lastVersion ∧ now < issuer.state.lastIssuedAt
  · rw [if_pos hclock]
    exact Or.inl ⟨Or.inr fun hok => clockOk_iff.mp hok hclock, _, rfl⟩
  rw [if_neg hclock]
  refine Or.inr ⟨Bool.not_eq_true _ ▸ hclosed, clockOk_iff.mpr hclock, ?_⟩
  by_cases hcached : issuer.cached.payload ≠ [] ∧ now < issuer.cacheUntil
  · rw [if_pos hcached]
    exact Or.inl ⟨hcached.1, Or.inl hcached.2, rfl⟩
  rw [if_neg hcached]
  cases herror : issuer.lastError with
  | none => exact Or.inr (Or.inr ⟨hcached, fun e he => (by cases he), rfl⟩)
  | some e =>
      simp only
      by_cases hretry : now < issuer.retryAt
      · rw [if_pos hretry]
        by_cases hvalid : issuer.cached.payload ≠ [] ∧ now < issuer.validUntil
        · rw [if_pos hvalid]
          exact Or.inl ⟨hvalid.1, Or.inr hvalid.2, rfl⟩
        · rw [if_neg hvalid]
          exact Or.inr (Or.inl ⟨hvalid, e, rfl⟩)
      · rw [if_neg hretry]
        exact Or.inr (Or.inr ⟨hcached, fun _ _ => not_lt.mp hretry, rfl⟩)

theorem of_serve_ok {envelope : Envelope} (h : issuer.serve now = some (.ok envelope)) :
    envelope = issuer.cached ∧ issuer.cached.payload ≠ [] ∧ issuer.ClockOk now ∧
      (now < issuer.cacheUntil ∨ now < issuer.validUntil) := by
  rcases serve_cases issuer now with
    ⟨_, e, he⟩ | ⟨_, hclock, ⟨hcached, htime, hserve⟩ | ⟨_, e, he⟩ | ⟨_, _, hnone⟩⟩
  · cases h.symm.trans he
  · exact ⟨Except.ok.inj (Option.some.inj (h.symm.trans hserve)), hcached, hclock, htime⟩
  · cases h.symm.trans he
  · cases h.symm.trans hnone

theorem of_serve_none (h : issuer.serve now = none) :
    issuer.ClockOk now ∧ ¬(issuer.cached.payload ≠ [] ∧ now < issuer.cacheUntil) ∧
      ∀ e, issuer.lastError = some e → issuer.retryAt ≤ now := by
  rcases serve_cases issuer now with
    ⟨_, e, he⟩ | ⟨_, hclock, ⟨_, _, hserve⟩ | ⟨_, e, he⟩ | ⟨hcached, hretry, _⟩⟩
  · cases h.symm.trans he
  · cases h.symm.trans hserve
  · cases h.symm.trans he
  · exact ⟨hclock, hcached, hretry⟩

/-! ## What every call keeps -/

/-- The cached envelope is the publication the state records, with its deadlines. -/
structure Caches (rt : Runtime) (C : Catalog → Prop) (issuer : Issuer) : Prop where
  publishes : ∃ catalog, C catalog ∧
    Publication.Publishes rt ⟨issuer.options, catalog, issuer.state⟩ issuer.cached
  validUntil : issuer.validUntil = issuer.state.lastIssuedAt + issuer.ttl
  cacheUntil : issuer.cacheUntil ≤ issuer.validUntil

structure Kept (rt : Runtime) (C : Catalog → Prop) (options : IssuerOptions) (issuer : Issuer) :
    Prop where
  sound : issuer.Sound rt
  options : issuer.options = options
  ttl : Duration.minute ≤ issuer.ttl
  cacheFor : Duration.second ≤ issuer.cacheFor ∧ issuer.cacheFor ≤ issuer.ttl / 2
  notClosed : issuer.closed = false
  cached : issuer.cached.payload ≠ [] → issuer.Caches rt C

end Issuer

open Issuer

variable {C : Catalog → Prop} {options : IssuerOptions}

theorem newIssuer_kept {found : Option State} {save : State → Except Error Unit}
    (h : newIssuer rt options (.ok ()) (.ok found) save = .ok issuer) :
    issuer.Kept rt C options := by
  obtain ⟨hsound, hoptions, hcached, _⟩ := newIssuer_sound h
  obtain ⟨policyDigest, hchecked, hcases⟩ := newIssuer_eq_ok.mp h
  obtain ⟨_, _, ⟨httl, _⟩, hcacheFor⟩ := checkOptions_eq_ok.mp hchecked
  have hclosed : issuer.closed = false := by
    rcases hcases with ⟨_, hstart⟩ | ⟨_, _, _, hstart⟩
    all_goals
      obtain ⟨_, _, rfl⟩ := startIssuer_eq_ok.mp hstart
      rfl
  have hfields : issuer.ttl = options.ttl ∧ issuer.cacheFor = options.cacheFor :=
    ⟨congrArg IssuerOptions.ttl hoptions, congrArg IssuerOptions.cacheFor hoptions⟩
  exact ⟨hsound, hoptions, hfields.1 ▸ httl, hfields.1 ▸ hfields.2 ▸ hcacheFor, hclosed,
    fun hne => absurd hcached hne⟩

namespace Issuer.Kept

/-- A publication begins to count down from its own second. -/
theorem caches_published (hk : issuer.Kept rt C options) {envelope : Envelope} {next : State}
    (hC : ∀ catalog, request.loaded = .ok catalog → C catalog)
    (hplan : issuer.plan rt request.now request.loaded = .ok (envelope, next)) :
    next.lastIssuedAt = request.now ∧
      (issuer.published request.now envelope next).1.Caches rt C := by
  obtain ⟨catalog, hloaded, hpublishes⟩ := hk.sound.publishes hplan
  obtain ⟨_, _, _, _, _, _, hnext⟩ := plan_eq_ok.mp hplan
  have hissued : next.lastIssuedAt = request.now := by rw [← hnext]
  refine ⟨hissued, ⟨catalog, hC catalog hloaded, hpublishes⟩, ?_, ?_⟩
  · change request.now + issuer.ttl = next.lastIssuedAt + issuer.ttl
    rw [hissued]
  · change request.now + issuer.cacheFor ≤ request.now + issuer.ttl
    have httl : 0 ≤ issuer.ttl := le_trans (by decide) hk.ttl
    have hhalf := hk.cacheFor.2
    omega

/-- A failure moves the deadlines of the cache, not past the end of the envelope. -/
theorem withDeadlines (hk : issuer.Kept rt C options) (lastError : Option Error)
    (retryAt : ℤ) {cacheUntil : ℤ}
    (hcache : issuer.cached.payload ≠ [] → cacheUntil ≤ issuer.validUntil) :
    Issuer.Kept rt C options
      { issuer with lastError := lastError, retryAt := retryAt, cacheUntil := cacheUntil } where
  sound := hk.sound.withDeadlines _ _ _
  options := hk.options
  ttl := hk.ttl
  cacheFor := hk.cacheFor
  notClosed := hk.notClosed
  cached := fun hne =>
    ⟨(hk.cached hne).publishes, (hk.cached hne).validUntil, hcache hne⟩

theorem failed (hk : issuer.Kept rt C options) (now : ℤ) (e : Error) :
    (issuer.failed now e).1.Kept rt C options := by
  unfold Issuer.failed
  by_cases hcached : issuer.cached.payload ≠ [] ∧ now < issuer.validUntil
  · rw [if_pos hcached]
    exact hk.withDeadlines _ _ fun _ => min_le_right _ _
  · rw [if_neg hcached]
    exact hk.withDeadlines _ _ fun hne => (hk.cached hne).cacheUntil

theorem answerTo (hk : issuer.Kept rt C options)
    (hC : ∀ catalog, request.loaded = .ok catalog → C catalog) :
    (issuer.answerTo rt request).1.Kept rt C options := by
  have hcourse : Course rt issuer request (issuer.answerTo rt request) :=
    issue_course issuer request
  generalize issuer.answerTo rt request = result at hcourse ⊢
  cases hcourse with
  | served hserve => exact hk
  | failed e hserve hfails => exact hk.failed _ e
  | published hserve hplan hsave =>
      exact ⟨hk.sound.of_published hplan, hk.options, hk.ttl, hk.cacheFor, hk.notClosed,
        fun _ => (hk.caches_published hC hplan).2⟩

end Issuer.Kept

/-- Every call of a run finds the issuer as `NewIssuer` and the calls before keep it. -/
theorem exchanges_kept {found : Option State} {save : State → Except Error Unit}
    {requests : List Request}
    (hstart : newIssuer rt options (.ok ()) (.ok found) save = .ok issuer)
    (hC : ∀ request ∈ requests, ∀ catalog, request.loaded = .ok catalog → C catalog) :
    ∀ x ∈ exchanges rt issuer requests, x.before.Kept rt C options ∧ x.request ∈ requests ∧
      x = exchange rt x.before x.request :=
  exchanges_invariant (fun _ request hr hk => hk.answerTo (hC request hr)) (newIssuer_kept hstart)

/-! ## The calls of a process -/

def Issuer.afterCalls (rt : Runtime) (issuer : Issuer) (requests : List Request) : Issuer :=
  requests.foldl (fun issuer request => (issuer.answerTo rt request).1) issuer

def Issuer.Reached (rt : Runtime) (issuer : Issuer) : Prop :=
  ∃ options found save start requests, newIssuer rt options (.ok ()) (.ok found) save = .ok start ∧
    start.afterCalls rt requests = issuer

theorem Issuer.Reached.answerTo (h : issuer.Reached rt) (request : Request) :
    (issuer.answerTo rt request).1.Reached rt := by
  obtain ⟨options, found, save, start, requests, hstart, rfl⟩ := h
  refine ⟨options, found, save, start, requests ++ [request], hstart, ?_⟩
  rw [afterCalls, List.foldl_append]
  rfl

def Process.Reached (rt : Runtime) : Process → Prop
  | .ready issuer => issuer.closed = true ∨ issuer.Reached rt
  | .saving issuer _ _ _ _ => issuer.Reached rt
  | _ => True

theorem reached_update {s s' : System} {p : ℕ} (hs : ∀ q, (s.procs q).Reached rt)
    (process : Process) (hprocs : s'.procs = Function.update s.procs p process)
    (hprocess : process.Reached rt) (q : ℕ) : (s'.procs q).Reached rt :=
  forall_procs_update (R := fun _ process => process.Reached rt) (fun q _ => hs q) hprocs hprocess q

theorem reached_startReturns {s : System} {p : ℕ} (hs : ∀ q, (s.procs q).Reached rt)
    (options : IssuerOptions) (found : Option State) (save : State → Except Error Unit) (q : ℕ) :
    ((s.startReturns p (newIssuer rt options (.ok ()) (.ok found) save)).procs q).Reached rt := by
  cases hnew : newIssuer rt options (.ok ()) (.ok found) save with
  | error e => exact reached_update hs .idle rfl trivial q
  | ok issuer =>
      exact reached_update hs (.ready issuer) rfl
        (Or.inr ⟨options, found, save, issuer, [], hnew, rfl⟩) q

theorem reached_issue {s : System} {p : ℕ} (hs : ∀ q, (s.procs q).Reached rt)
    (hissuer : issuer.closed = true ∨ issuer.Reached rt) (clock : ℤ)
    (loaded : Except Error Catalog) (save : State → Except Error Unit) (q : ℕ) :
    ((s.issueReturns p (issuer.issue rt clock loaded save)).procs q).Reached rt := by
  apply reached_update hs (.ready _) rfl
  rcases hissuer with hclosed | hreached
  · left
    simp only [Issuer.issue, serve_closed _ hclosed]
    exact hclosed
  · right
    exact hreached.answerTo ⟨clock, loaded, save⟩

theorem step_reached {path : Bytes} {s s' : System} {action : Action}
    (hs : ∀ q, (s.procs q).Reached rt) (h : step rt path s action = some s') (q : ℕ) :
    (s'.procs q).Reached rt := by
  have hproc : ∀ {p process}, s.procs p = process → process.Reached rt := fun h => h ▸ hs _
  cases step_effect h with
  | refused p options answers => exact hs q
  | acquired hoptions hfree => exact reached_update hs (.locked _ _) rfl trivial q
  | notLoaded hp e => exact reached_update hs .idle rfl trivial q
  | started hp hfits hload save => exact reached_startReturns hs _ _ save q
  | migrates hp hfits hload hmigrate =>
      exact reached_update hs (.migrating _ _ _ _) rfl trivial q
  | migrationStopped hp outcome save => exact reached_startReturns hs _ _ save q
  | migrated hp outcome disk save =>
      exact reached_startReturns (s := { s with disk := disk }) hs _ _ save q
  | migrating hp outcome disk rest =>
      exact reached_update hs (.migrating _ _ _ _) rfl trivial q
  | saveStopped hp outcome e => exact reached_issue hs (Or.inr (hproc hp)) _ _ _ q
  | @saved _ _ _ _ _ _ disk hp hperform outcome =>
      exact reached_issue (s := { s with disk := disk }) hs (Or.inr (hproc hp)) _ _ _ q
  | saving hp hperform outcome =>
      have hissuer := hproc hp
      apply reached_update hs (.saving _ _ _ _ _) rfl
      exact hissuer
  | answered hp hpending => exact reached_issue hs (hproc hp) _ _ _ q
  | unsaved hp hpending e => exact reached_issue hs (hproc hp) _ _ _ q
  | saves hp hpending hsave =>
      have hissuer := (hproc hp).resolve_left (not_closed_of_pending hpending)
      exact reached_update hs (.saving _ _ _ _ _) rfl hissuer q
  | closed hp => exact reached_update hs (.ready _) rfl (Or.inl (closed_close _)) q
  | crashed p => exact reached_update hs .idle rfl trivial q
  | lostPower hc => exact trivial

/-- In a system of processes, an issuer that is not closed comes from a start and from calls,
whatever the other processes do. -/
theorem run_reached {path : Bytes} {content : Option Bytes} {actions : List Action} {s : System}
    (h : run rt path (.initial content) actions = some s) (p : ℕ) : (s.procs p).Reached rt := by
  have hinitial : ∀ q, ((System.initial content).procs q).Reached rt := fun _ => trivial
  exact runs_invariant (P := fun s => ∀ q, (s.procs q).Reached rt)
    (fun _ _ _ _ hs hstep => step_reached hs hstep) hinitial h p

end CloudHelp.Service
