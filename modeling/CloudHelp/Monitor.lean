import CloudHelp.Runs

/-!
# Calls behind one lock

A monitor is a shared state whose methods run behind one lock. The body of a method is a machine: it
reads and writes the shared state step by step, and takes as an input what it needs from elsewhere
(`A` says which inputs there can be).
Any number of threads call the methods; the steps of their bodies, their waiting for the lock and
what they do after it interleave in any way.

`Serial` is the sequential reading: the calls one after the other, each run alone from beginning to
end. The calls of every run, in the order in which they gave the lock back, are such a sequence, and
none of them comes before a call that had returned when it was made (`Ordered`).
-/

namespace CloudHelp

/-- `S` are the shared states, `L` the places in bodies, `C` the calls, `I` the inputs and `R` the
results. -/
structure Monitor (S L C I R : Type) where
  /-- where the body of a call begins -/
  enter : C → L
  /-- one step of a body, which goes on or has its result; `none` for an input of another kind -/
  step : S → L → I → Option (S × (L ⊕ R))

namespace Monitor

variable {T S L C I R : Type}

/-! ## Calls run alone -/

section Alone

variable (m : Monitor S L C I R) (A : I → Prop)

inductive Advances (s : S) (l : L) : List I → S → L → Prop where
  | refl : Advances s l [] s l
  | step {taken : List I} {s' s'' : S} {l' l'' : L} {i : I} (h : Advances s l taken s' l')
      (hi : A i)
      (hstep : m.step s' l' i = some (s'', .inl l'')) : Advances s l (taken ++ [i]) s'' l''

inductive Executes (s : S) (c : C) : List I → S → R → Prop where
  | intro {taken : List I} {mid s' : S} {l : L} {i : I} {r : R}
      (h : m.Advances A s (m.enter c) taken mid l) (hi : A i)
      (hstep : m.step mid l i = some (s', .inr r)) : Executes s c (taken ++ [i]) s' r

end Alone

/-- A call that has returned. `since` is the number of calls that had returned when it was made, and
`taken` are the inputs it has had. -/
structure Entry (T C I R : Type) where
  thread : T
  call : C
  since : ℕ
  taken : List I
  result : R

inductive Serial (m : Monitor S L C I R) (A : I → Prop) (start : S) :
    List (Entry T C I R) → S → Prop where
  | nil : Serial m A start [] start
  | next {log : List (Entry T C I R)} {s s' : S} {e : Entry T C I R} (h : Serial m A start log s)
      (hcall : m.Executes A s e.call e.taken s' e.result) : Serial m A start (log ++ [e]) s'

variable {m : Monitor S L C I R} {A : I → Prop} {start : S} {log : List (Entry T C I R)} {s : S}

/-- What every call keeps. -/
theorem Serial.invariant {P : S → Prop}
    (hstep : ∀ s c taken s' r, P s → m.Executes A s c taken s' r → P s') (hstart : P start)
    (h : m.Serial A start log s) : P s := by
  induction h with
  | nil => exact hstart
  | next h hcall ih => exact hstep _ _ _ _ _ ih hcall

/-- What a call brings about and every call keeps holds at each later call. -/
theorem Serial.pairwise {P : S → Prop} {Q : Entry T C I R → S → Prop}
    {G : Entry T C I R → Entry T C I R → Prop}
    (hP : ∀ s c taken s' r, P s → m.Executes A s c taken s' r → P s')
    (hfirst : ∀ s (e : Entry T C I R) s', P s → m.Executes A s e.call e.taken s' e.result → Q e s')
    (hkeep : ∀ e s c taken s' r, P s → Q e s → m.Executes A s c taken s' r → Q e s')
    (hrel : ∀ e s (e' : Entry T C I R) s', P s → Q e s →
      m.Executes A s e'.call e'.taken s' e'.result → G e e')
    (hstart : P start) (h : m.Serial A start log s) :
    (∀ e ∈ log, Q e s) ∧ log.Pairwise G := by
  induction h with
  | nil => exact ⟨fun _ he => absurd he List.not_mem_nil, List.Pairwise.nil⟩
  | @next log s s' e h hcall ih =>
      have hs : P s := h.invariant hP hstart
      refine ⟨fun e' he' => ?_, ?_⟩
      · rcases List.mem_append.mp he' with he' | he'
        · exact hkeep e' s e.call e.taken s' e.result hs (ih.1 e' he') hcall
        · rw [List.mem_singleton.mp he']
          exact hfirst s e s' hs hcall
      · apply List.pairwise_append.mpr
        refine ⟨ih.2, List.pairwise_singleton _ _, fun e' he' e'' he'' => ?_⟩
        rw [List.mem_singleton.mp he'']
        exact hrel e' s e s' hs (ih.1 e' he') hcall

/-- What holds of each call when it is made from a state with the invariant. -/
theorem Serial.forall_mem {P : S → Prop} {Q : Entry T C I R → Prop}
    (hP : ∀ s c taken s' r, P s → m.Executes A s c taken s' r → P s')
    (hfirst : ∀ s (e : Entry T C I R) s', P s → m.Executes A s e.call e.taken s' e.result → Q e)
    (hstart : P start) (h : m.Serial A start log s) : ∀ e ∈ log, Q e :=
  (h.pairwise (Q := fun e _ => Q e) (G := fun _ _ => True) hP hfirst
    (fun _ _ _ _ _ _ _ hQ _ => hQ) (fun _ _ _ _ _ _ _ => trivial) hstart).1

/-! ## Threads -/

inductive Thread (L C I R : Type) where
  | idle
  | waiting (c : C) (since : ℕ)
  /-- has the lock -/
  | inside (c : C) (since : ℕ) (taken : List I) (l : L)
  /-- has its result, and still the lock -/
  | leaving (c : C) (since : ℕ) (taken : List I) (r : R)
  /-- has given the lock back; `index` is the place of the call among those that have -/
  | done (c : C) (since : ℕ) (r : R) (index : ℕ)

def Thread.Holds : Thread L C I R → Prop
  | .inside _ _ _ _ | .leaving _ _ _ _ => True
  | _ => False

def Thread.since : Thread L C I R → ℕ
  | .idle => 0
  | .waiting _ since | .inside _ since _ _ | .leaving _ since _ _ | .done _ since _ _ => since

def Thread.call? : Thread L C I R → Option C
  | .idle => none
  | .waiting c _ | .inside c _ _ _ | .leaving c _ _ _ | .done c _ _ _ => some c

structure System (T S L C I R : Type) where
  shared : S
  owner : Option T
  threads : T → Thread L C I R
  log : List (Entry T C I R)

def System.initial (start : S) : System T S L C I R := ⟨start, none, fun _ => .idle, []⟩

inductive Action (T C I : Type) where
  | call (t : T) (c : C)
  | lock (t : T)
  | step (t : T) (i : I)
  | unlock (t : T)
  | leave (t : T)

section Steps

variable [DecidableEq T]

def System.put (x : System T S L C I R) (t : T) (thread : Thread L C I R) : System T S L C I R :=
  { x with threads := Function.update x.threads t thread }

@[simp] theorem System.put_self (x : System T S L C I R) (t : T) (thread : Thread L C I R) :
    (x.put t thread).threads t = thread := Function.update_self ..

theorem System.put_of_ne {t u : T} (h : u ≠ t) (x : System T S L C I R) (thread : Thread L C I R) :
    (x.put t thread).threads u = x.threads u := Function.update_of_ne h ..

def System.goOn (m : Monitor S L C I R) (x : System T S L C I R) (t : T) (c : C) (since : ℕ)
    (taken : List I) (l : L) (i : I) : Option (System T S L C I R) :=
  match m.step x.shared l i with
  | none => none
  | some (s, .inl l') => some { x.put t (.inside c since (taken ++ [i]) l') with shared := s }
  | some (s, .inr r) => some { x.put t (.leaving c since (taken ++ [i]) r) with shared := s }

def System.step (m : Monitor S L C I R) (x : System T S L C I R) :
    Action T C I → Option (System T S L C I R)
  | .call t c =>
      match x.threads t with
      | .idle => some (x.put t (.waiting c x.log.length))
      | _ => none
  | .lock t =>
      match x.threads t, x.owner with
      | .waiting c since, none =>
          some { x.put t (.inside c since [] (m.enter c)) with owner := some t }
      | _, _ => none
  | .step t i =>
      match x.threads t with
      | .inside c since taken l => x.goOn m t c since taken l i
      | _ => none
  | .unlock t =>
      match x.threads t with
      | .leaving c since taken r =>
          some { x.put t (.done c since r x.log.length) with
            owner := none
            log := x.log ++ [⟨t, c, since, taken, r⟩] }
      | _ => none
  | .leave t =>
      match x.threads t with
      | .done _ _ _ _ => some (x.put t .idle)
      | _ => none

inductive Effect (m : Monitor S L C I R) (x : System T S L C I R) :
    Action T C I → System T S L C I R → Prop where
  | called {t : T} (c : C) (hthread : x.threads t = .idle) :
      Effect m x (.call t c) (x.put t (.waiting c x.log.length))
  | locked {t : T} {c : C} {since : ℕ} (hthread : x.threads t = .waiting c since)
      (hfree : x.owner = none) :
      Effect m x (.lock t) { x.put t (.inside c since [] (m.enter c)) with owner := some t }
  | wentOn {t : T} {c : C} {since : ℕ} {taken : List I} {l l' : L} {i : I} {s : S}
      (hthread : x.threads t = .inside c since taken l)
      (hstep : m.step x.shared l i = some (s, .inl l')) :
      Effect m x (.step t i) { x.put t (.inside c since (taken ++ [i]) l') with shared := s }
  | returned {t : T} {c : C} {since : ℕ} {taken : List I} {l : L} {i : I} {s : S} {r : R}
      (hthread : x.threads t = .inside c since taken l)
      (hstep : m.step x.shared l i = some (s, .inr r)) :
      Effect m x (.step t i) { x.put t (.leaving c since (taken ++ [i]) r) with shared := s }
  | unlocked {t : T} {c : C} {since : ℕ} {taken : List I} {r : R}
      (hthread : x.threads t = .leaving c since taken r) :
      Effect m x (.unlock t)
        { x.put t (.done c since r x.log.length) with
          owner := none
          log := x.log ++ [⟨t, c, since, taken, r⟩] }
  | left {t : T} {c : C} {since : ℕ} {r : R} {index : ℕ}
      (hthread : x.threads t = .done c since r index) : Effect m x (.leave t) (x.put t .idle)

variable {x x' : System T S L C I R} {action : Action T C I}

theorem step_effect (h : x.step m action = some x') : Effect m x action x' := by
  cases action with
  | call t c =>
      cases hthread : x.threads t with
      | idle =>
          simp only [System.step, hthread] at h
          obtain rfl := Option.some.inj h
          exact .called c hthread
      | _ => simp [System.step, hthread] at h
  | lock t =>
      cases hthread : x.threads t with
      | waiting c since =>
          cases hfree : x.owner with
          | none =>
              simp only [System.step, hthread, hfree] at h
              obtain rfl := Option.some.inj h
              exact .locked hthread hfree
          | some u => simp [System.step, hthread, hfree] at h
      | _ => simp [System.step, hthread] at h
  | step t i =>
      cases hthread : x.threads t with
      | inside c since taken l =>
          simp only [System.step, hthread, System.goOn] at h
          cases hstep : m.step x.shared l i with
          | none => simp [hstep] at h
          | some next =>
              obtain ⟨s, l' | r⟩ := next
              · simp only [hstep] at h
                obtain rfl := Option.some.inj h
                exact .wentOn hthread hstep
              · simp only [hstep] at h
                obtain rfl := Option.some.inj h
                exact .returned hthread hstep
      | _ => simp [System.step, hthread] at h
  | unlock t =>
      cases hthread : x.threads t with
      | leaving c since taken r =>
          simp only [System.step, hthread] at h
          obtain rfl := Option.some.inj h
          exact .unlocked hthread
      | _ => simp [System.step, hthread] at h
  | leave t =>
      cases hthread : x.threads t with
      | done c since r index =>
          simp only [System.step, hthread] at h
          obtain rfl := Option.some.inj h
          exact .left hthread
      | _ => simp [System.step, hthread] at h

def Action.thread : Action T C I → T
  | .call t _ | .lock t | .step t _ | .unlock t | .leave t => t

theorem threads_of_ne (h : x.step m action = some x') {u : T} (hu : u ≠ action.thread) :
    x'.threads u = x.threads u := by
  cases step_effect h with
  | _ => exact System.put_of_ne hu x _

theorem log_mono (h : x.step m action = some x') : x.log <+: x'.log := by
  cases step_effect h with
  | unlocked hthread => exact List.prefix_append _ _
  | _ => exact List.prefix_refl _

/-- A thread that does not leave makes its call, or goes on with the one it has made. -/
theorem thread_step (h : x.step m action = some x') (hleave : action ≠ .leave action.thread) :
    (∃ c, action = .call action.thread c ∧ x.threads action.thread = .idle ∧
        x'.threads action.thread = .waiting c x.log.length) ∨
      (x'.threads action.thread).call? = (x.threads action.thread).call? ∧
        (x'.threads action.thread).since = (x.threads action.thread).since ∧
        x.threads action.thread ≠ .idle := by
  cases step_effect h with
  | called c hidle => exact Or.inl ⟨c, rfl, hidle, System.put_self ..⟩
  | locked hwaiting hfree => simp [Action.thread, hwaiting, Thread.since, Thread.call?]
  | wentOn hinside hstep => simp [Action.thread, hinside, Thread.since, Thread.call?]
  | returned hinside hstep => simp [Action.thread, hinside, Thread.since, Thread.call?]
  | unlocked hleaving => simp [Action.thread, hleaving, Thread.since, Thread.call?]
  | left hdone => exact absurd rfl hleave

/-! ## Every run is serial -/

/-- What the thread with the lock has made of the state the lock was taken in. -/
def Thread.Progress (m : Monitor S L C I R) (A : I → Prop) (base shared : S) : Thread L C I R → Prop
  | .inside c _ taken l => m.Advances A base (m.enter c) taken shared l
  | .leaving c _ taken r => m.Executes A base c taken shared r
  | _ => True

/-- A thread in a system with the given owner of the lock and the given log. -/
structure Thread.Fits (owner : Option T) (log : List (Entry T C I R)) (t : T)
    (thread : Thread L C I R) : Prop where
  /-- the lock is with the one thread that is in a body -/
  owner : thread.Holds ↔ owner = some t
  since : thread.since ≤ log.length
  /-- the thread has the result of its own call -/
  done : ∀ c since r index, thread = .done c since r index →
    since ≤ index ∧ ∃ taken, log[index]? = some ⟨t, c, since, taken, r⟩

/-- The calls that have returned are a sequence of calls run alone, and each of them comes after all
that had returned when it was made. -/
structure Ordered (m : Monitor S L C I R) (A : I → Prop) (start : S)
    (x : System T S L C I R) : Prop where
  threads : ∀ t, (x.threads t).Fits x.owner x.log t
  serial : ∃ base, m.Serial A start x.log base ∧ (x.owner = none → base = x.shared) ∧
    ∀ t, x.owner = some t → (x.threads t).Progress m A base x.shared
  log : ∀ (k : ℕ) (e : Entry T C I R), x.log[k]? = some e → e.since ≤ k

omit [DecidableEq T] in
theorem ordered_initial : Ordered m A start (System.initial start : System T S L C I R) where
  threads := fun t =>
    { owner := ⟨fun h => h.elim, fun h => by cases h⟩
      since := Nat.zero_le _
      done := fun c since r index h => by cases h }
  serial := ⟨start, .nil, fun _ => rfl, fun t ht => by cases ht⟩
  log := fun k e h => by cases h

omit [DecidableEq T] in
/-- Another thread may take the lock or give it back. -/
theorem Thread.Fits.mono {owner owner' : Option T} {log' : List (Entry T C I R)} {t : T}
    {thread : Thread L C I R} (h : thread.Fits owner log t)
    (howner : owner' = some t ↔ owner = some t) (hlog : log <+: log') :
    thread.Fits owner' log' t where
  owner := h.owner.trans howner.symm
  since := h.since.trans hlog.length_le
  done := by
    intro c since r index hthread
    obtain ⟨hsince, taken, hentry⟩ := h.done c since r index hthread
    obtain ⟨rest, rfl⟩ := hlog
    obtain ⟨hindex, _⟩ := List.getElem?_eq_some_iff.mp hentry
    exact ⟨hsince, taken, (List.getElem?_append_left hindex).trans hentry⟩

/-- One thread moves on; the others do not see it. -/
theorem fits_put {t : T} {thread : Thread L C I R} {owner' : Option T} {log' : List (Entry T C I R)}
    (h : ∀ u, (x.threads u).Fits x.owner x.log u) (ht : thread.Fits owner' log' t)
    (howner : ∀ u, u ≠ t → (owner' = some u ↔ x.owner = some u)) (hlog : x.log <+: log') :
    ∀ u, ((x.put t thread).threads u).Fits owner' log' u := by
  apply (Function.forall_update_iff x.threads fun u thread => thread.Fits owner' log' u).mpr
  exact ⟨ht, fun u hut => (h u).mono (howner u hut) hlog⟩

/-- A thread without the lock moves on. -/
theorem progress_put {t : T} {thread : Thread L C I R} {base : S}
    (h : ∀ u, x.owner = some u → (x.threads u).Progress m A base x.shared) (hnot : x.owner ≠ some t)
    (u : T) (hu : x.owner = some u) : ((x.put t thread).threads u).Progress m A base x.shared := by
  have hut : u ≠ t := fun hut => hnot (hut ▸ hu)
  rw [System.put_of_ne hut]
  exact h u hu

/-- The thread with the lock moves on. -/
theorem progress_put_self {t : T} {thread : Thread L C I R} {owner : Option T} {base shared : S}
    (howner : owner = some t) (ht : thread.Progress m A base shared) (u : T) (hu : owner = some u) :
    ((x.put t thread).threads u).Progress m A base shared := by
  obtain rfl := Option.some.inj (howner.symm.trans hu)
  rw [System.put_self]
  exact ht

def Action.Allowed (A : I → Prop) : Action T C I → Prop
  | .step _ i => A i
  | _ => True

/-- A thread outside of its body moves on. -/
theorem Ordered.outside (h : Ordered m A start x) {t : T} {thread : Thread L C I R}
    (hnot : ¬(x.threads t).Holds) (ht : thread.Fits x.owner x.log t) :
    Ordered m A start (x.put t thread) := by
  obtain ⟨base, hserial, hfree, hprogress⟩ := h.serial
  have howner : x.owner ≠ some t := fun howner => hnot ((h.threads t).owner.mpr howner)
  exact ⟨fits_put h.threads ht (fun _ _ => Iff.rfl) (List.prefix_refl _),
    ⟨base, hserial, hfree, progress_put hprogress howner⟩, h.log⟩

/-- The thread with the lock goes on in its body or gets to the end of it. -/
theorem Ordered.inside (h : Ordered m A start x) {t : T} {thread : Thread L C I R} {s : S}
    (hholds : (x.threads t).Holds) (ht : thread.Fits x.owner x.log t)
    (hgoes : ∀ base, (x.threads t).Progress m A base x.shared → thread.Progress m A base s) :
    Ordered m A start { x.put t thread with shared := s } := by
  obtain ⟨base, hserial, _, hprogress⟩ := h.serial
  have howner : x.owner = some t := (h.threads t).owner.mp hholds
  refine ⟨fits_put h.threads ht (fun _ _ => Iff.rfl) (List.prefix_refl _),
    ⟨base, hserial, fun hnone => ?_, ?_⟩, h.log⟩
  · cases howner.symm.trans hnone
  · exact progress_put_self howner (hgoes base (hprogress t howner))

theorem Ordered.step (h : Ordered m A start x) (ha : action.Allowed A)
    (hstep : x.step m action = some x') : Ordered m A start x' := by
  cases step_effect hstep with
  | @called t c hthread =>
      have hfits := h.threads t
      rw [hthread] at hfits
      refine h.outside ?_ ⟨hfits.owner, le_refl _, fun _ _ _ _ hdone => by cases hdone⟩
      simp [hthread, Thread.Holds]
  | @locked t c since hthread hnone =>
      obtain ⟨base, hserial, hfree, _⟩ := h.serial
      have hfits := h.threads t
      rw [hthread] at hfits
      refine ⟨fits_put h.threads ?_ (fun u hut => ?_) (List.prefix_refl _),
        ⟨x.shared, hfree hnone ▸ hserial, fun hsome => ?_, ?_⟩, h.log⟩
      · exact ⟨⟨fun _ => rfl, fun _ => trivial⟩, hfits.since, fun _ _ _ _ hdone => by cases hdone⟩
      · simp [hnone, hut.symm]
      · cases hsome
      · exact progress_put_self rfl .refl
  | @wentOn t c since taken l l' i s hthread hbody =>
      have hfits := h.threads t
      rw [hthread] at hfits
      refine h.inside ?_ ⟨hfits.owner, hfits.since, fun _ _ _ _ hdone => by cases hdone⟩ ?_
      · simp [hthread, Thread.Holds]
      · rw [hthread]
        exact fun base hinside => .step hinside ha hbody
  | @returned t c since taken l i s r hthread hbody =>
      have hfits := h.threads t
      rw [hthread] at hfits
      refine h.inside ?_ ⟨hfits.owner, hfits.since, fun _ _ _ _ hdone => by cases hdone⟩ ?_
      · simp [hthread, Thread.Holds]
      · rw [hthread]
        exact fun base hinside => .intro hinside ha hbody
  | @unlocked t c since taken r hthread =>
      obtain ⟨base, hserial, _, hprogress⟩ := h.serial
      have hfits := h.threads t
      rw [hthread] at hfits
      have howner : x.owner = some t := hfits.owner.mp trivial
      have hcall := hprogress t howner
      rw [hthread] at hcall
      have hsince : since ≤ x.log.length := hfits.since
      refine ⟨fits_put h.threads ?_ (fun u hut => ?_) (List.prefix_append _ _),
        ⟨x.shared, .next hserial hcall, fun _ => rfl, fun u hu => ?_⟩, fun k e he => ?_⟩
      · refine ⟨⟨fun hholds => hholds.elim, fun hnone => by cases hnone⟩, ?_,
          fun c' since' r' index hdone => ?_⟩
        · rw [List.length_append]
          exact Nat.le_add_right_of_le hsince
        · cases hdone
          exact ⟨hsince, taken, List.getElem?_concat_length⟩
      · simp [howner, hut.symm]
      · cases hu
      · by_cases hk : k < x.log.length
        · rw [List.getElem?_append_left hk] at he
          exact h.log k e he
        · rw [List.getElem?_append_right (not_lt.mp hk)] at he
          rw [List.mem_singleton.mp (List.mem_of_getElem? he)]
          exact hsince.trans (not_lt.mp hk)
  | @left t c since r index hthread =>
      have hfits := h.threads t
      rw [hthread] at hfits
      refine h.outside ?_ ⟨hfits.owner, Nat.zero_le _, fun _ _ _ _ hdone => by cases hdone⟩
      simp [hthread, Thread.Holds]

def Thread.Pending : Thread L C I R → Prop
  | .waiting _ _ | .inside _ _ _ _ | .leaving _ _ _ _ => True
  | _ => False

/-- Calls do not lock each other out: if bodies can always go on, then so can a thread that waits
for the lock, or the thread that has it. -/
theorem Ordered.progress (h : Ordered m A start x)
    (hbody : ∀ s l, ∃ i next, A i ∧ m.step s l i = some next) {t : T}
    (ht : (x.threads t).Pending) :
    ∃ action : Action T C I, (x.threads action.thread).Pending ∧ action ≠ .leave action.thread ∧
      action.Allowed A ∧ ∃ x', x.step m action = some x' := by
  -- a thread with the lock can go on
  have hholds : ∀ u, (x.threads u).Holds → ∃ action : Action T C I,
      (x.threads action.thread).Pending ∧ action ≠ .leave action.thread ∧ action.Allowed A ∧
        ∃ x', x.step m action = some x' := by
    intro u hu
    cases hthread : x.threads u with
    | inside c since taken l =>
        obtain ⟨i, ⟨s, next⟩, hi, hstep⟩ := hbody x.shared l
        refine ⟨.step u i, ?_, nofun, hi, ?_⟩
        · simp [Action.thread, hthread, Thread.Pending]
        · cases next with
          | inl l' => exact ⟨_, by simp only [System.step, hthread, System.goOn, hstep]; rfl⟩
          | inr r => exact ⟨_, by simp only [System.step, hthread, System.goOn, hstep]; rfl⟩
    | leaving c since taken r =>
        refine ⟨.unlock u, ?_, nofun, trivial, ?_⟩
        · simp [Action.thread, hthread, Thread.Pending]
        · exact ⟨_, by simp only [System.step, hthread]; rfl⟩
    | _ => simp [hthread, Thread.Holds] at hu
  cases howner : x.owner with
  | some u => exact hholds u ((h.threads u).owner.mpr howner)
  | none =>
      cases hthread : x.threads t with
      | waiting c since =>
          refine ⟨.lock t, ?_, nofun, trivial, ?_⟩
          · simp [Action.thread, hthread, Thread.Pending]
          · exact ⟨_, by simp only [System.step, hthread, howner]; rfl⟩
      | inside c since taken l => exact hholds t (by rw [hthread]; trivial)
      | leaving c since taken r => exact hholds t (by rw [hthread]; trivial)
      | _ => simp [hthread, Thread.Pending] at ht

end Steps

end Monitor

end CloudHelp
