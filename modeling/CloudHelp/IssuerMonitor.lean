import CloudHelp.Availability
import CloudHelp.Monitor

/-!
# `Issue` and `Close` behind the mutex of an issuer

`Issue` and `Close` hold the issuer's mutex from their beginning to their end, and in between they
wait for the file system and assign the fields one by one. Their bodies are given here step by
step; run alone, they are `Issuer.issue` and `Issuer.close` with what they have met
(`answerTo_of_executes`, `executes_close`), so that calls that wait for each other leave what calls
one after the other leave.
-/

namespace CloudHelp.Service

open Manifest Issuance

inductive Method where
  | issue
  | close
  deriving DecidableEq

inductive Assignment where
  | state (state : State)
  | lastError (err : Option Error)
  | retryAt (time : ℤ)
  | cached (envelope : Envelope)
  | cacheUntil (time : ℤ)
  | validUntil (time : ℤ)

def Assignment.apply (issuer : Issuer) : Assignment → Issuer
  | .state next => { issuer with state := next }
  | .lastError err => { issuer with lastError := err }
  | .retryAt time => { issuer with retryAt := time }
  | .cached envelope => { issuer with cached := envelope }
  | .cacheUntil time => { issuer with cacheUntil := time }
  | .validUntil time => { issuer with validUntil := time }

inductive BodyPlace where
  | issuing
  /-- in `refresh`, before `loadCatalog` returns -/
  | loading (now : ℤ)
  /-- in `refresh`, before `Save` returns -/
  | saving (now : ℤ) (envelope : Envelope) (next : State)
  | assigning (rest : List Assignment) (answer : Except Error Envelope)
  | closing
  /-- in `Close`, before the process lock's `Close` returns -/
  | unlocking

inductive Input where
  | clock (time : ℤ)
  | catalog (loaded : Except Error Catalog)
  | saved (outcome : Except Error Unit)
  | unlocked (outcome : Except Error Unit)
  | proceed
  deriving DecidableEq

inductive Result where
  | issued (answer : Except Error Envelope)
  | closed (outcome : Except Error Unit)

def Issuer.fails (issuer : Issuer) (now : ℤ) (e : Error) : BodyPlace :=
  let retryAt := now + min (5 * Duration.second) issuer.cacheFor
  if issuer.cached.payload ≠ [] ∧ now < issuer.validUntil then
    .assigning [.lastError (some e), .retryAt retryAt, .cacheUntil (min retryAt issuer.validUntil)]
      (.ok issuer.cached)
  else .assigning [.lastError (some e), .retryAt retryAt] (.error e)

/-- What is left to do when the state has been saved: the assignment at the end of `refresh`, and
those at the end of `Issue`. -/
def Issuer.publishes (issuer : Issuer) (now : ℤ) (envelope : Envelope) (next : State) : BodyPlace :=
  .assigning [.state next, .lastError none, .retryAt 0, .cached envelope,
    .cacheUntil (now + issuer.cacheFor), .validUntil (now + issuer.ttl)] (.ok envelope)

section

variable (rt : Runtime)

def bodyStep (issuer : Issuer) : BodyPlace → Input → Option (Issuer × (BodyPlace ⊕ Result))
  | .issuing, .clock time =>
      match issuer.serve (Time.truncateSecond time) with
      | some answer => some (issuer, .inr (.issued answer))
      | none => some (issuer, .inl (.loading (Time.truncateSecond time)))
  | .loading now, .catalog loaded =>
      match issuer.plan rt now loaded with
      | .error e => some (issuer, .inl (issuer.fails now e))
      | .ok (envelope, next) => some (issuer, .inl (.saving now envelope next))
  | .saving now envelope next, .saved outcome =>
      match outcome with
      | .error e =>
          some (issuer, .inl (issuer.fails now
            (.wrap "issuer: persist monotonic state before publish: %w" [] e)))
      | .ok () => some (issuer, .inl (issuer.publishes now envelope next))
  | .assigning (assignment :: rest) answer, .proceed =>
      some (assignment.apply issuer, .inl (.assigning rest answer))
  | .assigning [] answer, .proceed => some (issuer, .inr (.issued answer))
  | .closing, .proceed =>
      if issuer.closed = true then some (issuer, .inr (.closed (.ok ())))
      else some ({ issuer with closed := true }, .inl .unlocking)
  | .unlocking, .unlocked outcome => some (issuer, .inr (.closed outcome))
  | _, _ => none

def issuerMonitor : Monitor Issuer BodyPlace Method Input Result where
  enter
    | .issue => .issuing
    | .close => .closing
  step := bodyStep rt

end

variable {rt : Runtime} {C : Catalog → Prop} {issuer issuer' : Issuer}

def Input.Loads (C : Catalog → Prop) : Input → Prop
  | .catalog loaded => ∀ catalog, loaded = .ok catalog → C catalog
  | _ => True

def Request.Loads (C : Catalog → Prop) (request : Request) : Prop :=
  ∀ catalog, request.loaded = .ok catalog → C catalog

def Input.clock? : Input → Option ℤ
  | .clock time => some time
  | _ => none

def Input.catalog? : Input → Option (Except Error Catalog)
  | .catalog loaded => some loaded
  | _ => none

def Input.saved? : Input → Option (Except Error Unit)
  | .saved outcome => some outcome
  | _ => none

def Input.unlocked? : Input → Option (Except Error Unit)
  | .unlocked outcome => some outcome
  | _ => none

/-- What a call of `Issue` has met, from the inputs it has taken. It has not looked at what is not
among them. -/
def Request.of (taken : List Input) : Request where
  clock := (taken.findSome? Input.clock?).getD 0
  loaded := (taken.findSome? Input.catalog?).getD (.error .notExist)
  save := fun _ => (taken.findSome? Input.saved?).getD (.ok ())

theorem Request.of_proceed (taken : List Input) :
    Request.of (taken ++ [.proceed]) = Request.of taken := by
  simp [Request.of, List.findSome?_append, Input.clock?, Input.catalog?, Input.saved?]

/-! ## `Issue` alone -/

/-- The assignments that are left lead to the issuer and the answer of `failed`. -/
theorem fails_eq (issuer : Issuer) (now : ℤ) (e : Error) :
    ∃ rest answer, issuer.fails now e = .assigning rest answer ∧
      issuer.failed now e = (rest.foldl Assignment.apply issuer, answer) := by
  unfold Issuer.fails Issuer.failed
  by_cases hcached : issuer.cached.payload ≠ [] ∧ now < issuer.validUntil
  · rw [if_pos hcached, if_pos hcached]
    exact ⟨_, _, rfl, rfl⟩
  · rw [if_neg hcached, if_neg hcached]
    exact ⟨_, _, rfl, rfl⟩

theorem publishes_eq (issuer : Issuer) (now : ℤ) (envelope : Envelope) (next : State) :
    ∃ rest answer, issuer.publishes now envelope next = .assigning rest answer ∧
      issuer.published now envelope next = (rest.foldl Assignment.apply issuer, answer) :=
  ⟨_, _, rfl, rfl⟩

/-- Where `Issue` has got to from the issuer it began with, on the inputs it has taken. -/
inductive Got (rt : Runtime) (C : Catalog → Prop) (issuer : Issuer) :
    List Input → Issuer → BodyPlace → Prop where
  | issuing : Got rt C issuer [] issuer .issuing
  | loading (clock : ℤ) (hserve : issuer.serve (Time.truncateSecond clock) = none) :
      Got rt C issuer [.clock clock] issuer (.loading (Time.truncateSecond clock))
  | saving (clock : ℤ) (loaded : Except Error Catalog) {envelope : Envelope} {next : State}
      (hloaded : ∀ catalog, loaded = .ok catalog → C catalog)
      (hserve : issuer.serve (Time.truncateSecond clock) = none)
      (hplan : issuer.plan rt (Time.truncateSecond clock) loaded = .ok (envelope, next)) :
      Got rt C issuer [.clock clock, .catalog loaded] issuer
        (.saving (Time.truncateSecond clock) envelope next)
  | assigning {taken : List Input} {issuer' : Issuer} {rest : List Assignment}
      {answer : Except Error Envelope} (hrequest : (Request.of taken).Loads C)
      (h : issuer.answerTo rt (Request.of taken) =
        (rest.foldl Assignment.apply issuer', answer)) :
      Got rt C issuer taken issuer' (.assigning rest answer)

theorem got_assigning {place : BodyPlace} {result : Issuer × Except Error Envelope}
    (hplace : ∃ rest answer, place = .assigning rest answer ∧
      result = (rest.foldl Assignment.apply issuer, answer)) {taken : List Input}
    (hrequest : (Request.of taken).Loads C) (h : issuer.answerTo rt (Request.of taken) = result) :
    Got rt C issuer taken issuer place := by
  obtain ⟨rest, answer, rfl, hresult⟩ := hplace
  exact .assigning hrequest (h.trans hresult)

/-- One step of the body that does not end it. -/
theorem Got.step {taken : List Input} {mid mid' : Issuer} {place place' : BodyPlace}
    {input : Input} (h : Got rt C issuer taken mid place) (hinput : input.Loads C)
    (hstep : bodyStep rt mid place input = some (mid', .inl place')) :
    Got rt C issuer (taken ++ [input]) mid' place' := by
  cases h with
  | issuing =>
      cases input with
      | clock time =>
          simp only [bodyStep] at hstep
          cases hserve : issuer.serve (Time.truncateSecond time) with
          | some answer => simp [hserve] at hstep
          | none =>
              simp only [hserve, Option.some.injEq, Prod.mk.injEq, Sum.inl.injEq] at hstep
              obtain ⟨rfl, rfl⟩ := hstep
              exact .loading time hserve
      | _ => cases hstep
  | loading clock hserve =>
      cases input with
      | catalog loaded =>
          simp only [bodyStep] at hstep
          cases hplan : issuer.plan rt (Time.truncateSecond clock) loaded with
          | error e =>
              simp only [hplan, Option.some.injEq, Prod.mk.injEq, Sum.inl.injEq] at hstep
              obtain ⟨rfl, rfl⟩ := hstep
              have hanswer : issuer.answerTo rt ⟨clock, loaded, fun _ => .ok ()⟩ =
                  issuer.failed (Time.truncateSecond clock) e := by
                simp only [Issuer.answerTo, Issuer.issue, hserve, hplan]
              exact got_assigning (fails_eq issuer _ e) hinput hanswer
          | ok found =>
              obtain ⟨envelope, next⟩ := found
              simp only [hplan, Option.some.injEq, Prod.mk.injEq, Sum.inl.injEq] at hstep
              obtain ⟨rfl, rfl⟩ := hstep
              exact .saving clock loaded hinput hserve hplan
      | _ => cases hstep
  | @saving clock loaded envelope next hloaded hserve hplan =>
      cases input with
      | saved outcome =>
          simp only [bodyStep] at hstep
          cases outcome with
          | error e =>
              simp only [Option.some.injEq, Prod.mk.injEq, Sum.inl.injEq] at hstep
              obtain ⟨rfl, rfl⟩ := hstep
              have hanswer : issuer.answerTo rt ⟨clock, loaded, fun _ => .error e⟩ =
                  issuer.failed (Time.truncateSecond clock)
                    (.wrap "issuer: persist monotonic state before publish: %w" [] e) := by
                simp only [Issuer.answerTo, Issuer.issue, hserve, hplan, Issuer.settle]
              exact got_assigning (fails_eq issuer _ _) hloaded hanswer
          | ok u =>
              simp only [Option.some.injEq, Prod.mk.injEq, Sum.inl.injEq] at hstep
              obtain ⟨rfl, rfl⟩ := hstep
              have hanswer : issuer.answerTo rt ⟨clock, loaded, fun _ => .ok ()⟩ =
                  issuer.published (Time.truncateSecond clock) envelope next := by
                simp only [Issuer.answerTo, Issuer.issue, hserve, hplan, Issuer.settle]
              exact got_assigning (publishes_eq issuer _ _ _) hloaded hanswer
      | _ => cases hstep
  | @assigning taken issuer' rest answer hrequest h =>
      cases rest with
      | nil => cases input <;> simp [bodyStep] at hstep
      | cons assignment rest =>
          cases input with
          | proceed =>
              simp only [bodyStep, Option.some.injEq, Prod.mk.injEq, Sum.inl.injEq] at hstep
              obtain ⟨rfl, rfl⟩ := hstep
              rw [← Request.of_proceed] at hrequest h
              exact .assigning hrequest h
          | _ => cases hstep

/-- The step that ends the body. -/
theorem Got.result {taken : List Input} {mid mid' : Issuer} {place : BodyPlace} {input : Input}
    {result : Result} (h : Got rt C issuer taken mid place)
    (hstep : bodyStep rt mid place input = some (mid', .inr result)) :
    (Request.of (taken ++ [input])).Loads C ∧ ∃ answer, result = .issued answer ∧
      issuer.answerTo rt (Request.of (taken ++ [input])) = (mid', answer) := by
  cases h with
  | issuing =>
      cases input with
      | clock time =>
          simp only [bodyStep] at hstep
          cases hserve : issuer.serve (Time.truncateSecond time) with
          | some answer =>
              simp only [hserve, Option.some.injEq, Prod.mk.injEq, Sum.inr.injEq] at hstep
              obtain ⟨rfl, rfl⟩ := hstep
              refine ⟨fun catalog hloaded => ?_, answer, rfl, Issuer.answerTo_of_served hserve⟩
              cases hloaded
          | none => simp [hserve] at hstep
      | _ => cases hstep
  | loading clock hserve =>
      cases input with
      | catalog loaded =>
          simp only [bodyStep] at hstep
          cases hplan : issuer.plan rt (Time.truncateSecond clock) loaded with
          | error e => simp [hplan] at hstep
          | ok found => simp [hplan] at hstep
      | _ => cases hstep
  | saving clock loaded hloaded hserve hplan =>
      cases input with
      | saved outcome => cases outcome <;> simp [bodyStep] at hstep
      | _ => cases hstep
  | @assigning taken issuer' rest answer hrequest h =>
      cases rest with
      | nil =>
          cases input with
          | proceed =>
              simp only [bodyStep, Option.some.injEq, Prod.mk.injEq, Sum.inr.injEq] at hstep
              obtain ⟨rfl, rfl⟩ := hstep
              rw [Request.of_proceed]
              exact ⟨hrequest, answer, rfl, h⟩
          | _ => cases hstep
      | cons assignment rest => cases input <;> simp [bodyStep] at hstep

theorem got_advances {taken : List Input} {mid : Issuer} {place : BodyPlace}
    (h : (issuerMonitor rt).Advances (Input.Loads C) issuer .issuing taken mid place) :
    Got rt C issuer taken mid place := by
  induction h with
  | refl => exact .issuing
  | step h hinput hstep ih => exact ih.step hinput hstep

/-- The assignments that are left are made. -/
theorem executes_assigning {rest : List Assignment} {taken : List Input} {mid : Issuer}
    {answer : Except Error Envelope}
    (h : (issuerMonitor rt).Advances (Input.Loads C) issuer .issuing taken mid
      (.assigning rest answer)) :
    ∃ taken, (issuerMonitor rt).Executes (Input.Loads C) issuer .issue taken
      (rest.foldl Assignment.apply mid) (.issued answer) := by
  induction rest generalizing mid taken with
  | nil => exact ⟨_, .intro h (i := Input.proceed) trivial rfl⟩
  | cons assignment rest ih => exact ih (h.step (i := Input.proceed) trivial rfl)

/-- The body of `Issue`, run alone, is `Issuer.issue` with what it has met. -/
theorem answerTo_of_executes {taken : List Input} {result : Result}
    (h : (issuerMonitor rt).Executes (Input.Loads C) issuer .issue taken issuer' result) :
    (Request.of taken).Loads C ∧ ∃ answer, result = .issued answer ∧
      issuer.answerTo rt (Request.of taken) = (issuer', answer) := by
  obtain ⟨hadvances, _, hstep⟩ := h
  exact (got_advances hadvances).result hstep

/-- Whatever `Issuer.issue` is given, the body can meet. -/
theorem exists_executes_issue {request : Request} (hrequest : request.Loads C) :
    ∃ taken, (issuerMonitor rt).Executes (Input.Loads C) issuer .issue taken
      (issuer.answerTo rt request).1 (.issued (issuer.answerTo rt request).2) := by
  obtain ⟨clock, loaded, save⟩ := request
  have hstart :
      (issuerMonitor rt).Advances (Input.Loads C) issuer .issuing [] issuer .issuing := .refl
  -- once the assignments are known, the rest is one way
  have hfinish : ∀ taken place result,
      (issuerMonitor rt).Advances (Input.Loads C) issuer .issuing taken issuer place →
      (∃ rest answer, place = .assigning rest answer ∧
        result = (rest.foldl Assignment.apply issuer, answer)) →
      ∃ taken, (issuerMonitor rt).Executes (Input.Loads C) issuer .issue taken result.1
        (.issued result.2) := by
    rintro taken place result hadvances ⟨rest, answer, rfl, rfl⟩
    exact executes_assigning hadvances
  simp only [Issuer.answerTo, Issuer.issue]
  cases hserve : issuer.serve (Time.truncateSecond clock) with
  | some served =>
      refine ⟨_, .intro hstart (i := Input.clock clock) trivial ?_⟩
      simp only [issuerMonitor, bodyStep, hserve]
  | none =>
      have hloading : (issuerMonitor rt).Advances (Input.Loads C) issuer .issuing
          ([] ++ [.clock clock]) issuer (.loading (Time.truncateSecond clock)) := by
        refine hstart.step trivial ?_
        simp only [issuerMonitor, bodyStep, hserve]
      cases hplan : issuer.plan rt (Time.truncateSecond clock) loaded with
      | error e =>
          refine hfinish _ _ _ (hloading.step (i := Input.catalog loaded) hrequest ?_)
            (fails_eq issuer _ e)
          simp only [issuerMonitor, bodyStep, hplan]
      | ok found =>
          obtain ⟨envelope, next⟩ := found
          have hsaving : (issuerMonitor rt).Advances (Input.Loads C) issuer .issuing
              ([] ++ [.clock clock] ++ [.catalog loaded]) issuer
              (.saving (Time.truncateSecond clock) envelope next) := by
            refine hloading.step hrequest ?_
            simp only [issuerMonitor, bodyStep, hplan]
          cases hsave : save next with
          | error e =>
              simp only [hsave]
              exact hfinish _ _ _ (hsaving.step (i := Input.saved (.error e)) trivial rfl)
                (fails_eq issuer _ _)
          | ok u =>
              simp only [hsave]
              exact hfinish _ _ _ (hsaving.step (i := Input.saved (.ok ())) trivial rfl)
                (publishes_eq issuer _ _ _)

/-! ## `Close` alone -/

theorem answerTo_of_closed (h : issuer.closed = true) {request : Request} :
    issuer.answerTo rt request = (issuer, .error (.new "issuer: closed")) :=
  Issuer.answerTo_of_served (Issuer.serve_closed request.now h)

/-- What `Close` returns, if the process lock's own `Close` ends as given. -/
def Issuer.closeResult (issuer : Issuer) (outcome : Except Error Unit) : Result :=
  .closed (if issuer.closed = true then .ok () else outcome)

def closeOutcome (taken : List Input) : Except Error Unit :=
  (taken.findSome? Input.unlocked?).getD (.ok ())

/-- Where `Close` has got to. -/
theorem closing_advances {taken : List Input} {mid : Issuer} {place : BodyPlace}
    (h : (issuerMonitor rt).Advances (Input.Loads C) issuer .closing taken mid place) :
    mid = issuer ∧ place = .closing ∧ taken = [] ∨
      issuer.closed ≠ true ∧ mid = issuer.close.1 ∧ place = .unlocking ∧ taken = [.proceed] := by
  induction h with
  | refl => exact Or.inl ⟨rfl, rfl, rfl⟩
  | @step taken s' s'' l' l'' i h _ hstep ih =>
      rcases ih with ⟨rfl, rfl, rfl⟩ | ⟨_, rfl, rfl, rfl⟩
      · cases i with
        | proceed =>
            simp only [issuerMonitor, bodyStep] at hstep
            split_ifs at hstep with hclosed
            · cases hstep
            · simp only [Option.some.injEq, Prod.mk.injEq, Sum.inl.injEq] at hstep
              obtain ⟨rfl, rfl⟩ := hstep
              exact Or.inr ⟨hclosed, by rw [Issuer.close, if_neg hclosed], rfl, rfl⟩
        | _ => cases hstep
      · cases i <;> cases hstep

theorem executes_close {taken : List Input} {result : Result}
    (h : (issuerMonitor rt).Executes (Input.Loads C) issuer .close taken issuer' result) :
    issuer' = issuer.close.1 ∧ result = issuer.closeResult (closeOutcome taken) := by
  obtain @⟨taken, mid, _, place, input, _, hadvances, _, hstep⟩ := h
  unfold Issuer.closeResult
  rcases closing_advances hadvances with ⟨rfl, rfl, rfl⟩ | ⟨hopen, rfl, rfl, rfl⟩
  · cases input with
    | proceed =>
        simp only [issuerMonitor, bodyStep] at hstep
        split_ifs at hstep with hclosed
        · simp only [Option.some.injEq, Prod.mk.injEq, Sum.inr.injEq] at hstep
          obtain ⟨rfl, rfl⟩ := hstep
          refine ⟨by rw [Issuer.close, if_pos hclosed], ?_⟩
          rw [if_pos hclosed]
        · cases hstep
    | _ => cases hstep
  · cases input with
    | unlocked outcome =>
        simp only [issuerMonitor, bodyStep, Option.some.injEq, Prod.mk.injEq,
          Sum.inr.injEq] at hstep
        obtain ⟨rfl, rfl⟩ := hstep
        refine ⟨rfl, ?_⟩
        rw [if_neg hopen]
        rfl
    | _ => cases hstep

/-! ## Calls one after the other -/

inductive Operation where
  | issue (request : Request)
  | close (outcome : Except Error Unit)

def Operation.of : Method → List Input → Operation
  | .issue, taken => .issue (.of taken)
  | .close, taken => .close (closeOutcome taken)

def Issuer.perform (rt : Runtime) (issuer : Issuer) : Operation → Issuer × Result
  | .issue request => ((issuer.answerTo rt request).1, .issued (issuer.answerTo rt request).2)
  | .close outcome => (issuer.close.1, issuer.closeResult outcome)

def performs (rt : Runtime) : Issuer → List Operation → List Result
  | _, [] => []
  | issuer, operation :: rest =>
      (issuer.perform rt operation).2 :: performs rt (issuer.perform rt operation).1 rest

def performed (rt : Runtime) (issuer : Issuer) (operations : List Operation) : Issuer :=
  operations.foldl (fun issuer operation => (issuer.perform rt operation).1) issuer

theorem performs_append (issuer : Issuer) (first second : List Operation) :
    performs rt issuer (first ++ second) =
      performs rt issuer first ++ performs rt (performed rt issuer first) second := by
  induction first generalizing issuer with
  | nil => rfl
  | cons operation rest ih =>
      rw [List.cons_append, performs, performs, ih]
      rfl

/-- A call alone is an operation. -/
theorem perform_of_executes {method : Method} {taken : List Input} {result : Result}
    (h : (issuerMonitor rt).Executes (Input.Loads C) issuer method taken issuer' result) :
    issuer.perform rt (.of method taken) = (issuer', result) := by
  cases method with
  | issue =>
      obtain ⟨_, answer, rfl, hanswer⟩ := answerTo_of_executes h
      rw [Operation.of, Issuer.perform, hanswer]
  | close =>
      obtain ⟨rfl, rfl⟩ := executes_close h
      rfl

theorem performs_of_serial {T : Type} {start : Issuer}
    {log : List (Monitor.Entry T Method Input Result)}
    (h : (issuerMonitor rt).Serial (Input.Loads C) start log issuer) :
    performs rt start (log.map fun e => .of e.call e.taken) = log.map Monitor.Entry.result ∧
      performed rt start (log.map fun e => .of e.call e.taken) = issuer := by
  induction h with
  | nil => exact ⟨rfl, rfl⟩
  | @next log s s' e h hcall ih =>
      obtain ⟨hresults, hissuer⟩ := ih
      have hperform := perform_of_executes hcall
      rw [List.map_append, List.map_append, List.map_singleton, List.map_singleton]
      constructor
      · rw [performs_append, hresults, hissuer, performs, performs, hperform]
      · rw [performed, List.foldl_append]
        change ((performed rt start _).perform rt (.of e.call e.taken)).1 = s'
        rw [hissuer, hperform]

/-- After a `Close` every `Issue` fails. -/
theorem issues_after_close {T : Type} {start : Issuer}
    {log : List (Monitor.Entry T Method Input Result)}
    (h : (issuerMonitor rt).Serial (Input.Loads C) start log issuer) :
    log.Pairwise fun a b => a.call = .close → b.call = .issue →
      b.result = .issued (.error (.new "issuer: closed")) := by
  have hkeeps : ∀ {s s' : Issuer} {method : Method} {taken : List Input} {result : Result},
      (issuerMonitor rt).Executes (Input.Loads C) s method taken s' result → s.closed = true →
        s'.closed = true := by
    intro s s' method taken result hcall hclosed
    cases method with
    | issue =>
        obtain ⟨_, answer, _, hanswer⟩ := answerTo_of_executes hcall
        rw [answerTo_of_closed hclosed] at hanswer
        obtain rfl := (Prod.mk.inj hanswer).1
        exact hclosed
    | close =>
        obtain ⟨rfl, _⟩ := executes_close hcall
        rw [Issuer.close, if_pos hclosed]
        exact hclosed
  refine (h.pairwise (P := fun _ => True) (Q := fun a s => a.call = .close → s.closed = true)
    (fun _ _ _ _ _ _ _ => trivial) ?_ ?_ ?_ trivial).2
  · intro s a s' _ hcall hclose
    rw [hclose] at hcall
    obtain ⟨rfl, _⟩ := executes_close hcall
    exact Issuer.closed_close s
  · intro a s c taken s' r _ hQ hcall hclose
    exact hkeeps hcall (hQ hclose)
  · intro a s b s' _ hQ hcall hclose hissue
    rw [hissue] at hcall
    obtain ⟨_, answer, hresult, hanswer⟩ := answerTo_of_executes hcall
    rw [answerTo_of_closed (hQ hclose)] at hanswer
    rw [hresult, ← (Prod.mk.inj hanswer).2]

/-! ## What calls keep -/

variable {options : IssuerOptions} {request : Request}

/-- The issuer is as its start and its calls keep it, apart from having been closed. -/
def Issuer.Tended (rt : Runtime) (C : Catalog → Prop) (options : IssuerOptions) (issuer : Issuer) :
    Prop :=
  ({ issuer with closed := false } : Issuer).Kept rt C options

namespace Issuer

theorem withClosed_eq {b : Bool} (h : issuer.closed = b) :
    ({ issuer with closed := b } : Issuer) = issuer := by
  subst h
  rfl

theorem Kept.tended (h : issuer.Kept rt C options) : issuer.Tended rt C options := by
  unfold Tended
  rw [withClosed_eq h.notClosed]
  exact h

theorem Tended.kept (h : issuer.Tended rt C options) (hopen : issuer.closed = false) :
    issuer.Kept rt C options := by
  unfold Tended at h
  rwa [withClosed_eq hopen] at h

theorem not_closed_of_answer {envelope : Envelope}
    (h : issuer.answerTo rt request = (issuer', .ok envelope)) : issuer.closed = false := by
  apply eq_false_of_ne_true
  intro hclosed
  rw [answerTo_of_closed hclosed] at h
  cases (Prod.mk.inj h).2

theorem Tended.answerTo (h : issuer.Tended rt C options) (hrequest : request.Loads C) :
    (issuer.answerTo rt request).1.Tended rt C options := by
  cases hclosed : issuer.closed with
  | true =>
      rw [answerTo_of_closed hclosed]
      exact h
  | false => exact ((h.kept hclosed).answerTo hrequest).tended

theorem Tended.executes {method : Method} {taken : List Input} {result : Result}
    (h : issuer.Tended rt C options)
    (hcall : (issuerMonitor rt).Executes (Input.Loads C) issuer method taken issuer' result) :
    issuer'.Tended rt C options := by
  cases method with
  | issue =>
      obtain ⟨hrequest, answer, _, hanswer⟩ := answerTo_of_executes hcall
      have hnext := h.answerTo hrequest
      rwa [hanswer] at hnext
  | close =>
      obtain ⟨rfl, _⟩ := executes_close hcall
      unfold Issuer.close
      by_cases hclosed : issuer.closed = true
      · rw [if_pos hclosed]
        exact h
      · rw [if_neg hclosed]
        exact h

/-- An answer is the envelope that is cached afterwards. -/
theorem Kept.cached_of_answer {envelope : Envelope} (hk : issuer.Kept rt C options)
    (hrequest : request.Loads C) (h : issuer.answerTo rt request = (issuer', .ok envelope)) :
    issuer'.cached = envelope ∧ envelope.payload ≠ [] := by
  obtain ⟨pub, hanswers, _⟩ := hk.answer_ok hrequest (congrArg Prod.snd h)
  refine ⟨?_, hanswers.publishes.payload_ne_nil⟩
  have hcourse : Course rt issuer request (issuer.answerTo rt request) :=
    issue_course issuer request
  rw [h] at hcourse
  generalize hresult : (issuer', Except.ok envelope) = result at hcourse
  cases hcourse with
  | served hserve =>
      obtain ⟨rfl, rfl⟩ := Prod.mk.inj hresult
      exact (of_serve_ok hserve).1.symm
  | failed e hserve hfails =>
      unfold Issuer.failed at hresult
      split_ifs at hresult with hcached
      · obtain ⟨rfl, henvelope⟩ := Prod.mk.inj hresult
        exact (Except.ok.inj henvelope).symm
      · cases (Prod.mk.inj hresult).2
  | published hserve hplan hsave =>
      obtain ⟨rfl, henvelope⟩ := Prod.mk.inj hresult
      exact (Except.ok.inj henvelope).symm

/-- A call leaves the state and the cached envelope, or brings a later state. -/
theorem Kept.moves (hk : issuer.Kept rt C options) (request : Request) :
    ((issuer.answerTo rt request).1.cached = issuer.cached ∧
        (issuer.answerTo rt request).1.state = issuer.state) ∨
      (issuer.state.lastVersion ≠ 0 →
        Before issuer.state (issuer.answerTo rt request).1.state) := by
  have hcourse : Course rt issuer request (issuer.answerTo rt request) :=
    issue_course issuer request
  generalize issuer.answerTo rt request = result at hcourse ⊢
  cases hcourse with
  | served hserve => exact Or.inl ⟨rfl, rfl⟩
  | failed e hserve hfails =>
      left
      unfold Issuer.failed
      split_ifs
      · exact ⟨rfl, rfl⟩
      · exact ⟨rfl, rfl⟩
  | published hserve hplan hsave =>
      obtain ⟨hlt, hbehind⟩ := hk.sound.ahead hplan
      exact Or.inr fun hzero => ⟨hbehind hzero, hlt⟩

end Issuer

/-- Where an envelope that was answered stands to the issuer afterwards: it is the cached one, or it
was published before it. -/
def Precedes (rt : Runtime) (C : Catalog → Prop) (options : IssuerOptions) (envelope : Envelope)
    (issuer : Issuer) : Prop :=
  ∃ pub : Publication, pub.Publishes rt envelope ∧ pub.options = options ∧ C pub.catalog ∧
    (issuer.cached = envelope ∧ issuer.state = pub.state ∨ Before pub.state issuer.state)

/-- An answer is the publication that the issuer records afterwards. -/
theorem published_of_answer {envelope : Envelope} {taken : List Input}
    (h : issuer.Tended rt C options)
    (hcall : (issuerMonitor rt).Executes (Input.Loads C) issuer .issue taken issuer'
      (.issued (.ok envelope))) :
    issuer'.cached = envelope ∧ ∃ pub : Publication, pub.Publishes rt envelope ∧
      pub.options = options ∧ C pub.catalog ∧ issuer'.state = pub.state := by
  obtain ⟨hrequest, answer, hresult, hanswer⟩ := answerTo_of_executes hcall
  obtain rfl := Result.issued.inj hresult
  have hk := h.kept (Issuer.not_closed_of_answer hanswer)
  obtain ⟨hcached, hpayload⟩ := hk.cached_of_answer hrequest hanswer
  have hk' : (issuer.answerTo rt (.of taken)).1.Kept rt C options := hk.answerTo hrequest
  rw [hanswer] at hk'
  obtain ⟨catalog, hcatalog, hpublishes⟩ := (hk'.cached (hcached ▸ hpayload)).publishes
  rw [hcached] at hpublishes
  exact ⟨hcached, _, hpublishes, hk'.options, hcatalog, rfl⟩

theorem Precedes.executes {envelope : Envelope} {method : Method} {taken : List Input}
    {result : Result} (h : issuer.Tended rt C options) (hp : Precedes rt C options envelope issuer)
    (hcall : (issuerMonitor rt).Executes (Input.Loads C) issuer method taken issuer' result) :
    Precedes rt C options envelope issuer' := by
  obtain ⟨pub, hpublishes, hoptions, hcatalog, horder⟩ := hp
  -- a state that is not before the first publication
  have hzero : issuer.state.lastVersion ≠ 0 := by
    have hpub := hpublishes.version_ne_zero
    rcases horder with ⟨_, hstate⟩ | hbefore
    · rwa [hstate]
    · exact fun hz => UInt64.not_lt_zero (hz ▸ hbefore.2)
  refine ⟨pub, hpublishes, hoptions, hcatalog, ?_⟩
  have hmoves : issuer'.cached = issuer.cached ∧ issuer'.state = issuer.state ∨
      Before issuer.state issuer'.state := by
    cases method with
    | issue =>
        obtain ⟨hrequest, answer, _, hanswer⟩ := answerTo_of_executes hcall
        cases hclosed : issuer.closed with
        | true =>
            rw [answerTo_of_closed hclosed] at hanswer
            obtain rfl := (Prod.mk.inj hanswer).1
            exact Or.inl ⟨rfl, rfl⟩
        | false =>
            have hmoves := (h.kept hclosed).moves (.of taken)
            rw [hanswer] at hmoves
            exact hmoves.imp_right fun hbefore => hbefore hzero
    | close =>
        obtain ⟨rfl, _⟩ := executes_close hcall
        left
        unfold Issuer.close
        split_ifs
        · exact ⟨rfl, rfl⟩
        · exact ⟨rfl, rfl⟩
  rcases hmoves with ⟨hcached, hstate⟩ | hlater
  · rw [hcached, hstate]
    exact horder
  · right
    rcases horder with ⟨_, hstate⟩ | hbefore
    · rwa [← hstate]
    · exact ⟨hbefore.1.trans hlater.1, UInt64.lt_trans hbefore.2 hlater.2⟩

end CloudHelp.Service
