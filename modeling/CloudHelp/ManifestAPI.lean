import CloudHelp.IssuerMonitor
import CloudHelp.PilotAPI

/-!
# The public API of the control plane

`internal/api/handler.go`: the handler of `/healthz`, `/readyz` and `/v1/manifest`, as a server
that serves any number of requests at once. The channel `limit` holds one element for every
request between `acquire` and `release`; those requests share one issuer and wait for each other
at its mutex. The process itself, which publishes once before it listens and closes the issuer at
its end, is one more caller of the issuer.

What the multiplexer sends elsewhere (to the administration API, to a redirect, to its own 404)
uses neither the channel nor the issuer. Errors of the final write of a body are left out: the
client sees no complete answer then.
-/

namespace CloudHelp.ManifestAPI

open Manifest Service
open PilotAPI (Header methodGet)

def methodHead : Bytes := str "HEAD"

/-! ## Answers -/

structure Response where
  headers : List Header
  status : ℕ
  body : Bytes
  /-- what is logged on the way -/
  logged : List (String × Error)

inductive Route where
  | healthz
  | readyz
  | manifest
  | elsewhere (response : Response)

structure Request where
  method : Bytes
  route : Route

def setHeader (headers : List Header) (name value : String) : List Header :=
  headers.filter (fun header => header.1 ≠ name) ++ [(name, value)]

def securityHeaders : List Header :=
  [("Content-Security-Policy", "default-src 'none'; frame-ancestors 'none'"),
    ("Referrer-Policy", "no-referrer"), ("X-Content-Type-Options", "nosniff")]

def writeText (headers : List Header) (request : Request) (status : ℕ) (body : String) :
    Response where
  headers :=
    setHeader (setHeader headers "Content-Type" "text/plain; charset=utf-8")
      "Cache-Control" "no-store"
  status := status
  body := if request.method = methodHead then [] else str body
  logged := []

def httpError (headers : List Header) (body : String) (status : ℕ) : Response where
  headers :=
    setHeader (setHeader headers "Content-Type" "text/plain; charset=utf-8")
      "X-Content-Type-Options" "nosniff"
  status := status
  body := str (body ++ "\n")
  logged := []

def allowReadMethod (request : Request) : Bool :=
  request.method = methodGet || request.method = methodHead

def methodNotAllowed : Response :=
  httpError (setHeader securityHeaders "Allow" "GET, HEAD") "method not allowed" 405

def busy (request : Request) : Response :=
  writeText (setHeader securityHeaders "Retry-After" "1") request 503 "busy\n"

/-! ## The handler -/

/-- `K` are the readiness checks. -/
structure Handler (K : Type) where
  /-- whether there is a logger -/
  logger : Bool
  /-- the capacity of `limit` -/
  capacity : ℕ
  checks : List K

def newHandler {K : Type} (logger : Bool) (maxInFlight : ℤ) (checks : List (Option K)) :
    Handler K :=
  ⟨logger, (if maxInFlight < 1 then 1 else maxInFlight).toNat, checks.filterMap id⟩

section Handler

variable {K : Type} (h : Handler K)

namespace Handler

def logError (message : String) (err : Error) : List (String × Error) :=
  if h.logger = true then [(message, err)] else []

def unavailable (request : Request) (body message : String) (err : Error) : Response :=
  { writeText securityHeaders request 503 body with logged := h.logError message err }

def manifest (request : Request) : Except Error Envelope → Response
  | .error err => h.unavailable request "manifest unavailable\n" "manifest issuance failed" err
  | .ok envelope =>
      { headers :=
          setHeader (setHeader securityHeaders "Content-Type" "application/json")
            "Cache-Control" "no-store"
        status := 200
        body := if request.method = methodHead then [] else encodeEnvelope envelope
        logged := [] }

def ready (request : Request) : Response := writeText securityHeaders request 200 "ready\n"

def notReady (request : Request) (message : String) (err : Error) : Response :=
  h.unavailable request "not ready\n" message err

/-- The answer of a request that does not get to `acquire`; `none` for one that does. -/
def answers (request : Request) : Option Response :=
  match request.route with
  | .elsewhere response => some response
  | .healthz =>
      if allowReadMethod request = true then some (writeText securityHeaders request 200 "ok\n")
      else some methodNotAllowed
  | .readyz | .manifest => if allowReadMethod request = true then none else some methodNotAllowed

end Handler

/-! ## The server -/

/-- A request that has come in. For what is said about the order of requests it remembers how many
calls of the issuer had returned, and how many answers had been written. -/
structure Visit where
  request : Request
  mark : ℕ
  started : ℕ

inductive Phase (K : Type) where
  | idle
  | arrived (visit : Visit)
  /-- between `acquire` and the return of `issue` -/
  | calling (visit : Visit)
  /-- in the loop of `ready`; `index` is the place of its call of `issue` in the log -/
  | checking (visit : Visit) (index : ℕ) (rest : List K)
  /-- the answer is written; `slot` tells whether `release` is still to come -/
  | answered (slot : Bool)

/-- The request has an element in the channel. -/
def Phase.Holds : Phase K → Prop
  | .calling _ | .checking _ _ _ | .answered true => True
  | _ => False

def Phase.isCalling : Phase K → Bool
  | .calling _ => true
  | _ => false

/-- An answer that was written, with the place of the call of `issue` that it rests on. -/
structure Served where
  visit : Visit
  index : Option ℕ
  response : Response

structure Server (K : Type) where
  /-- request `t` calls as `some t`, the process as `none` -/
  issuer : Monitor.System (Option ℕ) Issuer BodyPlace Method Input Result
  /-- how many elements the channel has -/
  inFlight : ℕ
  phases : ℕ → Phase K
  served : List Served

def Server.initial (issuer : Issuer) : Server K := ⟨.initial issuer, 0, fun _ => .idle, []⟩

inductive Event where
  /-- a step of a caller of the issuer -/
  | issuer (action : Monitor.Action (Option ℕ) Method Input)
  | arrive (t : ℕ) (request : Request)
  /-- the checks up to `acquire`, and `acquire` -/
  | acquire (t : ℕ)
  /-- `issue` has returned -/
  | resume (t : ℕ)
  | check (t : ℕ) (outcome : Except Error Unit)
  /-- a readiness check panics; the deferred `release` is still to come -/
  | panic (t : ℕ)
  | release (t : ℕ)
  | finish (t : ℕ)

/-- The process uses the issuer as it likes; a request only calls `Issue`, after `acquire`. -/
def permits (phases : ℕ → Phase K) : Monitor.Action (Option ℕ) Method Input → Bool
  | .call none _ | .lock none | .step none _ | .unlock none | .leave none => true
  | .call (some t) .issue | .lock (some t) | .step (some t) _ | .unlock (some t) =>
      (phases t).isCalling
  | _ => false

namespace Server

def put (x : Server K) (t : ℕ) (phase : Phase K) : Server K :=
  { x with phases := Function.update x.phases t phase }

def respond (x : Server K) (t : ℕ) (served : Served) (slot : Bool) : Server K :=
  { x.put t (.answered slot) with served := x.served ++ [served] }

def resumed (x : Server K) (t : ℕ) (visit : Visit) (index : ℕ) (answer : Except Error Envelope) :
    Server K :=
  match visit.request.route, answer with
  | .readyz, .error err =>
      x.respond t ⟨visit, some index, h.notReady visit.request "readiness check failed" err⟩ true
  | .readyz, .ok _ => x.put t (.checking visit index h.checks)
  | _, answer => x.respond t ⟨visit, some index, h.manifest visit.request answer⟩ true

def step (rt : Runtime) (x : Server K) : Event → Option (Server K)
  | .issuer action =>
      if permits x.phases action = true then
        (x.issuer.step (issuerMonitor rt) action).map fun issuer => { x with issuer := issuer }
      else none
  | .arrive t request =>
      match x.phases t with
      | .idle => some (x.put t (.arrived ⟨request, x.issuer.log.length, x.served.length⟩))
      | _ => none
  | .acquire t =>
      match x.phases t with
      | .arrived visit =>
          match Handler.answers visit.request with
          | some response => some (x.respond t ⟨visit, none, response⟩ false)
          | none =>
              if x.inFlight < h.capacity then
                some { x.put t (.calling visit) with inFlight := x.inFlight + 1 }
              else some (x.respond t ⟨visit, none, busy visit.request⟩ false)
      | _ => none
  | .resume t =>
      match x.phases t, x.issuer.threads (some t) with
      | .calling visit, .done _ _ (.issued answer) index =>
          (x.issuer.step (issuerMonitor rt) (.leave (some t))).map fun issuer =>
            { x with issuer := issuer }.resumed h t visit index answer
      | _, _ => none
  | .check t outcome =>
      match x.phases t, outcome with
      | .checking visit index (_ :: _), .error err =>
          some (x.respond t
            ⟨visit, some index, h.notReady visit.request "readiness dependency failed" err⟩ true)
      | .checking visit index (_ :: rest), .ok () => some (x.put t (.checking visit index rest))
      | .checking visit index [], _ =>
          some (x.respond t ⟨visit, some index, Handler.ready visit.request⟩ true)
      | _, _ => none
  | .panic t =>
      match x.phases t with
      | .checking _ _ (_ :: _) => some (x.put t (.answered true))
      | _ => none
  | .release t =>
      match x.phases t with
      | .answered true =>
          if 0 < x.inFlight then
            some { x.put t (.answered false) with inFlight := x.inFlight - 1 }
          else none
      | _ => none
  | .finish t =>
      match x.phases t with
      | .answered false => some (x.put t .idle)
      | _ => none

end Server

inductive Effect (rt : Runtime) (x : Server K) : Event → Server K → Prop where
  | called {action : Monitor.Action (Option ℕ) Method Input}
      {issuer : Monitor.System (Option ℕ) Issuer BodyPlace Method Input Result}
      (hpermits : permits x.phases action = true)
      (hstep : x.issuer.step (issuerMonitor rt) action = some issuer) :
      Effect rt x (.issuer action) { x with issuer := issuer }
  | arrived {t : ℕ} (request : Request) (hphase : x.phases t = .idle) :
      Effect rt x (.arrive t request)
        (x.put t (.arrived ⟨request, x.issuer.log.length, x.served.length⟩))
  | answered {t : ℕ} {visit : Visit} {response : Response} (hphase : x.phases t = .arrived visit)
      (hanswers : Handler.answers visit.request = some response) :
      Effect rt x (.acquire t) (x.respond t ⟨visit, none, response⟩ false)
  | full {t : ℕ} {visit : Visit} (hphase : x.phases t = .arrived visit)
      (hanswers : Handler.answers visit.request = none) (hfull : h.capacity ≤ x.inFlight) :
      Effect rt x (.acquire t) (x.respond t ⟨visit, none, busy visit.request⟩ false)
  | admitted {t : ℕ} {visit : Visit} (hphase : x.phases t = .arrived visit)
      (hanswers : Handler.answers visit.request = none) (hroom : x.inFlight < h.capacity) :
      Effect rt x (.acquire t) { x.put t (.calling visit) with inFlight := x.inFlight + 1 }
  | resumed {t : ℕ} {visit : Visit} {c : Method} {since index : ℕ} {answer : Except Error Envelope}
      {issuer : Monitor.System (Option ℕ) Issuer BodyPlace Method Input Result}
      (hphase : x.phases t = .calling visit)
      (hdone : x.issuer.threads (some t) = .done c since (.issued answer) index)
      (hleave : x.issuer.step (issuerMonitor rt) (.leave (some t)) = some issuer) :
      Effect rt x (.resume t) ({ x with issuer := issuer }.resumed h t visit index answer)
  | passed {t : ℕ} {visit : Visit} {index : ℕ} {check : K} {rest : List K}
      (hphase : x.phases t = .checking visit index (check :: rest)) :
      Effect rt x (.check t (.ok ())) (x.put t (.checking visit index rest))
  | failed {t : ℕ} {visit : Visit} {index : ℕ} {check : K} {rest : List K}
      (hphase : x.phases t = .checking visit index (check :: rest)) (err : Error) :
      Effect rt x (.check t (.error err)) (x.respond t
        ⟨visit, some index, h.notReady visit.request "readiness dependency failed" err⟩ true)
  | readied {t : ℕ} {visit : Visit} {index : ℕ} (outcome : Except Error Unit)
      (hphase : x.phases t = .checking visit index []) :
      Effect rt x (.check t outcome)
        (x.respond t ⟨visit, some index, Handler.ready visit.request⟩ true)
  | panicked {t : ℕ} {visit : Visit} {index : ℕ} {check : K} {rest : List K}
      (hphase : x.phases t = .checking visit index (check :: rest)) :
      Effect rt x (.panic t) (x.put t (.answered true))
  | released {t : ℕ} (hphase : x.phases t = .answered true) (hpos : 0 < x.inFlight) :
      Effect rt x (.release t) { x.put t (.answered false) with inFlight := x.inFlight - 1 }
  | finished {t : ℕ} (hphase : x.phases t = .answered false) :
      Effect rt x (.finish t) (x.put t .idle)

variable {h} {rt : Runtime} {x x' : Server K} {event : Event}

theorem step_effect (hstep : x.step h rt event = some x') : Effect h rt x event x' := by
  cases event with
  | issuer action =>
      simp only [Server.step] at hstep
      split_ifs at hstep with hpermits
      obtain ⟨issuer, hissuer, rfl⟩ := Option.map_eq_some_iff.mp hstep
      exact .called hpermits hissuer
  | arrive t request =>
      cases hphase : x.phases t with
      | idle =>
          simp only [Server.step, hphase] at hstep
          obtain rfl := Option.some.inj hstep
          exact .arrived request hphase
      | _ => simp [Server.step, hphase] at hstep
  | acquire t =>
      cases hphase : x.phases t with
      | arrived visit =>
          simp only [Server.step, hphase] at hstep
          cases hanswers : Handler.answers visit.request with
          | some response =>
              simp only [hanswers] at hstep
              obtain rfl := Option.some.inj hstep
              exact .answered hphase hanswers
          | none =>
              simp only [hanswers] at hstep
              by_cases hroom : x.inFlight < h.capacity
              · rw [if_pos hroom] at hstep
                obtain rfl := Option.some.inj hstep
                exact .admitted hphase hanswers hroom
              · rw [if_neg hroom] at hstep
                obtain rfl := Option.some.inj hstep
                exact .full hphase hanswers (not_lt.mp hroom)
      | _ => simp [Server.step, hphase] at hstep
  | resume t =>
      cases hphase : x.phases t with
      | calling visit =>
          cases hthread : x.issuer.threads (some t) with
          | done c since result index =>
              cases result with
              | issued answer =>
                  simp only [Server.step, hphase, hthread] at hstep
                  obtain ⟨issuer, hleave, rfl⟩ := Option.map_eq_some_iff.mp hstep
                  exact .resumed hphase hthread hleave
              | closed outcome => simp [Server.step, hphase, hthread] at hstep
          | _ => simp [Server.step, hphase, hthread] at hstep
      | _ => simp [Server.step, hphase] at hstep
  | check t outcome =>
      cases hphase : x.phases t with
      | checking visit index rest =>
          cases rest with
          | nil =>
              simp only [Server.step, hphase] at hstep
              obtain rfl := Option.some.inj hstep
              exact .readied outcome hphase
          | cons check rest =>
              cases outcome with
              | error err =>
                  simp only [Server.step, hphase] at hstep
                  obtain rfl := Option.some.inj hstep
                  exact .failed hphase err
              | ok u =>
                  simp only [Server.step, hphase] at hstep
                  obtain rfl := Option.some.inj hstep
                  exact .passed hphase
      | _ => simp [Server.step, hphase] at hstep
  | panic t =>
      cases hphase : x.phases t with
      | checking visit index rest =>
          cases rest with
          | nil => simp [Server.step, hphase] at hstep
          | cons check rest =>
              simp only [Server.step, hphase] at hstep
              obtain rfl := Option.some.inj hstep
              exact .panicked hphase
      | _ => simp [Server.step, hphase] at hstep
  | release t =>
      cases hphase : x.phases t with
      | answered slot =>
          cases slot with
          | true =>
              simp only [Server.step, hphase] at hstep
              split_ifs at hstep with hpos
              obtain rfl := Option.some.inj hstep
              exact .released hphase hpos
          | false => simp [Server.step, hphase] at hstep
      | _ => simp [Server.step, hphase] at hstep
  | finish t =>
      cases hphase : x.phases t with
      | answered slot =>
          cases slot with
          | true => simp [Server.step, hphase] at hstep
          | false =>
              simp only [Server.step, hphase] at hstep
              obtain rfl := Option.some.inj hstep
              exact .finished hphase
      | _ => simp [Server.step, hphase] at hstep

/-- What a request makes of the result of `issue`: it writes its answer, or it goes on to the
checks of a `/readyz`. -/
theorem resumed_cases (x : Server K) (t : ℕ) (visit : Visit) (index : ℕ)
    (answer : Except Error Envelope) :
    (∃ response, x.resumed h t visit index answer = x.respond t ⟨visit, some index, response⟩ true ∧
        (visit.request.route = .manifest → response = h.manifest visit.request answer)) ∨
      visit.request.route = .readyz ∧
        x.resumed h t visit index answer = x.put t (.checking visit index h.checks) := by
  unfold Server.resumed
  cases hroute : visit.request.route with
  | readyz =>
      cases answer with
      | error err => exact Or.inl ⟨_, rfl, fun hmanifest => by cases hmanifest⟩
      | ok envelope => exact Or.inr ⟨rfl, rfl⟩
  | _ => exact Or.inl ⟨_, rfl, fun _ => rfl⟩

end Handler

end CloudHelp.ManifestAPI
