import CloudHelp.PilotAPI

/-!
# The paths of the revocation route

An access is revoked with a `POST` to `/admin/pilot/access/`, its identifier and `/revoke`. The
handler tests the two ends of the path and trims them one after the other. The ends have the slash
in common, so the path `/admin/pilot/access/revoke` passes both tests, and what is left of it is the
word `revoke`: the service is asked to revoke an access of that name. It is the only such path, and
`pilotaccess.Service` refuses the word, because it is no UUID, before it asks its store.
-/

namespace CloudHelp.PilotAPI

open PilotAccess (Access)

variable {F : Type} {rt : Runtime} {lib : Library} {handler : Handler F} {request : Request}

structure RevokePath (id path : Bytes) : Prop where
  path_eq : path = accessPath ++ id ++ revokeEnd
  nonempty : id ≠ []
  one_segment : 47 ∉ id

/-- The path whose ends overlap. -/
def bareRevoke : Bytes := str "/admin/pilot/access/revoke"

theorem revokeEnd_eq : revokeEnd = str "/" ++ str "revoke" := by decide

theorem bareRevoke_eq : bareRevoke = accessPath ++ str "revoke" := by decide

/-! ## The identifier in a path -/

theorem identifier_of_revokePath {id path : Bytes} (h : RevokePath id path) :
    identifier path = id := by
  rw [h.path_eq]
  exact Affixes.between_append accessPath id revokeEnd

theorem RevokePath.ends {id path : Bytes} (h : RevokePath id path) :
    accessPath <+: path ∧ revokeEnd <:+ path := by
  rw [h.path_eq]
  constructor
  · rw [List.append_assoc]
    exact List.prefix_append _ _
  · exact List.suffix_append _ _

theorem overlap_eq_slash {shared : Bytes} (h : Affixes.IsOverlap accessPath revokeEnd shared) :
    shared = str "/" := by
  obtain ⟨hne, hfront, hback⟩ := h
  have hsome : ∀ s ∈ revokeEnd.inits, s ≠ [] → s <:+ accessPath → s = str "/" := by decide
  exact hsome shared ((List.mem_inits _ _).mpr hback) hne hfront

/-- A path with both ends has its identifier between them, unless it is `bareRevoke`. -/
theorem path_of_ends {path : Bytes} (hends : accessPath <+: path ∧ revokeEnd <:+ path)
    (hbare : path ≠ bareRevoke) : path = accessPath ++ identifier path ++ revokeEnd := by
  rcases Affixes.apart_or_overlap hends.1 hends.2 with h | ⟨shared, rest, hoverlap, hback, hpath, -⟩
  · exact h
  · obtain rfl := overlap_eq_slash hoverlap
    rw [revokeEnd_eq] at hback
    rw [← List.append_cancel_left hback, ← bareRevoke_eq] at hpath
    exact absurd hpath hbare

theorem identifier_bareRevoke : identifier bareRevoke = str "revoke" := by
  rw [bareRevoke_eq]
  exact Affixes.between_of_overlap (List.cons_ne_nil _ _) revokeEnd_eq

theorem ends_bareRevoke : accessPath <+: bareRevoke ∧ revokeEnd <:+ bareRevoke := by decide

theorem not_revokePath_bareRevoke (id : Bytes) : ¬RevokePath id bareRevoke := by
  intro h
  have hlength := congrArg List.length h.path_eq
  have hpos : 0 < id.length := List.length_pos_iff.mpr h.nonempty
  have hbare : bareRevoke.length = 26 := by decide
  have hfront : accessPath.length = 20 := by decide
  have hback : revokeEnd.length = 7 := by decide
  rw [List.length_append, List.length_append] at hlength
  omega

/-! ## What the handler does with a path -/

theorem calls_answer {α : Type} (logger : Bool) (call : Call) (operation : String) (status : ℕ)
    (render : α → Body F) (result : Except Error α) :
    (answer logger call operation status render result).calls = [call] := by
  cases result with
  | error err => rfl
  | ok value => rfl

theorem revoke_not_mem_calls_postJSON {α : Type} {id : Bytes}
    (decode : Reader → Except ReadError (α × Reader)) (serve : α → Outcome F)
    (hserve : ∀ input, Call.revoke id ∉ (serve input).calls) :
    Call.revoke id ∉ (postJSON lib decode request serve).calls := by
  unfold postJSON
  split_ifs
  · exact List.not_mem_nil
  · exact List.not_mem_nil
  · cases decodeStrict lib decode request.body with
    | ok input => exact hserve input
    | error err => cases err <;> exact List.not_mem_nil

/-- The other routes do not revoke. -/
theorem revoke_not_mem_calls (hends : ¬(accessPath <+: request.path ∧ revokeEnd <:+ request.path))
    (id : Bytes) : Call.revoke id ∉ (serveHTTP rt lib handler request).calls := by
  unfold serveHTTP
  rw [if_neg hends]
  split_ifs
  · apply revoke_not_mem_calls_postJSON
    intro input
    simp [calls_answer]
  · cases handler.telemetry with
    | none => exact List.not_mem_nil
    | some telemetry =>
        unfold serveTelemetry report
        dsimp only
        split_ifs
        · apply revoke_not_mem_calls_postJSON
          intro input
          simp [calls_answer]
        · exact List.not_mem_nil
        · simp [calls_answer]
        · exact List.not_mem_nil
  · exact List.not_mem_nil

theorem ne_of_below {path literal : Bytes} (hbelow : accessPath <+: path)
    (hliteral : ¬accessPath <+: literal) : path ≠ literal := by
  rintro rfl
  exact hliteral hbelow

/-- A path below `/admin/pilot/access/` belongs to the revocation or to nobody. -/
theorem serveHTTP_below (hauth : authorized rt handler request = true)
    (hbelow : accessPath <+: request.path) :
    serveHTTP rt lib handler request =
      if revokeEnd <:+ request.path then revoke handler request else notFound := by
  have haccess : request.path ≠ str "/admin/pilot/access" := ne_of_below hbelow (by decide)
  have hresults : request.path ≠ str "/admin/pilot/test-results" := ne_of_below hbelow (by decide)
  have hreport : request.path ≠ str "/admin/pilot/report" := ne_of_below hbelow (by decide)
  unfold serveHTTP
  rw [if_neg (not_not_intro hauth), if_neg haccess]
  by_cases hback : revokeEnd <:+ request.path
  · rw [if_pos ⟨hbelow, hback⟩, if_pos hback]
  · rw [if_neg fun h => hback h.2, if_neg hback]
    cases handler.telemetry with
    | none => rfl
    | some telemetry => exact (if_neg hresults).trans (if_neg hreport)

/-- The service is asked to revoke what lies between the ends, if that is one segment. -/
theorem calls_revoke (hpost : request.method = methodPost)
    (hne : identifier request.path ≠ []) (hsegment : 47 ∉ identifier request.path) :
    (revoke handler request).calls = [.revoke (identifier request.path)] := by
  unfold revoke
  rw [if_neg (not_not_intro hpost), if_neg (not_or.mpr ⟨hne, hsegment⟩)]
  exact calls_answer _ _ _ _ _ _

theorem revoke_eq_notFound (hpost : request.method = methodPost)
    (h : identifier request.path = [] ∨ 47 ∈ identifier request.path) :
    revoke handler request = notFound := by
  unfold revoke
  rw [if_neg (not_not_intro hpost), if_pos h]

theorem calls_of_revokePath (hauth : authorized rt handler request = true)
    (hpost : request.method = methodPost) {id : Bytes} (h : RevokePath id request.path) :
    (serveHTTP rt lib handler request).calls = [.revoke id] := by
  have hid := identifier_of_revokePath h
  rw [serveHTTP_below hauth h.ends.1, if_pos h.ends.2, calls_revoke hpost, hid]
  · rw [hid]
    exact h.nonempty
  · rw [hid]
    exact h.one_segment

theorem calls_bareRevoke (hauth : authorized rt handler request = true)
    (hpost : request.method = methodPost) (hpath : request.path = bareRevoke) :
    (serveHTTP rt lib handler request).calls = [.revoke (str "revoke")] := by
  have hid : identifier request.path = str "revoke" := hpath ▸ identifier_bareRevoke
  have hends := hpath ▸ ends_bareRevoke
  rw [serveHTTP_below hauth hends.1, if_pos hends.2, calls_revoke hpost, hid]
  · rw [hid]
    decide
  · rw [hid]
    decide

/-- Below `/admin/pilot/access/`, a path that asks for no revocation is not found. -/
theorem serveHTTP_eq_notFound (hauth : authorized rt handler request = true)
    (hpost : request.method = methodPost) (hbelow : accessPath <+: request.path)
    (hother : ∀ id, ¬RevokePath id request.path) (hbare : request.path ≠ bareRevoke) :
    serveHTTP rt lib handler request = notFound := by
  rw [serveHTTP_below hauth hbelow]
  by_cases hback : revokeEnd <:+ request.path
  · rw [if_pos hback]
    apply revoke_eq_notFound hpost
    by_contra hsegment
    obtain ⟨hne, hone⟩ := not_or.mp hsegment
    exact hother _ ⟨path_of_ends ⟨hbelow, hback⟩ hbare, hne, hone⟩
  · rw [if_neg hback]

/-! ## The route before `pilotaccess.Service` -/

structure Store where
  create : Access → Except Error Access
  revoke : Bytes → ℤ → Except Error Access

/-- The service checks what its store returns. -/
def checkStored (result : Except Error Access) : Except Error Access :=
  match result with
  | .error err => .error err
  | .ok access =>
      match PilotAccess.validate access with
      | .error err => .error (.wrap "pilot access: store returned invalid access: %w" [] err)
      | .ok () => .ok access

/-- `Register` and `Revoke` of `pilotaccess.Service` at the time `now`. -/
def accessService (store : Store) (now : ℤ) (newID : Except Error Bytes) : AccessService where
  register input :=
    match PilotAccess.beforeCreate input now newID with
    | .error err => .error err
    | .ok access => checkStored (store.create access)
  revoke id :=
    match PilotAccess.beforeRevoke id now with
    | .error err => .error err
    | .ok time => checkStored (store.revoke id time)

variable {store other : Store} {now : ℤ} {newID : Except Error Bytes}

theorem accessService_revoke_refused {id : Bytes} (h : PilotAccess.uuidPattern id = false) :
    (accessService store now newID).revoke id =
      .error (PilotAccess.invalid "access ID is invalid") := by
  simp [accessService, PilotAccess.beforeRevoke, h]

/-- The service refuses the word that is left of the bare path, whatever its store holds. -/
theorem status_bareRevoke (hauth : authorized rt handler request = true)
    (hpost : request.method = methodPost) (hpath : request.path = bareRevoke)
    (hservice : handler.service = accessService store now newID) :
    (serveHTTP rt lib handler request).status = 400 := by
  have hends := hpath ▸ ends_bareRevoke
  have hword : PilotAccess.uuidPattern (str "revoke") = false := by decide
  have hadmitted : ¬(str "revoke" = [] ∨ 47 ∈ str "revoke") := by decide
  rw [serveHTTP_below hauth hends.1, if_pos hends.2, revoke, if_neg (not_not_intro hpost), hpath,
    identifier_bareRevoke, if_neg hadmitted, hservice, accessService_revoke_refused hword]
  rfl

/-- The service asks its store for UUIDs only. -/
theorem accessService_revoke_congr {id : Bytes}
    (h : PilotAccess.uuidPattern id = true → ∀ time, store.revoke id time = other.revoke id time) :
    (accessService store now newID).revoke id = (accessService other now newID).revoke id := by
  by_cases huuid : PilotAccess.uuidPattern id = true
  · simp only [accessService, h huuid]
  · rw [accessService_revoke_refused (Bool.eq_false_of_not_eq_true huuid),
      accessService_revoke_refused (Bool.eq_false_of_not_eq_true huuid)]

def Handler.over (handler : Handler F) (store : Store) (now : ℤ) (newID : Except Error Bytes) :
    Handler F :=
  { handler with service := accessService store now newID }

theorem register_store_congr (hcreate : store.create = other.create) :
    register lib (handler.over store now newID) request =
      register lib (handler.over other now newID) request := by
  have hregister : (accessService store now newID).register =
      (accessService other now newID).register := by
    simp only [accessService, hcreate]
  simp only [register, Handler.over, hregister]

/-- The word of the bare path is no UUID, so a UUID in a path with both ends lies between them. -/
theorem revokePath_of_uuid (hends : accessPath <+: request.path ∧ revokeEnd <:+ request.path)
    (huuid : PilotAccess.uuidPattern (identifier request.path) = true)
    (hne : identifier request.path ≠ []) (hsegment : 47 ∉ identifier request.path) :
    RevokePath (identifier request.path) request.path := by
  have hbare : request.path ≠ bareRevoke := by
    intro hpath
    rw [hpath, identifier_bareRevoke] at huuid
    exact absurd huuid (by decide)
  exact ⟨path_of_ends hends hbare, hne, hsegment⟩

theorem revoke_store_congr (hends : accessPath <+: request.path ∧ revokeEnd <:+ request.path)
    (hrevoke : ∀ id, RevokePath id request.path → PilotAccess.uuidPattern id = true →
      ∀ time, store.revoke id time = other.revoke id time) :
    revoke (handler.over store now newID) request =
      revoke (handler.over other now newID) request := by
  unfold revoke
  by_cases hbad : identifier request.path = [] ∨ 47 ∈ identifier request.path
  · rw [if_pos hbad, if_pos hbad]
  · obtain ⟨hne, hsegment⟩ := not_or.mp hbad
    have hsame : (accessService store now newID).revoke (identifier request.path) =
        (accessService other now newID).revoke (identifier request.path) := by
      apply accessService_revoke_congr
      intro huuid
      exact hrevoke _ (revokePath_of_uuid hends huuid hne hsegment) huuid
    simp only [Handler.over, hsame]

/-- With `pilotaccess.Service` the store sees the grammar after all: two stores that agree on
registrations, and on the revocation of the UUID that the path asks for, give one answer. -/
theorem serveHTTP_store_congr (hcreate : store.create = other.create)
    (hrevoke : ∀ id, RevokePath id request.path → PilotAccess.uuidPattern id = true →
      ∀ time, store.revoke id time = other.revoke id time) :
    serveHTTP rt lib (handler.over store now newID) request =
      serveHTTP rt lib (handler.over other now newID) request := by
  unfold serveHTTP
  rw [register_store_congr hcreate]
  by_cases hends : accessPath <+: request.path ∧ revokeEnd <:+ request.path
  · rw [if_pos hends, if_pos hends, revoke_store_congr hends hrevoke]
    rfl
  · rw [if_neg hends, if_neg hends]
    rfl

/-! ### A handler to try -/

def sampleLibrary : Library where
  toLower := PilotAccess.toLower
  parseMediaType := some
  decodeRegister reader := .error reader.ending
  decodeTestResult reader := .error reader.ending
  decodeAny reader := .error reader.ending

def sampleStore : Store where
  create access := .ok access
  revoke _ _ := .error (.wrap "%w: revoke" [] PilotAccess.errNotFound)

def sampleToken : Bytes := str "0123456789abcdef0123456789abcdef"

def sampleHandler : Handler Unit where
  service := accessService sampleStore 0 (.error (.library "no entropy"))
  telemetry := none
  token := Runtime.toy.sha256 sampleToken
  logger := true

def samplePost (path : Bytes) : Request where
  method := methodPost
  path := path
  authorization := str "Bearer " ++ sampleToken
  contentType := []
  body := []

def sampleRevoke : Bytes :=
  str "/admin/pilot/access/123e4567-e89b-42d3-a456-426614174000/revoke"

/-! ## The grammar of the route -/

/-- The outcome of a request follows the grammar: `Revoke` is called for the paths that ask for a
revocation and with their identifier, and any other path below `/admin/pilot/access/` is answered
404 without a call. -/
structure FollowsGrammar (path : Bytes) (outcome : Outcome F) : Prop where
  calls_iff : ∀ id, Call.revoke id ∈ outcome.calls ↔ RevokePath id path
  others : accessPath <+: path → (∀ id, ¬RevokePath id path) →
    outcome.calls = [] ∧ outcome.status = 404

theorem mem_calls_iff (hauth : authorized rt handler request = true)
    (hpost : request.method = methodPost) (hbare : request.path ≠ bareRevoke) (id : Bytes) :
    Call.revoke id ∈ (serveHTTP rt lib handler request).calls ↔ RevokePath id request.path := by
  constructor
  · intro hmem
    by_cases hends : accessPath <+: request.path ∧ revokeEnd <:+ request.path
    · by_cases hother : ∀ other, ¬RevokePath other request.path
      · rw [serveHTTP_eq_notFound hauth hpost hends.1 hother hbare] at hmem
        exact absurd hmem List.not_mem_nil
      · obtain ⟨other, hrevoke⟩ := not_forall_not.mp hother
        rw [calls_of_revokePath hauth hpost hrevoke] at hmem
        obtain rfl : id = other := by simpa using hmem
        exact hrevoke
    · exact absurd hmem (revoke_not_mem_calls hends id)
  · intro hrevoke
    rw [calls_of_revokePath hauth hpost hrevoke]
    exact List.mem_cons_self

/-- An authorised `POST` follows the grammar, whatever its path, headers and body are and whatever
the services answer, exactly if its path is not `/admin/pilot/access/revoke`. -/
theorem follows_grammar_iff (hauth : authorized rt handler request = true)
    (hpost : request.method = methodPost) :
    FollowsGrammar request.path (serveHTTP rt lib handler request) ↔
      request.path ≠ bareRevoke := by
  constructor
  · intro hgrammar hpath
    have hmem : Call.revoke (str "revoke") ∈ (serveHTTP rt lib handler request).calls := by
      rw [calls_bareRevoke hauth hpost hpath]
      exact List.mem_cons_self
    have hrevoke := (hgrammar.calls_iff _).mp hmem
    rw [hpath] at hrevoke
    exact not_revokePath_bareRevoke _ hrevoke
  · intro hbare
    constructor
    · exact mem_calls_iff hauth hpost hbare
    · intro hbelow hother
      rw [serveHTTP_eq_notFound hauth hpost hbelow hother hbare]
      exact ⟨rfl, rfl⟩

theorem follows_grammar_uuid :
    authorized Runtime.toy sampleHandler (samplePost sampleRevoke) = true ∧
      FollowsGrammar sampleRevoke
        (serveHTTP Runtime.toy sampleLibrary sampleHandler (samplePost sampleRevoke)) :=
  have hauth : authorized Runtime.toy sampleHandler (samplePost sampleRevoke) = true := by
    decide
  ⟨hauth, (follows_grammar_iff hauth rfl).mpr (by decide)⟩

/-- The path without an identifier reaches the service, which is asked to revoke `revoke`; the
answer is 400 and not 404. -/
theorem bareRevoke_reaches_service :
    authorized Runtime.toy sampleHandler (samplePost bareRevoke) = true ∧
      accessPath <+: bareRevoke ∧ (∀ id, ¬RevokePath id bareRevoke) ∧
      (serveHTTP Runtime.toy sampleLibrary sampleHandler (samplePost bareRevoke)).calls =
        [.revoke (str "revoke")] ∧
      (serveHTTP Runtime.toy sampleLibrary sampleHandler (samplePost bareRevoke)).status = 400 := by
  have hauth : authorized Runtime.toy sampleHandler (samplePost bareRevoke) = true := by
    decide
  have hservice : sampleHandler.service =
      accessService sampleStore 0 (.error (.library "no entropy")) := rfl
  exact ⟨hauth, ends_bareRevoke.1, not_revokePath_bareRevoke, calls_bareRevoke hauth rfl rfl,
    status_bareRevoke hauth rfl rfl hservice⟩

end CloudHelp.PilotAPI
