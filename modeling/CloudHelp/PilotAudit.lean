import CloudHelp.PilotStore

/-!
# Access records and the audit log agree

What the component is for: an access is absent, active or revoked, it only ever moves forward
through these three, and the audit log holds one event for each move. `Life` says this for one
access by itself. The tables of the store represent a ledger of lives (`Represents`), and every
run of the calls moves each life forward or not at all.

The invariant of a call in progress (`Stands`) says what its transaction has written and what it has
locked the row against. Other calls cannot disturb it: they write other keys, and a revoked row is
never written.
-/

namespace CloudHelp.PilotAccess

/-! ## The life of an access -/

structure Granted where
  access : Access
  active : access.status = .active
  unrevoked : access.revokedAt = none

inductive Life where
  | absent
  | active (granted : Granted)
  | revoked (granted : Granted) (time : ℤ)

namespace Life

inductive Next : Life → Life → Prop where
  | register (granted : Granted) : Next .absent (.active granted)
  | revoke (granted : Granted) (time : ℤ) : Next (.active granted) (.revoked granted time)

def Later : Life → Life → Prop := Relation.ReflTransGen Next

def row : Life → Option Access
  | .absent => none
  | .active granted => some granted.access
  | .revoked granted time => some (granted.access.revokeAt time)

def log : Life → List AuditAction
  | .absent => []
  | .active _ => [.pilotAccessRegistered]
  | .revoked _ _ => [.pilotAccessRegistered, .pilotAccessRevoked]

/-- Nothing comes after a revocation. -/
theorem Later.eq_of_revoked {life : Life} {granted : Granted} {time : ℤ}
    (h : Later (.revoked granted time) life) : life = .revoked granted time := by
  induction h with
  | refl => rfl
  | tail _ hnext ih =>
      subst ih
      cases hnext

theorem eq_absent_of_row {life : Life} (h : life.row = none) : life = .absent := by
  cases life with
  | absent => rfl
  | active granted => cases h
  | revoked granted time => cases h

theorem eq_active_of_row {life : Life} {a : Access} (h : life.row = some a)
    (hstatus : a.status = .active) : ∃ granted, life = .active granted ∧ granted.access = a := by
  cases life with
  | absent => cases h
  | active granted => exact ⟨granted, rfl, Option.some.inj h⟩
  | revoked granted time =>
      obtain rfl := Option.some.inj h
      cases hstatus

theorem eq_revoked_of_row {life : Life} {a : Access} (h : life.row = some a)
    (hstatus : a.status = .revoked) : ∃ granted time, life = .revoked granted time := by
  cases life with
  | absent => cases h
  | active granted =>
      obtain rfl := Option.some.inj h
      rw [granted.active] at hstatus
      cases hstatus
  | revoked granted time => exact ⟨granted, time, rfl⟩

theorem status_of_row {life : Life} {a : Access} (h : life.row = some a) :
    a.status = .active ∨ a.status = .revoked := by
  cases life with
  | absent => cases h
  | active granted =>
      obtain rfl := Option.some.inj h
      exact Or.inl granted.active
  | revoked granted time =>
      obtain rfl := Option.some.inj h
      exact Or.inr rfl

end Life

/-! ## The ledger in the tables -/

def events (rows : Rows Row) (action : AuditAction) (id : Bytes) : Set Bytes :=
  {auditID | ∃ event : AuditEvent, rows (.event auditID) = some event ∧ event.action = action ∧
    event.objectID = id}

theorem mem_events {rows : Rows Row} {action : AuditAction} {id auditID : Bytes} :
    auditID ∈ events rows action id ↔ ∃ event : AuditEvent, rows (.event auditID) = some event ∧
      event.action = action ∧ event.objectID = id :=
  Iff.rfl

structure Represents (rows : Rows Row) (ledger : Bytes → Life) : Prop where
  row : ∀ id, rows (.access id) = (ledger id).row
  id : ∀ id (a : Access), rows (.access id) = some a → a.id = id
  events : ∀ id action, (events rows action id).encard = (ledger id).log.count action

theorem represents_empty : Represents (fun _ => none) fun _ => .absent where
  row _ := rfl
  id _ _ h := by cases h
  events id action := by simp [PilotAccess.events, Life.log]

/-! ## What a transaction holds -/

section Owns

variable {C : Type} [DecidableEq C] {db : Tables C} {c : C} {access : Option Access}
  {event : Option (Bytes × AuditEvent)} {a : Access} {auditID : Bytes} {e : AuditEvent}

structure Owns (db : Tables C) (c : C) (access : Option Access)
    (event : Option (Bytes × AuditEvent)) : Prop where
  access : ∀ id, db.own c (.access id) = access.filter fun a => a.id = id
  event : ∀ auditID, db.own c (.event auditID) =
    (event.filter fun p => p.1 = auditID).map Prod.snd

theorem owns_of_own_eq (h : db.own c = fun _ => none) : Owns db c none none :=
  ⟨fun _ => congrFun h _, fun _ => congrFun h _⟩

theorem Owns.congr {db' : Tables C} (h : Owns db c access event) (he : db'.own c = db.own c) :
    Owns db' c access event := by
  constructor
  · intro id
    rw [he]
    exact h.access id
  · intro auditID
    rw [he]
    exact h.event auditID

theorem Owns.own_access (h : Owns db c (some a) event) : db.own c (.access a.id) = some a := by
  rw [h.access, Option.filter_some, if_pos (by simp)]

theorem Owns.own_event (h : Owns db c access (some (auditID, e))) :
    db.own c (.event auditID) = some e := by
  rw [h.event, Option.filter_some, if_pos (by simp), Option.map_some]

theorem Owns.visible_access (h : Owns db c none event) (id : Bytes) :
    db.visible c (.access id) = db.committed (.access id) :=
  Database.visible_of_own_none (h.access id)

theorem Owns.visible_event (h : Owns db c access none) (auditID : Bytes) :
    db.visible c (.event auditID) = db.committed (.event auditID) :=
  Database.visible_of_own_none (h.event auditID)

theorem Owns.write_access (h : Owns db c none event) :
    Owns (db.write c (.access a.id) a) c (some a) event := by
  constructor
  · intro id
    rw [Database.own_write_self]
    by_cases hid : id = a.id
    · subst hid
      rw [Function.update_self, Option.filter_some, if_pos (by simp)]
    · rw [Function.update_of_ne (by simpa using hid), h.access, Option.filter_some,
        if_neg (by simpa using Ne.symm hid)]
      rfl
  · intro auditID
    rw [Database.own_write_self, Function.update_of_ne (by simp)]
    exact h.event auditID

theorem Owns.write_reference (h : Owns db c access event) (id : Bytes) :
    Owns (db.write c a.reference id) c access event := by
  constructor
  · intro id'
    rw [Database.own_write_self, Function.update_of_ne (by simp [Access.reference])]
    exact h.access id'
  · intro auditID
    rw [Database.own_write_self, Function.update_of_ne (by simp [Access.reference])]
    exact h.event auditID

theorem Owns.write_event (h : Owns db c access none) :
    Owns (db.write c (.event auditID) e) c access (some (auditID, e)) := by
  constructor
  · intro id
    rw [Database.own_write_self, Function.update_of_ne (by simp)]
    exact h.access id
  · intro auditID'
    rw [Database.own_write_self]
    by_cases hid : auditID' = auditID
    · subst hid
      rw [Function.update_self, Option.filter_some, if_pos (by simp), Option.map_some]
    · rw [Function.update_of_ne (by simpa using hid), h.event, Option.filter_some,
        if_neg (by simpa using Ne.symm hid)]
      rfl

/-! ### Its commit -/

theorem Owns.commit_access (h : Owns db c (some a) event) :
    (db.commit c).committed (.access a.id) = some a := by
  rw [Database.committed_commit, Rows.over, h.own_access, Option.some_or]

theorem Owns.commit_access_of_ne (h : Owns db c (some a) event) {id : Bytes} (hid : id ≠ a.id) :
    (db.commit c).committed (.access id) = db.committed (.access id) := by
  apply Database.committed_commit_of_none
  rw [h.access, Option.filter_some, if_neg (by simpa using Ne.symm hid)]

theorem Owns.commit_events_none (h : Owns db c access none) (action : AuditAction) (id : Bytes) :
    events (db.commit c).committed action id = events db.committed action id := by
  have hevent : ∀ auditID, (db.commit c).committed (.event auditID) =
      db.committed (.event auditID) :=
    fun auditID => Database.committed_commit_of_none (h.event auditID)
  simp only [events, hevent]

/-- The new event is added to the events of its own action and access. -/
theorem Owns.commit_events (h : Owns db c access (some (auditID, e)))
    (hfresh : db.committed (.event auditID) = none) (action : AuditAction) (id : Bytes) :
    events (db.commit c).committed action id =
      if e.action = action ∧ e.objectID = id then insert auditID (events db.committed action id)
      else events db.committed action id := by
  have hnew : (db.commit c).committed (.event auditID) = some e := by
    rw [Database.committed_commit, Rows.over, h.own_event]
    rfl
  have hold : ∀ auditID', auditID' ≠ auditID →
      (db.commit c).committed (.event auditID') = db.committed (.event auditID') := by
    intro auditID' hne
    apply Database.committed_commit_of_none
    rw [h.event, Option.filter_some, if_neg (by simpa using Ne.symm hne)]
    rfl
  ext auditID'
  by_cases hid : auditID' = auditID
  · subst hid
    split_ifs with he
    · simp [mem_events, hnew, he]
    · simp [mem_events, hnew, hfresh, he]
  · split_ifs with he
    · simp [mem_events, hold auditID' hid, hid]
    · simp [mem_events, hold auditID' hid]

end Owns

/-! ## A call in progress -/

section Stands

variable {C : Type} [DecidableEq C]

/-- What holds of the tables while a call is about to run its next statement, and after its end. -/
inductive Stands (db : Tables C) (c : C) : Request → Phase → Prop where
  | insertAccess {input : RegisterInput} {auditID : Bytes} (granted : Granted)
      (own : Owns db c none none) :
      Stands db c (.register input) (.insertAccess granted.access auditID)
  | auditCreate {input : RegisterInput} {auditID : Bytes} (granted : Granted)
      (own : Owns db c (some granted.access) none)
      (absent : db.committed (.access granted.access.id) = none) :
      Stands db c (.register input) (.auditCreate granted.access auditID)
  | commitCreate {input : RegisterInput} {auditID : Bytes} (granted : Granted)
      (own : Owns db c (some granted.access) (some (auditID, registered granted.access)))
      (absent : db.committed (.access granted.access.id) = none)
      (fresh : db.committed (.event auditID) = none) :
      Stands db c (.register input) (.commitCreate granted.access)
  | update {id auditID : Bytes} {time : ℤ} (own : Owns db c none none) :
      Stands db c (.revoke id) (.update id time auditID)
  | lockRow {id auditID : Bytes} {time : ℤ} (own : Owns db c none none) :
      Stands db c (.revoke id) (.lockRow id time auditID)
  | selectRevoked {id : Bytes} (own : Owns db c none none) :
      Stands db c (.revoke id) (.selectRevoked id)
  | commitRetry {id : Bytes} {result : Access} (own : Owns db c none none)
      (row : db.committed (.access id) = some result) (status : result.status = .revoked) :
      Stands db c (.revoke id) (.commitRetry result)
  | auditRevoke {id auditID : Bytes} {time : ℤ} (granted : Granted)
      (own : Owns db c (some (granted.access.revokeAt time)) none) (hid : granted.access.id = id)
      (row : db.committed (.access id) = some granted.access) :
      Stands db c (.revoke id) (.auditRevoke (granted.access.revokeAt time) auditID)
  | commitRevoke {id auditID : Bytes} {time : ℤ} (granted : Granted)
      (own : Owns db c (some (granted.access.revokeAt time))
        (some (auditID, revoked (granted.access.revokeAt time))))
      (hid : granted.access.id = id) (row : db.committed (.access id) = some granted.access)
      (fresh : db.committed (.event auditID) = none) :
      Stands db c (.revoke id) (.commitRevoke (granted.access.revokeAt time))
  | failed {request : Request} (error : Error) : Stands db c request (.failed error)
  | registered {input : RegisterInput} {ending : Ending} (own : Owns db c none none) :
      Stands db c (.register input) (.done ending)
  | revoked {id : Bytes} {ending : Ending} (own : Owns db c none none)
      (row : ∀ result, ending = .returned result →
        db.committed (.access id) = some result ∧ result.status = .revoked) :
      Stands db c (.revoke id) (.done ending)

variable {db db' : Tables C} {c u : C} {request : Request} {phase phase' : Phase}

/-- Another call's step keeps what a call holds, the rows it has locked and the revoked rows. -/
structure Undisturbed (db db' : Tables C) (u : C) : Prop where
  own : db'.own u = db.own u
  locked : ∀ k (v : Row k), db.own u k = some v → db'.committed k = db.committed k
  revoked : ∀ id (a : Access), db.committed (.access id) = some a → a.status = .revoked →
    db'.committed (.access id) = some a

theorem Stands.undisturbed (h : Stands db u request phase) (hd : Undisturbed db db' u) :
    Stands db' u request phase := by
  cases h with
  | insertAccess granted own => exact .insertAccess granted (own.congr hd.own)
  | auditCreate granted own absent =>
      refine .auditCreate granted (own.congr hd.own) ?_
      rw [hd.locked _ _ own.own_access, absent]
  | commitCreate granted own absent fresh =>
      refine .commitCreate granted (own.congr hd.own) ?_ ?_
      · rw [hd.locked _ _ own.own_access, absent]
      · rw [hd.locked _ _ own.own_event, fresh]
  | update own => exact .update (own.congr hd.own)
  | lockRow own => exact .lockRow (own.congr hd.own)
  | selectRevoked own => exact .selectRevoked (own.congr hd.own)
  | commitRetry own row status =>
      exact .commitRetry (own.congr hd.own) (hd.revoked _ _ row status) status
  | auditRevoke granted own hid row =>
      refine .auditRevoke granted (own.congr hd.own) hid ?_
      subst hid
      exact (hd.locked _ _ own.own_access).trans row
  | commitRevoke granted own hid row fresh =>
      refine .commitRevoke granted (own.congr hd.own) hid ?_ ?_
      · subst hid
        exact (hd.locked _ _ own.own_access).trans row
      · rw [hd.locked _ _ own.own_event, fresh]
  | failed error => exact .failed error
  | registered own => exact .registered (own.congr hd.own)
  | revoked own row =>
      refine .revoked (own.congr hd.own) fun result hresult => ?_
      obtain ⟨hrow, hstatus⟩ := row result hresult
      exact ⟨hd.revoked _ _ hrow hstatus, hstatus⟩

/-! ## Statements -/

structure Quiet (db db' : Tables C) (c : C) : Prop where
  committed : db'.committed = db.committed
  own : ∀ u, u ≠ c → db'.own u = db.own u

theorem Quiet.refl (db : Tables C) (c : C) : Quiet db db c := ⟨rfl, fun _ _ => rfl⟩

theorem Quiet.write {k : Key} {v : Row k} (h : db.Free c k) : Quiet db (db.write c k v) c :=
  ⟨rfl, fun _ hu => Database.own_write_of_ne hu h⟩

theorem Quiet.trans {db₁ db₂ : Tables C} (h : Quiet db db₁ c) (h' : Quiet db₁ db₂ c) :
    Quiet db db₂ c :=
  ⟨h'.committed.trans h.committed, fun u hu => (h'.own u hu).trans (h.own u hu)⟩

theorem Quiet.undisturbed (h : Quiet db db' c) (hu : u ≠ c) : Undisturbed db db' u where
  own := h.own u hu
  locked k v _ := by rw [h.committed]
  revoked id a ha _ := by rw [h.committed, ha]

theorem insertAccess_spec {granted : Granted} {auditID : Bytes} {input : RegisterInput}
    (hown : Owns db c none none)
    (h : insertAccess db c granted.access auditID = some (db', phase')) :
    Quiet db db' c ∧ Stands db' c (.register input) phase' := by
  unfold insertAccess at h
  cases hrow : rowViolation granted.access with
  | some code =>
      simp only [hrow, Option.some.injEq, Prod.mk.injEq] at h
      obtain ⟨rfl, rfl⟩ := h
      exact ⟨Quiet.refl db c, .failed _⟩
  | none =>
      simp only [hrow] at h
      split_ifs at h with hfree hdup
      · simp only [Option.some.injEq, Prod.mk.injEq] at h
        obtain ⟨rfl, rfl⟩ := h
        exact ⟨Quiet.refl db c, .failed _⟩
      · simp only [Option.some.injEq, Prod.mk.injEq] at h
        obtain ⟨rfl, rfl⟩ := h
        refine ⟨(Quiet.write hfree.1).trans (Quiet.write hfree.2.write), ?_⟩
        refine .auditCreate granted (hown.write_access.write_reference _) ?_
        rw [not_or, hown.visible_access, Option.not_isSome_iff_eq_none] at hdup
        exact hdup.1

/-- The audit event is new, or the statement fails. -/
theorem insertEvent_spec {auditID : Bytes} {event : AuditEvent} {format : String} {next : Phase}
    {access : Option Access} (hown : Owns db c access none)
    (hnext : ∀ db₁ : Tables C, db₁.committed = db.committed →
      Owns db₁ c access (some (auditID, event)) → db.committed (.event auditID) = none →
        Stands db₁ c request next)
    (h : insertEvent db c auditID event format next = some (db', phase')) :
    Quiet db db' c ∧ Stands db' c request phase' := by
  unfold insertEvent at h
  split_ifs at h with hfree hdup
  · simp only [Option.some.injEq, Prod.mk.injEq] at h
    obtain ⟨rfl, rfl⟩ := h
    exact ⟨Quiet.refl db c, .failed _⟩
  · simp only [Option.some.injEq, Prod.mk.injEq] at h
    obtain ⟨rfl, rfl⟩ := h
    rw [hown.visible_event, Option.not_isSome_iff_eq_none] at hdup
    exact ⟨Quiet.write hfree, hnext _ rfl hown.write_event hdup⟩

theorem scanActive_spec {id auditID : Bytes} {time : ℤ} (hown : Owns db c none none)
    (h : scanActive db c id time auditID = (db', phase')) :
    Quiet db db' c ∧ Stands db' c (.revoke id) phase' := by
  unfold scanActive at h
  split at h
  · obtain ⟨rfl, rfl⟩ := Prod.mk.inj h
    exact ⟨Quiet.refl db c, .selectRevoked hown⟩
  · split_ifs at h
    · obtain ⟨rfl, rfl⟩ := Prod.mk.inj h
      exact ⟨Quiet.refl db c, .lockRow hown⟩
    · obtain ⟨rfl, rfl⟩ := Prod.mk.inj h
      exact ⟨Quiet.refl db c, .selectRevoked hown⟩

theorem updateActive_spec {id auditID : Bytes} {time : ℤ} {ledger : Bytes → Life}
    (hledger : Represents db.committed ledger) (hown : Owns db c none none)
    (h : updateActive db c id time auditID = some (db', phase')) :
    Quiet db db' c ∧ Stands db' c (.revoke id) phase' := by
  unfold updateActive at h
  split_ifs at h with hfree
  rw [hown.visible_access] at h
  cases hrow : db.committed (.access id) with
  | none =>
      simp only [hrow, Option.some.injEq, Prod.mk.injEq] at h
      obtain ⟨rfl, rfl⟩ := h
      exact ⟨Quiet.refl db c, .selectRevoked hown⟩
  | some row =>
      simp only [hrow] at h
      split_ifs at h with hstatus
      · simp only [Option.some.injEq, Prod.mk.injEq] at h
        obtain ⟨rfl, rfl⟩ := h
        exact ⟨Quiet.refl db c, .selectRevoked hown⟩
      · rw [ne_eq, not_not] at hstatus
        -- the locked row is the one that was registered
        obtain ⟨granted, hlife, rfl⟩ :=
          Life.eq_active_of_row ((hledger.row id).symm.trans hrow) hstatus
        have hid : granted.access.id = id := hledger.id id _ hrow
        cases hviolation : rowViolation (granted.access.revokeAt time) with
        | some code =>
            simp only [hviolation, Option.some.injEq, Prod.mk.injEq] at h
            obtain ⟨rfl, rfl⟩ := h
            exact ⟨Quiet.refl db c, .failed _⟩
        | none =>
            simp only [hviolation, Option.some.injEq, Prod.mk.injEq] at h
            obtain ⟨rfl, rfl⟩ := h
            subst hid
            exact ⟨Quiet.write hfree, .auditRevoke granted
              (hown.write_access (a := granted.access.revokeAt time)) rfl hrow⟩

theorem selectRevoked_spec {id : Bytes} (hown : Owns db c none none) :
    Stands db c (.revoke id) (selectRevoked db c id) := by
  unfold selectRevoked
  rw [hown.visible_access]
  cases hrow : db.committed (.access id) with
  | none => exact .failed _
  | some row =>
      simp only
      split_ifs with hstatus
      · exact .commitRetry hown hrow hstatus
      · exact .failed _

theorem execute_spec {ledger : Bytes → Life} (hledger : Represents db.committed ledger)
    (hs : Stands db c request phase) (h : execute db c phase = some (db', phase')) :
    Quiet db db' c ∧ Stands db' c request phase' := by
  cases hs with
  | insertAccess granted own => exact insertAccess_spec own h
  | auditCreate granted own absent =>
      refine insertEvent_spec own (fun db₁ hcommitted hown hfresh => ?_) h
      exact .commitCreate granted hown (by rw [hcommitted, absent]) (by rw [hcommitted, hfresh])
  | update own => exact scanActive_spec own (Option.some.inj h)
  | lockRow own => exact updateActive_spec hledger own h
  | selectRevoked own =>
      obtain ⟨rfl, rfl⟩ := Prod.mk.inj (Option.some.inj h)
      exact ⟨Quiet.refl db c, selectRevoked_spec own⟩
  | auditRevoke granted own hid row =>
      refine insertEvent_spec own (fun db₁ hcommitted hown hfresh => ?_) h
      exact .commitRevoke granted hown hid (by rw [hcommitted, row]) (by rw [hcommitted, hfresh])
  | commitCreate => cases h
  | commitRetry => cases h
  | commitRevoke => cases h
  | failed => cases h
  | registered => cases h
  | revoked => cases h

/-! ## Commits -/

/-- A committed record with its event is one move of one life. -/
theorem Represents.move {ledger : Bytes → Life} {a : Access} {auditID : Bytes} {e : AuditEvent}
    (h : Represents db.committed ledger) (life : Life)
    (hown : Owns db c (some a) (some (auditID, e))) (hfresh : db.committed (.event auditID) = none)
    (hobject : e.objectID = a.id) (hrow : life.row = some a)
    (hlog : life.log = (ledger a.id).log ++ [e.action]) :
    Represents (db.commit c).committed (Function.update ledger a.id life) := by
  constructor
  · intro id
    by_cases hid : id = a.id
    · subst hid
      rw [hown.commit_access, Function.update_self, hrow]
    · rw [hown.commit_access_of_ne hid, Function.update_of_ne hid, h.row]
  · intro id b hb
    by_cases hid : id = a.id
    · subst hid
      rw [hown.commit_access] at hb
      rw [Option.some.inj hb]
    · rw [hown.commit_access_of_ne hid] at hb
      exact h.id id b hb
  · intro id action
    have hnot : auditID ∉ PilotAccess.events db.committed action id := by
      simp [mem_events, hfresh]
    rw [hown.commit_events hfresh, hobject]
    by_cases hid : id = a.id
    · subst hid
      rw [Function.update_self, hlog, List.count_append]
      by_cases haction : e.action = action
      · rw [if_pos ⟨haction, rfl⟩, Set.encard_insert_of_notMem hnot, h.events]
        simp [haction]
      · rw [if_neg (fun he => haction he.1), h.events]
        simp [haction]
    · rw [Function.update_of_ne hid, if_neg (fun he => hid he.2.symm), h.events]

theorem later_update {ledger : Bytes → Life} {id : Bytes} {life : Life}
    (h : Life.Next (ledger id) life) (id' : Bytes) :
    Life.Later (ledger id') (Function.update ledger id life id') := by
  by_cases hid : id' = id
  · subst hid
    rw [Function.update_self]
    exact Relation.ReflTransGen.single h
  · rw [Function.update_of_ne hid]
    exact Relation.ReflTransGen.refl

/-- A commit moves the ledger forward; the record a revocation is about to return is then the
committed one. -/
theorem commit_spec {ledger : Bytes → Life} {result : Access} {format : String}
    (hledger : Represents db.committed ledger) (hs : Stands db c request phase)
    (h : committing phase = some (result, format)) :
    (∃ ledger', Represents (db.commit c).committed ledger' ∧
        ∀ id, Life.Later (ledger id) (ledger' id)) ∧
      ∀ id, request = .revoke id →
        (db.commit c).committed (.access id) = some result ∧ result.status = .revoked := by
  cases hs with
  | commitCreate granted own absent fresh =>
      have habsent : ledger granted.access.id = .absent :=
        Life.eq_absent_of_row ((hledger.row _).symm.trans absent)
      refine ⟨⟨_, hledger.move (.active granted) own fresh rfl rfl (by rw [habsent]; rfl),
        later_update (by rw [habsent]; exact .register granted)⟩, ?_⟩
      intro id hid
      cases hid
  | commitRetry own row status =>
      simp only [committing, Option.some.injEq, Prod.mk.injEq] at h
      obtain ⟨rfl, _⟩ := h
      have hrow : ∀ id, (db.commit c).committed (.access id) = db.committed (.access id) :=
        fun id => Database.committed_commit_of_none (own.access id)
      refine ⟨⟨ledger, ?_, fun id => Relation.ReflTransGen.refl⟩, ?_⟩
      · constructor
        · intro id
          rw [hrow, hledger.row]
        · intro id a ha
          rw [hrow] at ha
          exact hledger.id id a ha
        · intro id action
          rw [own.commit_events_none, hledger.events]
      · rintro id hid
        cases hid
        exact ⟨(hrow _).trans row, status⟩
  | @commitRevoke id auditID time granted own hid row fresh =>
      simp only [committing, Option.some.injEq, Prod.mk.injEq] at h
      obtain ⟨rfl, _⟩ := h
      subst hid
      obtain ⟨granted', hlife, hgranted⟩ :=
        Life.eq_active_of_row ((hledger.row _).symm.trans row) granted.active
      refine ⟨⟨_, hledger.move (.revoked granted' time) own fresh rfl ?_ ?_,
        later_update ?_⟩, ?_⟩
      · simp only [Life.row, hgranted]
      · change _ = (ledger granted.access.id).log ++ _
        rw [hlife]
        rfl
      · change Life.Next (ledger granted.access.id) _
        rw [hlife]
        exact .revoke granted' time
      · rintro id hid
        cases hid
        exact ⟨own.commit_access, rfl⟩
  | insertAccess => cases h
  | auditCreate => cases h
  | update => cases h
  | lockRow => cases h
  | selectRevoked => cases h
  | auditRevoke => cases h
  | failed => cases h
  | registered => cases h
  | revoked => cases h

/-! ## Steps of a call -/

theorem Represents.revoked_stays {rows rows' : Rows Row} {ledger ledger' : Bytes → Life}
    (h : Represents rows ledger) (h' : Represents rows' ledger')
    (hlater : ∀ id, Life.Later (ledger id) (ledger' id)) (id : Bytes) (a : Access)
    (ha : rows (.access id) = some a) (hstatus : a.status = .revoked) :
    rows' (.access id) = some a := by
  have hrow : (ledger id).row = some a := (h.row id).symm.trans ha
  obtain ⟨granted, time, hlife⟩ := Life.eq_revoked_of_row hrow hstatus
  have hstay : ledger' id = .revoked granted time := (hlife ▸ hlater id).eq_of_revoked
  rw [h'.row, hstay, ← hlife, hrow]

theorem finish_ne_refused (result : Access) (e : Error) : finish result ≠ .refused e := by
  unfold finish
  split <;> simp

theorem finish_eq_returned {result a : Access} (h : finish result = .returned a) : a = result := by
  unfold finish at h
  split at h
  · exact (Ending.returned.inj h).symm
  · cases h

theorem begin_stands (hown : Owns db c none none) (around : Surroundings) :
    Stands db c request (begin request around) := by
  unfold begin
  cases request with
  | register input =>
      simp only
      split
      · exact .registered hown
      · rename_i access hbefore
        obtain ⟨_, hactive, hunrevoked⟩ := beforeCreate_eq_ok hbefore
        split
        · exact .registered hown
        · split
          · exact .registered hown
          · exact .insertAccess ⟨access, hactive, hunrevoked⟩ hown
  | revoke id =>
      have hrefused : ∀ e, Stands db c (.revoke id) (.done (.refused e)) :=
        fun e => .revoked hown fun result h => by cases h
      simp only
      split
      · exact hrefused _
      · split
        · exact hrefused _
        · split
          · exact hrefused _
          · exact .update hown

/-- The end of a call that has nothing to show. -/
theorem stands_done (hown : Owns db c none none) {ending : Ending}
    (h : ∀ result, ending ≠ .returned result) : Stands db c request (.done ending) := by
  cases request with
  | register input => exact .registered hown
  | revoke id => exact .revoked hown fun result hresult => absurd hresult (h result)

/-- What one step of a call does to its own standing, to the other calls and to the ledger. -/
structure Advance (db db' : Tables C) (c : C) (ledger : Bytes → Life) (request : Request)
    (phase : Phase) : Prop where
  stands : Stands db' c request phase
  others : ∀ u, u ≠ c → Undisturbed db db' u
  ledger : ∃ ledger', Represents db'.committed ledger' ∧ ∀ id, Life.Later (ledger id) (ledger' id)
  settled : db'.committed = db.committed ∨
    ∃ ending, phase = .done ending ∧ ∀ e, ending ≠ .refused e

theorem Advance.of_quiet {ledger : Bytes → Life} (hledger : Represents db.committed ledger)
    (hquiet : Quiet db db' c) (hs : Stands db' c request phase) :
    Advance db db' c ledger request phase where
  stands := hs
  others _ hu := hquiet.undisturbed hu
  ledger := ⟨ledger, hquiet.committed ▸ hledger, fun _ => Relation.ReflTransGen.refl⟩
  settled := Or.inl hquiet.committed

theorem quiet_rollback : Quiet db (db.rollback c) c :=
  ⟨rfl, fun _ hu => Database.own_rollback_of_ne hu⟩

theorem advance_commit {ledger : Bytes → Life} {result : Access} {format : String}
    (hledger : Represents db.committed ledger) (hs : Stands db c request phase)
    (h : committing phase = some (result, format)) (reply : CommitReply) :
    Advance db (commit db c result format reply).1 c ledger request
      (.done (commit db c result format reply).2) := by
  obtain ⟨⟨ledger', hledger', hlater⟩, hrow⟩ := commit_spec hledger hs h
  have hown : Owns (db.commit c) c none none := owns_of_own_eq Database.own_commit_self
  have hothers : ∀ u, u ≠ c → Undisturbed db (db.commit c) u := fun u hu =>
    { own := Database.own_commit_of_ne hu
      locked := fun k v hv => Database.committed_commit_of_own hu hv
      revoked := hledger.revoked_stays hledger' hlater }
  cases reply with
  | ok =>
      refine ⟨?_, hothers, ⟨ledger', hledger', hlater⟩,
        Or.inr ⟨_, rfl, finish_ne_refused result⟩⟩
      cases request with
      | register input => exact .registered hown
      | revoke id =>
          refine .revoked hown fun a ha => ?_
          obtain rfl := finish_eq_returned ha
          exact hrow id rfl
  | lost e =>
      have hs' : Stands (db.commit c) c request (.done (.unconfirmed (.wrap format [] e))) :=
        stands_done hown fun a ha => by cases ha
      exact ⟨hs', hothers, ⟨ledger', hledger', hlater⟩, Or.inr ⟨_, rfl, fun _ he => by cases he⟩⟩
  | failed e =>
      exact .of_quiet hledger quiet_rollback
        (stands_done (owns_of_own_eq Database.own_rollback_self) fun a ha => by cases ha)

theorem advance_spec {ledger : Bytes → Life} {action : Action C}
    (hledger : Represents db.committed ledger) (hs : Stands db action.caller request phase)
    (h : System.advance db phase action = some (db', phase')) :
    Advance db db' action.caller ledger request phase' := by
  cases action with
  | call c request' around => cases h
  | statement c =>
      obtain ⟨hquiet, hs'⟩ := execute_spec hledger hs h
      exact .of_quiet hledger hquiet hs'
  | fault c fault =>
      obtain ⟨next, hnext, heq⟩ := Option.map_eq_some_iff.mp h
      obtain ⟨rfl, rfl⟩ := Prod.mk.inj heq
      refine .of_quiet hledger (Quiet.refl db c) ?_
      cases phase <;> cases hnext <;> exact .failed _
  | rollback c =>
      cases phase with
      | failed e =>
          obtain ⟨rfl, rfl⟩ := Prod.mk.inj (Option.some.inj h)
          exact .of_quiet hledger quiet_rollback
            (stands_done (owns_of_own_eq Database.own_rollback_self) fun a ha => by cases ha)
      | _ => cases h
  | commit c reply =>
      obtain ⟨⟨result, format⟩, hcommitting, heq⟩ := Option.map_eq_some_iff.mp h
      obtain ⟨rfl, rfl⟩ := Prod.mk.inj heq
      exact advance_commit hledger hs hcommitting reply

end Stands

/-! ## Runs of the system -/

namespace System

variable {C : Type}

def row (s : System C) (id : Bytes) : Option Access := s.db.committed (.access id)

def events (s : System C) (action : AuditAction) (id : Bytes) : Set Bytes :=
  PilotAccess.events s.db.committed action id

def Moves (s s' : System C) : Prop :=
  ∀ ledger, Represents s.db.committed ledger → ∃ ledger', Represents s'.db.committed ledger' ∧
    ∀ id, Life.Later (ledger id) (ledger' id)

theorem Moves.refl (s : System C) : Moves s s :=
  fun ledger h => ⟨ledger, h, fun _ => Relation.ReflTransGen.refl⟩

theorem Moves.trans {s t u : System C} (h : Moves s t) (h' : Moves t u) : Moves s u := by
  intro ledger hledger
  obtain ⟨ledger', hledger', hlater⟩ := h ledger hledger
  obtain ⟨ledger'', hledger'', hlater'⟩ := h' ledger' hledger'
  exact ⟨ledger'', hledger'', fun id => (hlater id).trans (hlater' id)⟩

variable [DecidableEq C] {s s' : System C} {action : Action C} {actions : List (Action C)}

structure Sound (s : System C) : Prop where
  ledger : ∃ ledger, Represents s.db.committed ledger
  idle : ∀ c, s.calls c = none → Owns s.db c none none
  stands : ∀ c call, s.calls c = some call → Stands s.db c call.request call.phase

theorem sound_initial : Sound (initial : System C) where
  ledger := ⟨_, represents_empty⟩
  idle _ _ := owns_of_own_eq rfl
  stands _ _ h := by cases h

/-- What a step can do: a call is made, or a call that was made goes on. -/
theorem step_cases (h : s.step action = some s') :
    (∃ c request around, action = .call c request around ∧ s.calls c = none ∧
        s' = s.set c ⟨request, begin request around⟩ s.db) ∨
      ∃ call db' phase', s.calls action.caller = some call ∧
        advance s.db call.phase action = some (db', phase') ∧
        s' = s.set action.caller { call with phase := phase' } db' := by
  unfold step at h
  cases hcall : s.calls action.caller with
  | none =>
      rw [hcall] at h
      cases action with
      | call c request around =>
          exact Or.inl ⟨c, request, around, rfl, hcall, (Option.some.inj h).symm⟩
      | _ => cases h
  | some call =>
      rw [hcall] at h
      obtain ⟨⟨db', phase'⟩, hadvance, heq⟩ := Option.map_eq_some_iff.mp h
      exact Or.inr ⟨call, db', phase', rfl, hadvance, heq.symm⟩

theorem Sound.set (hs : Sound s) {c : C} {call : Call} {db' : Tables C}
    (hledger : ∃ ledger, Represents db'.committed ledger)
    (hstands : Stands db' c call.request call.phase)
    (hothers : ∀ u, u ≠ c → Undisturbed s.db db' u) : Sound (s.set c call db') := by
  refine ⟨hledger, ?_, ?_⟩
  · intro u hu
    by_cases huc : u = c
    · subst huc
      simp at hu
    · rw [calls_set_of_ne huc] at hu
      exact (hs.idle u hu).congr (hothers u huc).own
  · intro u call' hu
    by_cases huc : u = c
    · subst huc
      rw [calls_set_self] at hu
      obtain rfl := Option.some.inj hu
      exact hstands
    · rw [calls_set_of_ne huc] at hu
      exact (hs.stands u call' hu).undisturbed (hothers u huc)

theorem Sound.step (hs : Sound s) (h : s.step action = some s') : Sound s' ∧ Moves s s' := by
  rcases step_cases h with ⟨c, request, around, rfl, hnone, rfl⟩ |
    ⟨call, db', phase', hcall, hadvance, rfl⟩
  · refine ⟨hs.set hs.ledger (begin_stands (hs.idle c hnone) around) ?_, Moves.refl s⟩
    exact fun u hu => (Quiet.refl s.db c).undisturbed hu
  · have hspec : ∀ ledger, Represents s.db.committed ledger →
        Advance s.db db' action.caller ledger call.request phase' :=
      fun ledger hledger => advance_spec hledger (hs.stands _ call hcall) hadvance
    obtain ⟨ledger, hledger⟩ := hs.ledger
    obtain ⟨hstands, hothers, ⟨ledger', hledger', _⟩, _⟩ := hspec ledger hledger
    exact ⟨hs.set ⟨ledger', hledger'⟩ hstands hothers,
      fun ledger hledger => (hspec ledger hledger).ledger⟩

theorem sound_run (h : initial.run actions = some s) : Sound s :=
  runs_invariant (fun _ _ _ _ hs hstep => (hs.step hstep).1) sound_initial h

theorem Sound.moves_run (hs : Sound s) (h : s.run actions = some s') : Moves s s' :=
  runs_relation Moves.refl (fun _ _ _ => Moves.trans) (fun _ _ _ hs hstep => hs.step hstep) hs h

/-! ### Calls that have ended -/

theorem advance_done (db : Tables C) (ending : Ending) (action : Action C) :
    advance db (.done ending) action = none := by
  cases action <;> rfl

theorem done_step {c : C} {request : Request} {ending : Ending}
    (hdone : s.calls c = some ⟨request, .done ending⟩) (h : s.step action = some s') :
    s'.calls c = some ⟨request, .done ending⟩ := by
  rcases step_cases h with ⟨u, request', around, rfl, hnone, rfl⟩ |
    ⟨call, db', phase', hcall, hadvance, rfl⟩
  · have hne : c ≠ u := by
      rintro rfl
      rw [hdone] at hnone
      cases hnone
    rw [calls_set_of_ne hne, hdone]
  · have hne : c ≠ action.caller := by
      rintro rfl
      obtain rfl := Option.some.inj (hcall.symm.trans hdone)
      rw [advance_done] at hadvance
      cases hadvance
    rw [calls_set_of_ne hne, hdone]

theorem done_run {c : C} {request : Request} {ending : Ending}
    (hdone : s.calls c = some ⟨request, .done ending⟩) (h : s.run actions = some s') :
    s'.calls c = some ⟨request, .done ending⟩ :=
  runs_invariant (P := fun s => s.calls c = some ⟨request, .done ending⟩)
    (fun _ _ _ _ hdone hstep => done_step hdone hstep) hdone h

/-- Only the `COMMIT` of a call changes the tables, and it ends the call. -/
theorem Sound.committed_step (hs : Sound s) (h : s.step action = some s') :
    s'.db.committed = s.db.committed ∨ ∃ request ending,
      s'.calls action.caller = some ⟨request, .done ending⟩ ∧ ∀ e, ending ≠ .refused e := by
  rcases step_cases h with ⟨c, request, around, rfl, _, rfl⟩ |
    ⟨call, db', phase', hcall, hadvance, rfl⟩
  · exact Or.inl rfl
  · obtain ⟨ledger, hledger⟩ := hs.ledger
    rcases (advance_spec hledger (hs.stands _ call hcall) hadvance).settled with hsame | hdone
    · exact Or.inl hsame
    · obtain ⟨ending, rfl, hending⟩ := hdone
      exact Or.inr ⟨call.request, ending, calls_set_self _ _ _ _, hending⟩

/-- A call that fails before `COMMIT` has changed nothing at any of its steps. -/
theorem Sound.committed_of_refused (hs : Sound s) {request : Request} {e : Error} {s₂ : System C}
    (h : s.step action = some s') (hrun : s'.run actions = some s₂)
    (hrefused : s₂.calls action.caller = some ⟨request, .done (.refused e)⟩) :
    s'.db.committed = s.db.committed := by
  rcases hs.committed_step h with hsame | ⟨request', ending, hdone, hending⟩
  · exact hsame
  · have hend := (done_run hdone hrun).symm.trans hrefused
    simp only [Option.some.injEq, Call.mk.injEq, Phase.done.injEq] at hend
    exact absurd hend.2 (hending e)

/-! ### What the tables show -/

theorem Sound.events_of_row (hs : Sound s) {id : Bytes} {a : Access} (ha : s.row id = some a) :
    (s.events .pilotAccessRegistered id).encard = 1 ∧
      (a.status = .revoked → (s.events .pilotAccessRevoked id).encard = 1) ∧
      (a.status = .active → s.events .pilotAccessRevoked id = ∅) ∧
      (a.status = .active ∨ a.status = .revoked) := by
  obtain ⟨ledger, hledger⟩ := hs.ledger
  have hrow : (ledger id).row = some a := (hledger.row id).symm.trans ha
  have hregistered := hledger.events id .pilotAccessRegistered
  have hrevoked := hledger.events id .pilotAccessRevoked
  refine ⟨?_, ?_, ?_, Life.status_of_row hrow⟩
  · rcases Life.status_of_row hrow with hstatus | hstatus
    · obtain ⟨granted, hlife, _⟩ := Life.eq_active_of_row hrow hstatus
      rw [hlife] at hregistered
      exact hregistered
    · obtain ⟨granted, time, hlife⟩ := Life.eq_revoked_of_row hrow hstatus
      rw [hlife] at hregistered
      exact hregistered
  · intro hstatus
    obtain ⟨granted, time, hlife⟩ := Life.eq_revoked_of_row hrow hstatus
    rw [hlife] at hrevoked
    exact hrevoked
  · intro hstatus
    obtain ⟨granted, hlife, _⟩ := Life.eq_active_of_row hrow hstatus
    rw [hlife] at hrevoked
    exact Set.encard_eq_zero.mp hrevoked

theorem Sound.row_of_returned (hs : Sound s) {c : C} {id : Bytes} {a : Access}
    (h : s.calls c = some ⟨.revoke id, .done (.returned a)⟩) :
    s.row id = some a ∧ a.status = .revoked := by
  cases hs.stands c _ h with
  | revoked own row => exact row a rfl

theorem Sound.revokedAt_of_row (hs : Sound s) {id : Bytes} {a : Access} (ha : s.row id = some a)
    (hstatus : a.status = .revoked) : ∃ time, a.revokedAt = some time := by
  obtain ⟨ledger, hledger⟩ := hs.ledger
  have hrow : (ledger id).row = some a := (hledger.row id).symm.trans ha
  obtain ⟨granted, time, hlife⟩ := Life.eq_revoked_of_row hrow hstatus
  rw [hlife] at hrow
  obtain rfl := Option.some.inj hrow
  exact ⟨time, by simp [Access.revokeAt, granted.unrevoked]⟩

/-- In every run from empty tables, whatever calls are made and retried, however their statements
interleave and wherever they fail: each record has one registration event, and one revocation event
exactly if it is revoked; a revoked record stays as it is; revocations that succeed report one time;
and a call that fails before `COMMIT` changes the tables at none of its steps. -/
theorem access_audited (h : initial.run actions = some s) :
    (∀ id a, s.row id = some a →
        (s.events .pilotAccessRegistered id).encard = 1 ∧
        (a.status = .revoked → (s.events .pilotAccessRevoked id).encard = 1) ∧
        (a.status = .active → s.events .pilotAccessRevoked id = ∅) ∧
        (a.status = .active ∨ a.status = .revoked)) ∧
      (∀ more s', s.run more = some s' → ∀ id a, s.row id = some a → a.status = .revoked →
        s'.row id = some a) ∧
      (∀ c c' id a a', s.calls c = some ⟨.revoke id, .done (.returned a)⟩ →
        s.calls c' = some ⟨.revoke id, .done (.returned a')⟩ →
          ∃ time, a.revokedAt = some time ∧ a'.revokedAt = some time) ∧
      ∀ c request e, s.calls c = some ⟨request, .done (.refused e)⟩ →
        ∀ before action after s₁ s₂, actions = before ++ action :: after → action.caller = c →
          initial.run before = some s₁ → s₁.step action = some s₂ →
            s₂.db.committed = s₁.db.committed := by
  have hs := sound_run h
  refine ⟨fun id a ha => hs.events_of_row ha, ?_, ?_, ?_⟩
  · intro more s' hmore id a ha hstatus
    obtain ⟨ledger, hledger⟩ := hs.ledger
    obtain ⟨ledger', hledger', hlater⟩ := hs.moves_run hmore ledger hledger
    exact hledger.revoked_stays hledger' hlater id a ha hstatus
  · intro c c' id a a' hc hc'
    obtain ⟨ha, hstatus⟩ := hs.row_of_returned hc
    obtain ⟨ha', _⟩ := hs.row_of_returned hc'
    obtain rfl := Option.some.inj (ha.symm.trans ha')
    obtain ⟨time, htime⟩ := hs.revokedAt_of_row ha hstatus
    exact ⟨time, htime, htime⟩
  · rintro c request e hrefused before action after s₁ s₂ rfl rfl hbefore hstep
    obtain ⟨mid, hmid, hrest⟩ := runs_append.mp h
    obtain rfl := Option.some.inj (hbefore.symm.trans hmid)
    obtain ⟨next, hnext, hafter⟩ := runs_cons.mp hrest
    obtain rfl := Option.some.inj (hstep.symm.trans hnext)
    exact (sound_run hbefore).committed_of_refused hstep hafter hrefused

namespace Sample

def id : Bytes := str "00000000-0000-4000-8000-000000009001"

def input : RegisterInput :=
  { deviceID := str "00000000-0000-4000-8000-000000009002"
    nodeID := str "integration-node"
    transport := VpnNode.transportAmneziaWG
    externalReference := str "integration-access"
    expiresAt := some (2 * Duration.hour) }

def around (now : ℤ) (auditID : String) : Surroundings := ⟨now, .ok id, .ok (str auditID), none⟩

/-- Two revocations find the access active; the second waits for the first and reports its time. -/
def race : List (Action ℕ) :=
  [.call 0 (.register input) (around Duration.hour "a0"), .statement 0, .statement 0, .commit 0 .ok,
    .call 1 (.revoke id) (around (Duration.hour + Duration.minute) "a1"),
    .call 2 (.revoke id) (around (Duration.hour + 2 * Duration.minute) "a2"),
    .statement 1, .statement 2, .statement 1, .statement 1, .commit 1 .ok,
    .statement 2, .statement 2, .commit 2 .ok]

theorem run_race : (initial.run race).map (fun s => (s.row id).map Access.status) =
    some (some .revoked) := by
  decide

end Sample

theorem access_audited_race : ∃ s a, initial.run Sample.race = some s ∧
    s.row Sample.id = some a ∧ a.status = .revoked ∧
      (s.events .pilotAccessRevoked Sample.id).encard = 1 := by
  obtain ⟨s, hrun, hrow⟩ := Option.map_eq_some_iff.mp Sample.run_race
  obtain ⟨a, ha, hstatus⟩ := Option.map_eq_some_iff.mp hrow
  exact ⟨s, a, hrun, ha, hstatus, ((access_audited hrun).1 _ a ha).2.1 hstatus⟩

end System

end CloudHelp.PilotAccess
