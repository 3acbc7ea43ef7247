import CloudHelp.PilotAccess
import CloudHelp.ReadCommitted
import CloudHelp.Runs

/-!
# The store of pilot access records

`internal/pilotaccess/postgres/store.go` over the tables of the migrations, with `Register` and
`Revoke` around it. A call is a sequence of SQL statements in one transaction, and any number of
calls interleave statement by statement. A statement that has to wait for a lock is not possible
until the lock is released; every statement may fail instead, and a `COMMIT` may be answered with
an error whether or not the server carried it out. `UPDATE` takes two steps: it looks for the row
in its snapshot, then it locks the row and evaluates its condition again on the version it finds.

The tables `devices` and `nodes` are outside: a reference to a missing device or node is one of the
ways a statement fails.
-/

namespace CloudHelp.PilotAccess

/-! ## The tables -/

inductive AuditAction where
  | pilotAccessRegistered
  | pilotAccessRevoked
  deriving DecidableEq, Repr

structure AuditMetadata where
  nodeID : Bytes
  transport : Bytes
  expiresAt : Option ℤ
  deriving DecidableEq, Repr

structure AuditEvent where
  actor : Bytes
  action : AuditAction
  objectType : Bytes
  objectID : Bytes
  metadata : Option AuditMetadata
  deriving DecidableEq, Repr

/-- The primary keys of the two tables and the unique index of `vpn_accesses`. -/
inductive Key where
  | access (id : Bytes)
  | reference (nodeID transport externalReference : Bytes)
  | event (id : Bytes)
  deriving DecidableEq, Repr

/-- What stands under a key; the index entry names its row. -/
abbrev Row : Key → Type
  | .access _ => Access
  | .reference _ _ _ => Bytes
  | .event _ => AuditEvent

abbrev Access.reference (access : Access) : Key :=
  .reference access.nodeID access.transport access.externalReference

def satisfiesChecks (access : Access) (expiresAt : ℤ) : Bool :=
  (access.transport = VpnNode.transportAmneziaWG ∨
    access.transport = VpnNode.transportXRayReality) ∧
    (1 ≤ (Utf8.pieces access.externalReference).length ∧
      (Utf8.pieces access.externalReference).length ≤ 256) ∧
    (access.createdAt < expiresAt ∧
      expiresAt ≤ access.createdAt + maximumPilotAccessLifetime) ∧
    (∀ revokedAt ∈ access.revokedAt, access.createdAt ≤ revokedAt) ∧
    (access.status = .active ∨ access.status = .revoked) ∧
    (access.status = .revoked ↔ access.revokedAt.isSome = true)

def rowViolation (access : Access) : Option String :=
  match access.expiresAt with
  | none => some "23502"
  | some expiresAt => if satisfiesChecks access expiresAt then none else some "23514"

/-! ## Errors -/

/-- How a statement fails: with a code of the server, or in the driver. -/
inductive Fault where
  | postgres (code : String)
  | driver (cause : Error)

def Fault.error : Fault → Error
  | .postgres code => .library code
  | .driver cause => cause

/-- The error of `scan`; `none` is `sql.ErrNoRows`. -/
def classify (operation : String) : Option Fault → Error
  | none => .wrap ("%w: " ++ operation) [] errNotFound
  | some fault =>
      match fault with
      | .postgres "23505" => .wrap "%w: duplicate operational reference" [] errConflict
      | .postgres "23503" => .wrap "%w: referenced device/node or value is invalid" [] errInvalid
      | .postgres "23514" => .wrap "%w: referenced device/node or value is invalid" [] errInvalid
      | fault => .wrap ("pilot access postgres: " ++ operation ++ ": %w") [] fault.error

/-! ## The calls -/

inductive Request where
  | register (input : RegisterInput)
  | revoke (id : Bytes)

/-- What surrounds a call before its first statement: the clock, the two identifier generators and
`BeginTx`. -/
structure Surroundings where
  now : ℤ
  newID : Except Error Bytes
  newAuditID : Except Error Bytes
  beginTx : Option Error

inductive Ending where
  /-- the call succeeds -/
  | returned (access : Access)
  /-- the call fails before `COMMIT` -/
  | refused (error : Error)
  /-- `COMMIT` is answered with an error -/
  | unconfirmed (error : Error)
  /-- the service does not accept the record after `COMMIT` -/
  | rejected (error : Error)

/-- The next statement of a call, with the variables that are live there. -/
inductive Phase where
  | insertAccess (access : Access) (auditID : Bytes)
  | auditCreate (result : Access) (auditID : Bytes)
  | commitCreate (result : Access)
  | update (id : Bytes) (time : ℤ) (auditID : Bytes)
  /-- `UPDATE` has found its row and is about to lock it -/
  | lockRow (id : Bytes) (time : ℤ) (auditID : Bytes)
  | selectRevoked (id : Bytes)
  | commitRetry (result : Access)
  | auditRevoke (result : Access) (auditID : Bytes)
  | commitRevoke (result : Access)
  /-- a statement has failed; the deferred `Rollback` is next -/
  | failed (error : Error)
  | done (ending : Ending)

/-- `Register` and `Create`, `Revoke` and the store's `Revoke`, up to the first statement. -/
def begin (request : Request) (around : Surroundings) : Phase :=
  match request with
  | .register input =>
      match beforeCreate input around.now around.newID with
      | .error e => .done (.refused e)
      | .ok access =>
          match around.newAuditID with
          | .error e =>
              .done (.refused (.wrap "pilot access postgres: generate audit ID: %w" [] e))
          | .ok auditID =>
              match around.beginTx with
              | some e => .done (.refused (.wrap "pilot access postgres: begin create: %w" [] e))
              | none => .insertAccess access auditID
  | .revoke id =>
      match beforeRevoke id around.now with
      | .error e => .done (.refused e)
      | .ok time =>
          match around.newAuditID with
          | .error e =>
              .done (.refused (.wrap "pilot access postgres: generate audit ID: %w" [] e))
          | .ok auditID =>
              match around.beginTx with
              | some e => .done (.refused (.wrap "pilot access postgres: begin revoke: %w" [] e))
              | none => .update id time auditID

/-- The row `UPDATE` writes: `revoked_at = COALESCE(revoked_at, $2)`. -/
def Access.revokeAt (access : Access) (time : ℤ) : Access :=
  { access with status := .revoked, revokedAt := access.revokedAt.or (some time) }

def registered (access : Access) : AuditEvent :=
  { actor := str "pilot-admin-api"
    action := .pilotAccessRegistered
    objectType := str "vpn_access"
    objectID := access.id
    metadata := some ⟨access.nodeID, access.transport, access.expiresAt⟩ }

def revoked (access : Access) : AuditEvent :=
  { actor := str "pilot-admin-api"
    action := .pilotAccessRevoked
    objectType := str "vpn_access"
    objectID := access.id
    metadata := none }

section Statements

variable {C : Type} [DecidableEq C]

abbrev Tables (C : Type) := Database C Row

def insertAccess (db : Tables C) (c : C) (access : Access) (auditID : Bytes) :
    Option (Tables C × Phase) :=
  match rowViolation access with
  | some code => some (db, .failed (classify "create" (some (.postgres code))))
  | none =>
      if ¬(db.Free c (.access access.id) ∧ db.Free c access.reference) then none
      else if (db.visible c (.access access.id)).isSome ∨
          (db.visible c access.reference).isSome then
        some (db, .failed (classify "create" (some (.postgres "23505"))))
      else
        some ((db.write c (.access access.id) access).write c access.reference access.id,
          .auditCreate access auditID)

/-- `INSERT INTO admin_audit_events ...`; any error is wrapped with `format`. -/
def insertEvent (db : Tables C) (c : C) (auditID : Bytes) (event : AuditEvent) (format : String)
    (next : Phase) : Option (Tables C × Phase) :=
  if ¬db.Free c (.event auditID) then none
  else if (db.visible c (.event auditID)).isSome then
    some (db, .failed (.wrap format [] (.library "23505")))
  else some (db.write c (.event auditID) event, next)

/-- The `UPDATE` looks for an active row in its snapshot. -/
def scanActive (db : Tables C) (c : C) (id : Bytes) (time : ℤ) (auditID : Bytes) :
    Tables C × Phase :=
  match db.visible c (.access id) with
  | none => (db, .selectRevoked id)
  | some (row : Access) =>
      if row.status = .active then (db, .lockRow id time auditID) else (db, .selectRevoked id)

/-- The `UPDATE` locks the row and evaluates `status = 'active'` again. -/
def updateActive (db : Tables C) (c : C) (id : Bytes) (time : ℤ) (auditID : Bytes) :
    Option (Tables C × Phase) :=
  if ¬db.Free c (.access id) then none
  else match db.visible c (.access id) with
    | none => some (db, .selectRevoked id)
    | some (row : Access) =>
        if row.status ≠ .active then some (db, .selectRevoked id)
        else match rowViolation (row.revokeAt time) with
          | some code => some (db, .failed (classify "revoke" (some (.postgres code))))
          | none =>
              some (db.write c (.access id) (row.revokeAt time),
                .auditRevoke (row.revokeAt time) auditID)

/-- `SELECT ... WHERE id = $1 AND status = 'revoked'` -/
def selectRevoked (db : Tables C) (c : C) (id : Bytes) : Phase :=
  match db.visible c (.access id) with
  | none => .failed (classify "revoke" none)
  | some (row : Access) =>
      if row.status = .revoked then .commitRetry row else .failed (classify "revoke" none)

/-- The next statement runs; `none` where it waits or where there is none. -/
def execute (db : Tables C) (c : C) : Phase → Option (Tables C × Phase)
  | .insertAccess access auditID => insertAccess db c access auditID
  | .auditCreate result auditID =>
      insertEvent db c auditID (registered result) "pilot access postgres: audit create: %w"
        (.commitCreate result)
  | .update id time auditID => some (scanActive db c id time auditID)
  | .lockRow id time auditID => updateActive db c id time auditID
  | .selectRevoked id => some (db, selectRevoked db c id)
  | .auditRevoke result auditID =>
      insertEvent db c auditID (revoked result) "pilot access postgres: audit revoke: %w"
        (.commitRevoke result)
  | _ => none

def fail (fault : Fault) : Phase → Option Phase
  | .insertAccess _ _ => some (.failed (classify "create" (some fault)))
  | .auditCreate _ _ =>
      some (.failed (.wrap "pilot access postgres: audit create: %w" [] fault.error))
  | .update _ _ _ | .lockRow _ _ _ | .selectRevoked _ =>
      some (.failed (classify "revoke" (some fault)))
  | .auditRevoke _ _ =>
      some (.failed (.wrap "pilot access postgres: audit revoke: %w" [] fault.error))
  | _ => none

def committing : Phase → Option (Access × String)
  | .commitCreate result => some (result, "pilot access postgres: commit create: %w")
  | .commitRetry result => some (result, "pilot access postgres: commit revoke retry: %w")
  | .commitRevoke result => some (result, "pilot access postgres: commit revoke: %w")
  | _ => none

/-- The service checks what the store returns. -/
def finish (result : Access) : Ending :=
  match validate result with
  | .ok () => .returned result
  | .error e => .rejected (.wrap "pilot access: store returned invalid access: %w" [] e)

/-- The answer to a `COMMIT`; `lost` means that the server has committed. -/
inductive CommitReply where
  | ok
  | lost (error : Error)
  | failed (error : Error)

def commit (db : Tables C) (c : C) (result : Access) (format : String) :
    CommitReply → Tables C × Ending
  | .ok => (db.commit c, finish result)
  | .lost e => (db.commit c, .unconfirmed (.wrap format [] e))
  | .failed e => (db.rollback c, .unconfirmed (.wrap format [] e))

end Statements

/-! ## The system -/

structure Call where
  request : Request
  phase : Phase

/-- The database and the calls made so far; a retry is a call of its own. -/
structure System (C : Type) where
  db : Tables C
  calls : C → Option Call

inductive Action (C : Type) where
  | call (c : C) (request : Request) (around : Surroundings)
  | statement (c : C)
  | fault (c : C) (fault : Fault)
  | rollback (c : C)
  | commit (c : C) (reply : CommitReply)

def Action.caller {C : Type} : Action C → C
  | .call c _ _ => c
  | .statement c => c
  | .fault c _ => c
  | .rollback c => c
  | .commit c _ => c

namespace System

variable {C : Type} [DecidableEq C]

def initial : System C := ⟨.empty, fun _ => none⟩

def set (s : System C) (c : C) (call : Call) (db : Tables C) : System C :=
  ⟨db, Function.update s.calls c (some call)⟩

@[simp] theorem db_set (s : System C) (c : C) (call : Call) (db : Tables C) :
    (s.set c call db).db = db :=
  rfl

@[simp] theorem calls_set_self (s : System C) (c : C) (call : Call) (db : Tables C) :
    (s.set c call db).calls c = some call :=
  Function.update_self ..

theorem calls_set_of_ne {c u : C} (h : u ≠ c) (s : System C) (call : Call) (db : Tables C) :
    (s.set c call db).calls u = s.calls u :=
  Function.update_of_ne h ..

def advance (db : Tables C) (phase : Phase) : Action C → Option (Tables C × Phase)
  | .call _ _ _ => none
  | .statement c => execute db c phase
  | .fault _ fault => (fail fault phase).map fun next => (db, next)
  | .rollback c =>
      match phase with
      | .failed e => some (db.rollback c, .done (.refused e))
      | _ => none
  | .commit c reply =>
      (committing phase).map fun (result, format) =>
        ((commit db c result format reply).1, .done (commit db c result format reply).2)

def step (s : System C) (action : Action C) : Option (System C) :=
  match s.calls action.caller with
  | none =>
      match action with
      | .call c request around => some (s.set c ⟨request, begin request around⟩ s.db)
      | _ => none
  | some call =>
      (advance s.db call.phase action).map fun (db, phase) =>
        s.set action.caller { call with phase := phase } db

abbrev run (s : System C) (actions : List (Action C)) : Option (System C) := runs step s actions

end System

end CloudHelp.PilotAccess
