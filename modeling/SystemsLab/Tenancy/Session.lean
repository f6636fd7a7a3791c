import Mathlib.Logic.Function.Basic
import SystemsLab.Framework.Transition

/-!
# Tenant sessions over a shared pool

`withTenantSession` borrows a connection, names the tenant in `app.current_tenant_id`, runs the
caller's statements and clears the name before the connection goes back. The setting belongs to
the session, but a transaction that is rolled back takes it back to what it was.
-/

namespace SystemsLab.Tenancy

inductive RoleName
  | admin
  | migrator
  | app
  | readonly
  deriving DecidableEq, Repr

inductive TransactionStatus
  | idle
  | active
  | aborted
  deriving DecidableEq, Repr

/-- A server session: its transaction, `app.current_tenant_id`, and what the setting goes back to
if the transaction, or the part of it after a savepoint, is rolled back. -/
structure Connection where
  status : TransactionStatus := .idle
  setting : String := ""
  atBegin : String := ""
  savepoints : List (String × String) := []
  deriving DecidableEq, Repr

/-- What `fn` can send. `other` is a statement that neither controls the transaction nor sets
`app.current_tenant_id`. A statement may fail, but the connection itself stays up. -/
inductive Statement
  | begin
  | commit
  | rollback
  | savepoint (name : String)
  | rollbackTo (name : String)
  | release (name : String)
  | other (fails : Bool)
  deriving DecidableEq, Repr

namespace Connection

/-- A statement raises an error. -/
def error (c : Connection) : Connection :=
  match c.status with
  | .idle => c
  | _ => { c with status := .aborted }

def rolledBack (c : Connection) : Connection :=
  { c with status := .idle, setting := c.atBegin, savepoints := [] }

/-- The savepoints from the newest one of that name on. -/
def since (c : Connection) (name : String) : List (String × String) :=
  c.savepoints.dropWhile fun s => s.1 ≠ name

def execute (c : Connection) : Statement → Connection
  | .begin =>
    match c.status with
    | .idle => { c with status := .active, atBegin := c.setting, savepoints := [] }
    | .active => c
    | .aborted => c
  | .commit =>
    match c.status with
    | .idle => c
    | .active => { c with status := .idle, savepoints := [] }
    | .aborted => c.rolledBack
  | .rollback =>
    match c.status with
    | .idle => c
    | _ => c.rolledBack
  | .savepoint name =>
    match c.status with
    | .active => { c with savepoints := (name,c.setting)::c.savepoints }
    | _ => c.error
  | .rollbackTo name =>
    match c.status, c.since name with
    | .idle, _ => c
    | _, [] => c.error
    | _, (_,setting)::_ =>
      { c with status := .active, setting, savepoints := c.since name }
  | .release name =>
    match c.status, c.since name with
    | .active, _::savepoints => { c with savepoints }
    | _, _ => c.error
  | .other fails => if fails then c.error else c

/-- `SELECT set_config('app.current_tenant_id', …, false)`. -/
def setConfig (c : Connection) (value : String) : Option Connection :=
  match c.status with
  | .aborted => none
  | _ => some { c with setting := value }

end Connection

/-- `tenantId === null ? "" : String(tenantId)`. -/
def tenantSetting : Option Int → String
  | none => ""
  | some tenantId => toString tenantId

/-- Where a call of `withTenantSession` stands, and its connection. -/
inductive SessionPhase
  | connecting
  | connected (c : Nat)
  | started (c : Nat)
  | running (c : Nat)
  | clearing (c : Nat)
  | settled (c : Nat)
  | refused
  deriving DecidableEq, Repr

/-- `released` counts the calls of `client.release()`. -/
structure SessionCall where
  role : RoleName
  tenantId : Option Int
  phase : SessionPhase := .connecting
  released : Nat := 0
  deriving DecidableEq, Repr

/-- The server sessions, the call that has each of them (none if it is in its pool), the pool that
each belongs to, and the calls. -/
structure PoolWorld where
  connection : Nat → Connection := fun _ => {}
  holder : Nat → Option Nat := fun _ => none
  role : Nat → RoleName
  call : Nat → Option SessionCall := fun _ => none

inductive SessionEvent
  | call (n : Nat) (role : RoleName) (tenantId : Option Int)
  | connect (n : Nat) (c : Nat)
  | refuse (n : Nat)
  | setTenant (n : Nat)
  | statement (n : Nat) (s : Statement)
  | settle (n : Nat)
  | clear (n : Nat)
  deriving DecidableEq, Repr

def PoolWorld.put (w : PoolWorld) (n : Nat) (call : SessionCall) : PoolWorld :=
  { w with call := Function.update w.call n (some call) }

def PoolWorld.move (w : PoolWorld) (n : Nat) (call : SessionCall) (phase : SessionPhase) :
    PoolWorld :=
  w.put n { call with phase }

def PoolWorld.putConnection (w : PoolWorld) (c : Nat) (connection : Connection) : PoolWorld :=
  { w with connection := Function.update w.connection c connection }

/-- A statement of `fn`, its end, or the `finally`. -/
def callStep (w : PoolWorld) (n : Nat) (call : SessionCall) : SessionEvent → Option PoolWorld
  | .connect _ c =>
    match call.phase with
    | .connecting =>
      if w.holder c = none ∧ w.role c = call.role then
        some { w.move n call (.connected c) with holder := Function.update w.holder c (some n) }
      else none
    | _ => none
  | .refuse _ =>
    match call.phase with
    | .connecting => some (w.move n call .refused)
    | _ => none
  | .setTenant _ =>
    match call.phase with
    | .connected c =>
      match (w.connection c).setConfig (tenantSetting call.tenantId) with
      | some connection => some ((w.move n call (.started c)).putConnection c connection)
      | none => some (w.move n call (.clearing c))
    | _ => none
  | .statement _ s =>
    match call.phase with
    | .started c =>
      some ((w.move n call (.running c)).putConnection c ((w.connection c).execute s))
    | .running c =>
      some ((w.move n call (.running c)).putConnection c ((w.connection c).execute s))
    | _ => none
  | .settle _ =>
    match call.phase with
    | .started c => some (w.move n call (.clearing c))
    | .running c => some (w.move n call (.clearing c))
    | _ => none
  | .clear _ =>
    match call.phase with
    | .clearing c =>
      match (w.connection c).setConfig "" with
      | some connection =>
        let settled := { call with phase := .settled c, released := call.released + 1 }
        some { (w.put n settled).putConnection c connection with
          holder := Function.update w.holder c none }
      -- the query rejects inside the `finally`: `client.release()` is not reached
      | none => some (w.move n call (.settled c))
    | _ => none
  | .call _ _ _ => none

def SessionEvent.caller : SessionEvent → Nat
  | .call n _ _ => n
  | .connect n _ => n
  | .refuse n => n
  | .setTenant n => n
  | .statement n _ => n
  | .settle n => n
  | .clear n => n

def sessionStep (w : PoolWorld) (e : SessionEvent) : Option PoolWorld :=
  match w.call e.caller, e with
  | none, .call n role tenantId => some (w.put n { role, tenantId })
  | none, _ => none
  | some call, _ => callStep w e.caller call e

/-- Nothing has been called, and no connection has been used. -/
def PoolWorld.Fresh (w : PoolWorld) : Prop :=
  (∀ c, w.connection c = {}) ∧ (∀ c, w.holder c = none) ∧ ∀ n, w.call n = none

end SystemsLab.Tenancy
