import SystemsLab.Framework.Transition
import SystemsLab.Framework.WriteAheadLog
import Mathlib.Logic.Function.Basic

/-!
# LSN-gated reads

A primary appends commits to its WAL and writes it out, a replica replays what has been written
out, with any delay. A client of strategy B updates a row on the primary, asks for the WAL position
once the `UPDATE` has returned, and polls the replica until that has replayed as far. Every `await`
is a point where the servers and the other clients go on.

`pg` carries an LSN as text from the one server to the other. Here it is the position that the
text stands for.
-/

namespace SystemsLab.Replication

/-- `display_name` by `id`, in `user_profiles`. -/
abbrev Profiles := Int → Option String

abbrev WalRecord := LogRecord Int String

def hexText (n : Nat) : String := String.ofList ((Nat.toDigits 16 n).map Char.toUpper)

/-- How the server prints a `pg_lsn`. -/
def lsnText (lsn : Nat) : String := hexText (lsn / 2 ^ 32) ++ "/" ++ hexText (lsn % 2 ^ 32)

example : lsnText 0x16B3748 = "0/16B3748" := by decide +kernel

/-- `rows` is the result of `SELECT pg_current_wal_lsn() AS lsn`. -/
def getPrimaryWalLsn (rows : List (Option Nat)) : Except String Nat :=
  match rows.head?.join with
  | some lsn => .ok lsn
  | none => .error "pg_current_wal_lsn() returned no value - is this connected to a primary?"

structure CaughtUpRow where
  caughtUp : Option Bool
  replicaLsn : Option Nat
  deriving DecidableEq, Repr

/-- The query of one poll. Comparing with NULL yields NULL. -/
def caughtUpQuery (lastWalReplayLsn : Option Nat) (targetLsn : Nat) : CaughtUpRow :=
  ⟨lastWalReplayLsn.map fun lsn => decide (targetLsn ≤ lsn),lastWalReplayLsn⟩

structure LsnWaitResult where
  waitedMs : Int
  polls : Nat
  replicaLsn : Option Nat
  deriving DecidableEq, Repr

/-- The variables of one `waitForReplicaLsnAtLeast` call. -/
structure LsnWait where
  targetLsn : Nat
  timeoutMs : Int
  start : Int
  polls : Nat
  deriving DecidableEq, Repr

def LsnWait.timeoutMessage (wait : LsnWait) : String :=
  "replica never reached target LSN " ++ lsnText wait.targetLsn ++ " within " ++
    toString wait.timeoutMs ++ "ms - replication is not working"

/-- A committed `UPDATE` and the place of its commit record in the WAL. -/
structure Write where
  row : Int
  displayName : String
  record : Nat
  deriving DecidableEq, Repr

inductive GatePhase
  | idle
  | updating
  | updated
  | sampled (lsn : Nat)
  | checking (wait : LsnWait)
  | querying (wait : LsnWait)
  | answered (wait : LsnWait) (row : CaughtUpRow)
  | sleeping (wait : LsnWait)
  | returned (result : LsnWaitResult)
  | threw (message : String)
  deriving DecidableEq, Repr

/-- Nothing of the client's is under way. -/
def GatePhase.free : GatePhase → Bool
  | .idle | .updated | .sampled _ | .returned _ | .threw _ => true
  | _ => false

def GatePhase.waiting : GatePhase → Option LsnWait
  | .checking wait | .querying wait | .answered wait _ | .sleeping wait => some wait
  | _ => none

structure GateClient where
  write : Option Write := none
  phase : GatePhase := .idle
  deriving DecidableEq, Repr

/-- What happened, for the record: a wait that returned, with its caller's last write and the
position the replica had replayed by then, a wait that timed out, and a read on the replica. -/
inductive GateNotice
  | returned (write : Option Write) (wait : LsnWait) (replicaLsn : Nat)
  | timedOut (wait : LsnWait) (now : Int)
  | read (row : Int) (observed : Option String)
  deriving DecidableEq, Repr

/-- `wal` holds every record inserted since the base backup `profiles` at position `walStart`, of
which the first `written` are written out and the first `replayed` replayed. The replica reports
no position before it has `recovered` a record. `notices` has the newest first. -/
structure LsnWorld where
  profiles : Profiles
  walStart : Nat
  wal : List WalRecord
  written : Nat
  replayed : Nat
  recovered : Bool
  clock : Int
  client : Nat → GateClient := fun _ => {}
  notices : List GateNotice := []

def LsnWorld.position (w : LsnWorld) (n : Nat) : Nat := logPosition w.walStart w.wal n

def LsnWorld.currentWalLsn (w : LsnWorld) : Nat := w.position w.written

def LsnWorld.lastWalReplayLsn (w : LsnWorld) : Option Nat :=
  if w.recovered then some (w.position w.replayed) else none

def LsnWorld.onPrimary (w : LsnWorld) : Profiles := replayLog w.profiles w.wal

def LsnWorld.onReplica (w : LsnWorld) : Profiles :=
  replayLog w.profiles (w.wal.take w.replayed)

def LsnWorld.put (w : LsnWorld) (id : Nat) (client : GateClient) : LsnWorld :=
  { w with client := Function.update w.client id client }

def LsnWorld.setPhase (w : LsnWorld) (id : Nat) (phase : GatePhase) : LsnWorld :=
  w.put id { w.client id with phase }

def LsnWorld.note (w : LsnWorld) (notice : GateNotice) : LsnWorld :=
  { w with notices := notice::w.notices }

/-- `waitForReplicaLsnAtLeast` up to its first loop condition. -/
def LsnWorld.startWait (w : LsnWorld) (id : Nat) (write : Option Write) (targetLsn : Nat)
    (timeoutMs : Option Int) : LsnWorld :=
  w.put id ⟨write,.checking ⟨targetLsn,timeoutMs.getD 5000,w.clock,0⟩⟩

inductive LsnEvent
  | commit (record : WalRecord)
  | flush (n : Nat)
  | replay (n : Nat)
  | tick (now : Int)
  | update (id : Nat) (row : Int) (displayName : String) (bytes : ℕ+)
  | acknowledge (id : Nat)
  | getLsn (id : Nat)
  | gate (id : Nat) (timeoutMs : Option Int)
  | waitFor (id : Nat) (targetLsn : Nat) (timeoutMs : Option Int)
  | check (id : Nat)
  | query (id : Nat)
  | resume (id : Nat)
  | wake (id : Nat)
  | select (row : Int)

def lsnStep (w : LsnWorld) : LsnEvent → Option LsnWorld
  | .commit record => some { w with wal := w.wal ++ [record] }
  | .flush n =>
    if w.written ≤ n ∧ n ≤ w.wal.length then some { w with written := n } else none
  | .replay n =>
    if w.replayed ≤ n ∧ n ≤ w.written then some { w with replayed := n, recovered := true }
    else none
  | .tick now => some { w with clock := now }
  | .update id row displayName bytes =>
    if (w.client id).phase.free then
      match w.onPrimary row with
      -- no row matches, and nothing is logged
      | none => some (w.put id ⟨none,.updated⟩)
      | some _ =>
        some { w.put id ⟨some ⟨row,displayName,w.wal.length⟩,.updating⟩ with
          wal := w.wal ++ [⟨bytes,[(row,some displayName)]⟩] }
    else none
  -- `synchronous_commit` is on: the reply waits until the commit record is written out
  | .acknowledge id =>
    match w.client id with
    | ⟨some write,.updating⟩ =>
      if write.record < w.written then some (w.setPhase id .updated) else none
    | _ => none
  | .getLsn id =>
    match (w.client id).phase with
    | .updated =>
      match getPrimaryWalLsn [some w.currentWalLsn] with
      | .ok lsn => some (w.setPhase id (.sampled lsn))
      | .error message => some (w.setPhase id (.threw message))
    | _ => none
  | .gate id timeoutMs =>
    match (w.client id).phase with
    | .sampled lsn => some (w.startWait id (w.client id).write lsn timeoutMs)
    | _ => none
  | .waitFor id targetLsn timeoutMs =>
    if (w.client id).phase.free then some (w.startWait id none targetLsn timeoutMs) else none
  | .check id =>
    match (w.client id).phase with
    | .checking wait =>
      if w.clock - wait.start < wait.timeoutMs then
        some (w.setPhase id (.querying { wait with polls := wait.polls + 1 }))
      else
        some ((w.setPhase id (.threw wait.timeoutMessage)).note (.timedOut wait w.clock))
    | _ => none
  | .query id =>
    match (w.client id).phase with
    | .querying wait =>
      some (w.setPhase id (.answered wait (caughtUpQuery w.lastWalReplayLsn wait.targetLsn)))
    | _ => none
  | .resume id =>
    match (w.client id).phase with
    | .answered wait row =>
      if row.caughtUp = some true then
        some ((w.setPhase id (.returned ⟨w.clock - wait.start,wait.polls,row.replicaLsn⟩)).note
          (.returned (w.client id).write wait (w.position w.replayed)))
      else some (w.setPhase id (.sleeping wait))
    | _ => none
  -- a timer fires no earlier than after `pollIntervalMs`, and as late as it likes
  | .wake id =>
    match (w.client id).phase with
    | .sleeping wait => some (w.setPhase id (.checking wait))
    | _ => none
  | .select row => some (w.note (.read row (w.onReplica row)))

/-- The servers may have run for any time, and no client has called yet. -/
def LsnWorld.Initial (w : LsnWorld) : Prop :=
  w.replayed ≤ w.written ∧ w.written ≤ w.wal.length ∧ w.client = (fun _ => {}) ∧ w.notices = []

/-- What was read is the client's own write, or one committed after it. -/
def LsnWorld.OwnOrLater (w : LsnWorld) (write : Write) (observed : Option String) : Prop :=
  ∃ j, write.record ≤ j ∧ (j = write.record → observed = some write.displayName) ∧
    (w.wal[j]?).bind (LogRecord.image · write.row) = some observed

/-- A read that comes after a gate sees what the gate was waiting for. -/
def LsnWorld.ReadsGated (w : LsnWorld) (newer older : GateNotice) : Prop :=
  ∀ write wait replicaLsn row observed, older = .returned (some write) wait replicaLsn →
    newer = .read row observed → row = write.row → w.OwnOrLater write observed

def LsnEvent.caller : LsnEvent → Option Nat
  | .check id | .query id | .resume id | .wake id => some id
  | _ => none

structure Gated (w : LsnWorld) : Prop where
  reads : w.notices.Pairwise w.ReadsGated
  returns : ∀ write wait replicaLsn, .returned write wait replicaLsn ∈ w.notices →
    wait.targetLsn ≤ replicaLsn
  timeouts : ∀ wait now, .timedOut wait now ∈ w.notices → wait.timeoutMs ≤ now - wait.start
  /-- A wait whose time is up while the replica is behind comes to its throw. -/
  throws : ∀ id wait, (w.client id).phase.waiting = some wait →
    w.position w.replayed < wait.targetLsn → wait.timeoutMs ≤ w.clock - wait.start →
    ∃ es t, (∀ e ∈ es, e.caller = some id) ∧ run lsnStep w es = some t ∧
      (t.client id).phase = .threw wait.timeoutMessage

end SystemsLab.Replication
