import SystemsLab.Framework.RowVersions
import SystemsLab.Framework.Table
import SystemsLab.Framework.Transition
import SystemsLab.Framework.WaitFor
import Mathlib.Algebra.BigOperators.Group.Finset.Basic

/-!
# Transfer legs that lock two accounts

`runLegAttempt` locks the two rows of its plan, then updates both. `planLeg` decides which row
comes first. A step is one statement of one leg at READ COMMITTED: a statement that cannot have
its row lock takes a ticket in the queue for that row and runs when the row is free.
-/

namespace SystemsLab.Deadlocks

inductive LockOrderStrategy
  | naiveLockOrder
  | consistentLockOrder
  deriving DecidableEq, Repr

inductive WorkerLabel
  | A
  | B
  deriving DecidableEq, Repr

structure LegPlan where
  workerLabel : WorkerLabel
  fromAccountId : Nat
  toAccountId : Nat
  amountCents : Int
  firstLockId : Nat
  secondLockId : Nat
  deriving DecidableEq, Repr

def planLeg (strategy : LockOrderStrategy) (workerLabel : WorkerLabel)
    (fromAccountId toAccountId : Nat) (amountCents : Int) : LegPlan :=
  match strategy with
  | .naiveLockOrder =>
    { workerLabel, fromAccountId, toAccountId, amountCents
      firstLockId := fromAccountId
      secondLockId := toAccountId }
  | .consistentLockOrder =>
    { workerLabel, fromAccountId, toAccountId, amountCents
      firstLockId := min fromAccountId toAccountId
      secondLockId := max fromAccountId toAccountId }

/-- The statement a leg sends next, or how it ended. A leg that lost the reply to its `COMMIT`
throws, and its transaction is committed. -/
inductive LegPhase
  | lockingFirst
  | lockingSecond
  | debiting
  | crediting
  | committing
  | committed
  | replyLost
  | aborted
  deriving DecidableEq, Repr

/-- `waiting` is the ticket of a statement that waits for a row lock. -/
structure LegCall where
  plan : LegPlan
  phase : LegPhase := .lockingFirst
  waiting : Option Nat := none
  deriving DecidableEq, Repr

def LegPhase.hasEnded : LegPhase → Bool
  | .committed => true
  | .replyLost => true
  | .aborted => true
  | _ => false

def LegPhase.hasCommitted : LegPhase → Bool
  | .committed => true
  | .replyLost => true
  | _ => false

/-- The row whose lock the next statement needs. -/
def LegCall.target (c : LegCall) : Option Nat :=
  match c.phase with
  | .lockingFirst => some c.plan.firstLockId
  | .lockingSecond => some c.plan.secondLockId
  | .debiting => some c.plan.fromAccountId
  | .crediting => some c.plan.toAccountId
  | _ => none

def LegCall.request (c : LegCall) : Option (Nat × Nat) :=
  match c.waiting with
  | none => none
  | some ticket => c.target.map fun k => (k,ticket)

/-- `ids` are the accounts, and a version of an account is its `balance_cents`. `commits`
records which legs have committed. -/
structure LegsWorld where
  ids : Finset Nat
  accounts : RowVersions Nat Nat Int
  tickets : Nat := 0
  call : Nat → Option LegCall := fun _ => none
  commits : List (Nat × LegPlan) := []

inductive LegEvent
  | start (call : Nat) (workerLabel : WorkerLabel) (fromAccountId toAccountId : Nat)
      (amountCents : Int)
  | query (call : Nat)
  | loseReply (call : Nat)
  | abort (call : Nat)
  deriving DecidableEq, Repr

namespace LegsWorld

def put (w : LegsWorld) (n : Nat) (c : LegCall) : LegsWorld :=
  { w with call := Function.update w.call n (some c) }

/-- A failed statement and the `ROLLBACK` after it. -/
def abort (w : LegsWorld) (n : Nat) (c : LegCall) : LegsWorld :=
  { w.put n { c with phase := .aborted, waiting := none } with accounts := w.accounts.rollback n }

def commit (w : LegsWorld) (n : Nat) (c : LegCall) (phase : LegPhase) : LegsWorld :=
  { w.put n { c with phase } with
    accounts := w.accounts.commit n
    commits := w.commits ++ [(n,c.plan)] }

/-- A statement on row `k`, once it has the lock; `f` fails on a balance that it may not write. -/
def writeRow (w : LegsWorld) (n : Nat) (c : LegCall) (k : Nat) (f : Int → Option Int)
    (next : LegPhase) : Option LegsWorld :=
  match (w.accounts k).version n with
  | none =>
    match c.waiting with
    | some _ => none
    | none => some { w.put n { c with waiting := some w.tickets } with tickets := w.tickets + 1 }
  | some balance =>
    match f balance with
    | none => some (w.abort n c)
    | some balance => some { w.put n { c with phase := next, waiting := none } with
        accounts := w.accounts.put n k balance }

/-- `SELECT id FROM accounts WHERE id = $1 FOR UPDATE`. -/
def lockRow (w : LegsWorld) (n : Nat) (c : LegCall) (k : Nat) (next : LegPhase) :
    Option LegsWorld :=
  w.writeRow n c k (fun balance => some (balance + 0)) next

/-- `UPDATE accounts SET balance_cents = balance_cents + d WHERE id = k`, with the check on the
balance. -/
def addBalance (w : LegsWorld) (n : Nat) (c : LegCall) (k : Nat) (d : Int) (next : LegPhase) :
    Option LegsWorld :=
  w.writeRow n c k
    (fun balance =>
      if 0 ≤ balance + d ∧ balance + d ≤ maxInteger then some (balance + d) else none)
    next

/-- The next statement of `runLegAttempt` when it is given no rendezvous. With one, a leg may also
wait for its peer after the first statement: it can do less, and it may never get further. -/
def runLegAttempt (w : LegsWorld) (n : Nat) (c : LegCall) : Option LegsWorld :=
  match c.phase with
  | .lockingFirst => w.lockRow n c c.plan.firstLockId .lockingSecond
  | .lockingSecond => w.lockRow n c c.plan.secondLockId .debiting
  | .debiting => w.addBalance n c c.plan.fromAccountId (-c.plan.amountCents) .crediting
  | .crediting => w.addBalance n c c.plan.toAccountId c.plan.amountCents .committing
  | .committing => some (w.commit n c .committed)
  | _ => none

def request (w : LegsWorld) (n : Nat) : Option (Nat × Nat) := (w.call n).bind LegCall.request

end LegsWorld

/-- Legs start between existing accounts. -/
def legStep (w : LegsWorld) : LegEvent → Option LegsWorld
  | .start n workerLabel fromAccountId toAccountId amountCents =>
    match w.call n with
    | some _ => none
    | none =>
      if fromAccountId ∈ w.ids ∧ toAccountId ∈ w.ids then
        let plan :=
          planLeg .consistentLockOrder workerLabel fromAccountId toAccountId amountCents
        some (w.put n { plan })
      else none
  | .query n =>
    match w.call n with
    | some c => w.runLegAttempt n c
    | none => none
  | .loseReply n =>
    match w.call n with
    | some c => if c.phase = .committing then some (w.commit n c .replyLost) else none
    | none => none
  | .abort n =>
    match w.call n with
    | some c => if c.phase.hasEnded then none else some (w.abort n c)
    | none => none

/-- No leg is on its way. -/
structure LegsWorld.Idle (w : LegsWorld) : Prop where
  rows : ∀ k, (w.accounts k).held = none
  calls : w.call = fun _ => none
  commits : w.commits = []

/-- The amount of a leg into an account less the amount out of it. -/
def LegPlan.net (plan : LegPlan) (accountId : Nat) : Int :=
  (if accountId = plan.toAccountId then plan.amountCents else 0) -
    if accountId = plan.fromAccountId then plan.amountCents else 0

def netLegs (commits : List (Nat × LegPlan)) (accountId : Nat) : Int :=
  (commits.map fun commit => commit.2.net accountId).sum

end SystemsLab.Deadlocks
