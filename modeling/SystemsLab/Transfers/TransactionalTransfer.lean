import SystemsLab.Framework.RowVersions
import SystemsLab.Framework.Table
import SystemsLab.Framework.Transition

/-!
# A transfer in one transaction

`performTransactionalTransfer` inserts a `pending` row, debits, credits and completes the row in
one transaction. When anything fails it rolls back and records a `failed` row in a statement of
its own. A step is one statement of one call at READ COMMITTED; every statement may fail.
-/

namespace SystemsLab.Transfers

inductive TransferMechanism
  | naive
  | transactional
  deriving DecidableEq, Repr

inductive TransferStatus
  | pending
  | completed
  | failed
  deriving DecidableEq, Repr

structure TransferRow where
  id : Nat
  fromAccountId : Nat
  toAccountId : Nat
  amountCents : Int
  mechanism : TransferMechanism
  status : TransferStatus
  failureReason : Option String := none
  deriving DecidableEq, Repr

structure TransactionalTransferOptions where
  fromAccountId : Nat
  toAccountId : Nat
  amountCents : Int
  injectFailureAfterDebit : Bool
  deriving DecidableEq, Repr

inductive TransactionalTransferResult
  | committed (transferId : Nat)
  | notCommitted (transferId : Nat) (reason : String)
  | threw
  deriving DecidableEq, Repr

/-- The statement a call sends next; `row` is the transfer its transaction sees. The server has
already undone the transaction of an `aborted` call. -/
inductive TransferPhase
  | connecting
  | inserting
  | debiting (row : TransferRow)
  | crediting (row : TransferRow)
  | completing (row : TransferRow)
  | committing (row : TransferRow)
  | rollingBack (reason : String)
  | aborted (reason : String)
  | recording (reason : String)
  | returned (result : TransactionalTransferResult)
  deriving DecidableEq, Repr

structure TransferCall where
  opts : TransactionalTransferOptions
  phase : TransferPhase := .connecting
  deriving DecidableEq, Repr

/-- `known` are the ids in `accounts`; a version of an account is its `balance_cents`. -/
structure TransfersWorld where
  known : Nat → Bool
  accounts : RowVersions Nat Nat Int
  transfers : List TransferRow := []
  transferSeq : Nat := 1
  call : Nat → Option TransferCall := fun _ => none

/-- A failed statement may have used up an id, which `skip` models. -/
inductive TransferEvent
  | start (call : Nat) (opts : TransactionalTransferOptions)
  | query (call : Nat)
  | fail (call : Nat) (reason : String)
  | loseReply (call : Nat)
  | skip
  deriving DecidableEq, Repr

def TransactionalTransferOptions.row (opts : TransactionalTransferOptions) (id : Nat)
    (status : TransferStatus) (failureReason : Option String) : TransferRow where
  id := id
  fromAccountId := opts.fromAccountId
  toAccountId := opts.toAccountId
  amountCents := opts.amountCents
  mechanism := .transactional
  status := status
  failureReason := failureReason

/-- The checks on `transfers`, and its foreign keys. -/
def TransferRow.valid (known : Nat → Bool) (row : TransferRow) : Bool :=
  decide (0 < row.amountCents) && decide (row.amountCents ≤ maxInteger) &&
    row.fromAccountId != row.toAccountId && known row.fromAccountId && known row.toAccountId

/-- `UPDATE accounts SET balance_cents = balance_cents + d WHERE id = k`, with the check on
the balance. -/
def addBalance (accounts : RowVersions Nat Nat Int) (n k : Nat) (d : Int) :
    Option (RowVersions Nat Nat Int) :=
  match (accounts k).version n with
  | none => none
  | some balance =>
    if 0 ≤ balance + d ∧ balance + d ≤ maxInteger then some (accounts.put n k (balance + d))
    else none

namespace TransfersWorld

def put (w : TransfersWorld) (n : Nat) (c : TransferCall) : TransfersWorld :=
  { w with call := Function.update w.call n (some c) }

def rollback (w : TransfersWorld) (n : Nat) (c : TransferCall) (phase : TransferPhase) :
    TransfersWorld :=
  { w.put n { c with phase } with accounts := w.accounts.rollback n }

def commit (w : TransfersWorld) (n : Nat) (c : TransferCall) (row : TransferRow) :
    TransfersWorld :=
  { w.put n { c with phase := .returned (.committed row.id) } with
    accounts := w.accounts.commit n
    transfers := w.transfers ++ [row] }

/-- The audit row, on an implicit transaction of its own. -/
def recordFailure (w : TransfersWorld) (n : Nat) (c : TransferCall) (reason : String)
    (result : Nat → TransactionalTransferResult) : Option TransfersWorld :=
  let row := c.opts.row w.transferSeq .failed (some reason)
  if row.valid w.known then
    some { w.put n { c with phase := .returned (result row.id) } with
      transfers := w.transfers ++ [row]
      transferSeq := w.transferSeq + 1 }
  else none

def simulatedCrash : String :=
  "simulated crash after debit, before credit (transactional transfer)"

/-- The next statement of `performTransactionalTransfer` succeeds. -/
def performTransactionalTransfer (w : TransfersWorld) (n : Nat) (c : TransferCall) :
    Option TransfersWorld :=
  match c.phase with
  | .connecting => some (w.put n { c with phase := .inserting })
  | .inserting =>
    let row := c.opts.row w.transferSeq .pending none
    if row.valid w.known then
      some { w.put n { c with phase := .debiting row } with transferSeq := w.transferSeq + 1 }
    else none
  | .debiting row =>
    let phase := if c.opts.injectFailureAfterDebit then TransferPhase.rollingBack simulatedCrash
      else .crediting row
    (addBalance w.accounts n c.opts.fromAccountId (-c.opts.amountCents)).map fun accounts =>
      { w.put n { c with phase } with accounts }
  | .crediting row =>
    (addBalance w.accounts n c.opts.toAccountId c.opts.amountCents).map fun accounts =>
      { w.put n { c with phase := .completing row } with accounts }
  | .completing row =>
    some (w.put n { c with phase := .committing { row with status := .completed } })
  | .committing row => some (w.commit n c row)
  | .rollingBack reason => some (w.rollback n c (.recording reason))
  | .aborted reason => some (w.rollback n c (.recording reason))
  | .recording reason => w.recordFailure n c reason (.notCommitted · reason)
  | .returned _ => none

/-- The next statement of the call fails: inside the transaction the error is caught, inside
the `catch` block it is thrown. -/
def failStatement (w : TransfersWorld) (n : Nat) (c : TransferCall) (reason : String) :
    Option TransfersWorld :=
  match c.phase with
  | .connecting => some (w.put n { c with phase := .returned .threw })
  | .inserting => some (w.rollback n c (.aborted reason))
  | .debiting _ => some (w.rollback n c (.aborted reason))
  | .crediting _ => some (w.rollback n c (.aborted reason))
  | .completing _ => some (w.rollback n c (.aborted reason))
  | .committing _ => some (w.rollback n c (.aborted reason))
  | .rollingBack _ => some (w.rollback n c (.returned .threw))
  | .aborted _ => some (w.rollback n c (.returned .threw))
  | .recording _ => some (w.put n { c with phase := .returned .threw })
  | .returned _ => none

end TransfersWorld

def transferStep (w : TransfersWorld) : TransferEvent → Option TransfersWorld
  | .start n opts =>
    match w.call n with
    | some _ => none
    | none => some (w.put n { opts })
  | .query n =>
    match w.call n with
    | some c => w.performTransactionalTransfer n c
    | none => none
  | .fail n reason =>
    match w.call n with
    | some c => w.failStatement n c reason
    | none => none
  | .loseReply n =>
    match w.call n with
    | some c =>
      match c.phase with
      | .recording reason => w.recordFailure n c reason fun _ => .threw
      | _ => none
    | none => none
  | .skip => some { w with transferSeq := w.transferSeq + 1 }

/-- No transaction is open and no call is on its way. -/
structure TransfersWorld.Idle (w : TransfersWorld) : Prop where
  rows : ∀ k, (w.accounts k).held = none
  calls : w.call = fun _ => none

/-- What a transfer does to an account once it is `completed`. -/
def TransferRow.effect (row : TransferRow) (accountId : Nat) : Int :=
  (if accountId = row.toAccountId then row.amountCents else 0) -
    if accountId = row.fromAccountId then row.amountCents else 0

/-- The `completed` transfers into an account less those out of it. -/
def netCompleted (rows : List TransferRow) (accountId : Nat) : Int :=
  ((rows.filter (·.status = .completed)).map (·.effect accountId)).sum

end SystemsLab.Transfers
