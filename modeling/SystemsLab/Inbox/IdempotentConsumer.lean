import SystemsLab.Framework.LockTable
import SystemsLab.Framework.RowVersions
import SystemsLab.Framework.Table
import SystemsLab.Framework.Transition

/-!
# An idempotent consumer

`applyIdempotent` claims a message by inserting its id and credits the account in the same
transaction. A step is one statement of one delivery at READ COMMITTED. A statement that waits
for another transaction is not enabled, and any statement may fail.
-/

namespace SystemsLab.Inbox

structure CreditAppliedMessage where
  messageId : String
  accountId : Nat
  amountCents : Int
  deriving DecidableEq, Repr

structure ProcessedMessage where
  messageId : String
  accountId : Nat
  amountCents : Int
  deriving DecidableEq, Repr

inductive IdempotentOutcome
  | applied
  | duplicate
  deriving DecidableEq, Repr

/-- What a delivery sends next, or how it ended. After `replyLost` the transaction is committed,
but the client was not told and throws. -/
inductive DeliveryPhase
  | inserting
  | updating
  | committing
  | rollingBack
  | returned (outcome : IdempotentOutcome)
  | threw
  | replyLost
  deriving DecidableEq, Repr

structure Delivery where
  message : CreditAppliedMessage
  phase : DeliveryPhase := .inserting
  deriving DecidableEq, Repr

def CreditAppliedMessage.row (message : CreditAppliedMessage) : ProcessedMessage where
  messageId := message.messageId
  accountId := message.accountId
  amountCents := message.amountCents

/-- The id that the open transaction of a delivery has inserted. -/
def Delivery.claimed (d : Delivery) : Option String :=
  match d.phase with
  | .updating => some d.message.messageId
  | .committing => some d.message.messageId
  | _ => none

def DeliveryPhase.hasCommitted : DeliveryPhase → Bool
  | .returned .applied => true
  | .replyLost => true
  | _ => false

def DeliveryPhase.hasEnded : DeliveryPhase → Bool
  | .returned _ => true
  | .threw => true
  | .replyLost => true
  | _ => false

/-- `known` are the ids in `accounts`; a version of an account is its `balance_cents`. -/
structure InboxWorld where
  known : Nat → Bool
  accounts : RowVersions Nat Nat Int
  processed : List ProcessedMessage := []
  messageLock : LockTable String Nat := fun _ => none
  call : Nat → Option Delivery := fun _ => none

inductive InboxEvent
  | deliver (call : Nat) (message : CreditAppliedMessage)
  | query (call : Nat)
  | loseReply (call : Nat)
  | abort (call : Nat)
  deriving DecidableEq, Repr

namespace InboxWorld

def put (w : InboxWorld) (n : Nat) (d : Delivery) : InboxWorld :=
  { w with call := Function.update w.call n (some d) }

/-- A failed statement: `ROLLBACK`, and the error is thrown on. -/
def abort (w : InboxWorld) (n : Nat) (d : Delivery) : InboxWorld :=
  { w.put n { d with phase := .threw } with
    accounts := w.accounts.rollback n
    messageLock := w.messageLock.release d.claimed }

def commit (w : InboxWorld) (n : Nat) (d : Delivery) (phase : DeliveryPhase) : InboxWorld :=
  { w.put n { d with phase } with
    accounts := w.accounts.commit n
    processed := w.processed ++ [d.message.row]
    messageLock := w.messageLock.release d.claimed }

/-- `INSERT … ON CONFLICT (message_id) DO NOTHING`. The row is checked first, and the foreign
key last. -/
def insertMessage (w : InboxWorld) (n : Nat) (d : Delivery) : Option InboxWorld :=
  let row := d.message.row
  if row.amountCents ≤ 0 ∨ maxInteger < row.amountCents then some (w.abort n d)
  else if row.messageId ∈ w.processed.map ProcessedMessage.messageId then
    some (w.put n { d with phase := .rollingBack })
  else if (w.messageLock row.messageId).isSome then none
  else if w.known row.accountId then
    some { w.put n { d with phase := .updating } with
      messageLock := w.messageLock.acquire row.messageId n }
  else some (w.abort n d)

/-- `SET balance_cents = balance_cents + $1 WHERE id = $2`. -/
def updateBalance (w : InboxWorld) (n : Nat) (d : Delivery) : Option InboxWorld :=
  match (w.accounts d.message.accountId).version n with
  | none => none
  | some balance =>
    let balance := balance + d.message.amountCents
    if 0 ≤ balance ∧ balance ≤ maxInteger then
      some { w.put n { d with phase := .committing } with
        accounts := w.accounts.put n d.message.accountId balance }
    else some (w.abort n d)

/-- The next statement of `applyIdempotent`. -/
def applyIdempotent (w : InboxWorld) (n : Nat) (d : Delivery) : Option InboxWorld :=
  match d.phase with
  | .inserting => w.insertMessage n d
  | .updating => w.updateBalance n d
  | .committing => some (w.commit n d (.returned .applied))
  | .rollingBack => some (w.put n { d with phase := .returned .duplicate })
  | _ => none

end InboxWorld

def inboxStep (w : InboxWorld) : InboxEvent → Option InboxWorld
  | .deliver n message =>
    match w.call n with
    | some _ => none
    | none => some (w.put n { message })
  | .query n =>
    match w.call n with
    | some d => w.applyIdempotent n d
    | none => none
  | .loseReply n =>
    match w.call n with
    | some d => if d.phase = .committing then some (w.commit n d .replyLost) else none
    | none => none
  | .abort n =>
    match w.call n with
    | some d => if d.phase.hasEnded then none else some (w.abort n d)
    | none => none

/-- Nothing is going on yet, and `message_id` is the primary key of what is there. -/
structure InboxWorld.Idle (w : InboxWorld) : Prop where
  rows : ∀ k, (w.accounts k).held = none
  nodup : (w.processed.map ProcessedMessage.messageId).Nodup
  locks : w.messageLock = fun _ => none
  calls : w.call = fun _ => none

/-- The sum of `amount_cents` over the rows of one account. -/
def credited (rows : List ProcessedMessage) (accountId : Nat) : Int :=
  ((rows.filter (·.accountId = accountId)).map ProcessedMessage.amountCents).sum

end SystemsLab.Inbox
