import SystemsLab.Framework.LockTable
import SystemsLab.Framework.Table
import SystemsLab.Framework.Transition

/-!
# Payments under an idempotency key

`performIdempotentPaymentAttempt` inserts a payment unless its key is there, and otherwise reads
the row of that key. `performCachedResultPaymentAttempt` also stores what the payment processor
computed for the call. A step is the work of one statement, or its commit; an insert that waits
for another one under the same key is not enabled.
-/

namespace SystemsLab.Idempotency

inductive PaymentStatus
  | completed
  | failed
  deriving DecidableEq, Repr

structure PaymentRow where
  id : Nat
  publicId : String
  idempotencyKey : Option String
  amountCents : Int
  payee : String
  status : PaymentStatus
  confirmationCode : Option String
  processingFeeCents : Option Int
  createdAt : Int
  deriving DecidableEq, Repr

structure CachedResultAttempt where
  idempotencyKey : String
  amountCents : Int
  payee : String
  deriving DecidableEq, Repr

/-- What `callPaymentProcessor` returns: no two calls need to agree. -/
structure ProcessorResult where
  confirmationCode : String
  processingFeeCents : Int
  deriving DecidableEq, Repr

/-- `locallyComputed` is `none` where there is no processor. -/
structure CachedResultOutcome where
  row : PaymentRow
  wasNewlyInserted : Bool
  locallyComputed : Option ProcessorResult
  deriving DecidableEq, Repr

inductive PaymentError
  | outOfRange
  | amountPositive
  | publicIdUnique
  | conflictWithoutRow (message : String)
  | connection
  deriving DecidableEq, Repr

/-- What a call sends next, or how it ended. After `replyLost` its row is committed, but the
client was not told and throws. -/
inductive PaymentPhase
  | inserting
  | committing
  | selecting
  | returned (outcome : CachedResultOutcome)
  | threw (error : PaymentError)
  | replyLost
  deriving DecidableEq, Repr

def PaymentPhase.hasInserted : PaymentPhase → Bool
  | .returned outcome => outcome.wasNewlyInserted
  | .replyLost => true
  | _ => false

def PaymentPhase.hasEnded : PaymentPhase → Bool
  | .returned _ => true
  | .threw _ => true
  | .replyLost => true
  | _ => false

/-- `id`, `publicId` and `createdAt` are the defaults of the row, fixed when the `INSERT` begins. -/
structure PaymentCall where
  attempt : CachedResultAttempt
  locallyComputed : Option ProcessorResult
  id : Nat
  publicId : String
  createdAt : Int
  phase : PaymentPhase := .inserting
  deriving DecidableEq, Repr

/-- The row that the `INSERT` of the call writes. -/
def PaymentCall.row (c : PaymentCall) : PaymentRow where
  id := c.id
  publicId := c.publicId
  idempotencyKey := some c.attempt.idempotencyKey
  amountCents := c.attempt.amountCents
  payee := c.attempt.payee
  status := .completed
  confirmationCode := c.locallyComputed.map ProcessorResult.confirmationCode
  processingFeeCents := c.locallyComputed.map ProcessorResult.processingFeeCents
  createdAt := c.createdAt

/-- The key that a call has inserted and not committed. -/
def PaymentCall.claimedKey (c : PaymentCall) : Option String :=
  match c.phase with
  | .committing => some c.attempt.idempotencyKey
  | _ => none

def PaymentCall.claimedPublicId (c : PaymentCall) : Option String :=
  match c.phase with
  | .committing => some c.publicId
  | _ => none

structure PaymentsWorld where
  payments : List PaymentRow := []
  sequence : Nat := 1
  keyLock : LockTable String Nat := fun _ => none
  publicIdLock : LockTable String Nat := fun _ => none
  call : Nat → Option PaymentCall := fun _ => none

inductive PaymentEvent
  | performIdempotentPaymentAttempt (call : Nat) (attempt : CachedResultAttempt)
      (publicId : String) (createdAt : Int)
  | performCachedResultPaymentAttempt (call : Nat) (attempt : CachedResultAttempt)
      (locallyComputed : ProcessorResult) (publicId : String) (createdAt : Int)
  | query (call : Nat)
  | loseReply (call : Nat)
  | abort (call : Nat)
  deriving DecidableEq, Repr

/-- `idempotency_key` may be null, and nulls are not equal to each other. -/
def keys (payments : List PaymentRow) : List String := payments.filterMap PaymentRow.idempotencyKey

def getPaymentsByIdempotencyKey (payments : List PaymentRow) (idempotencyKey : String) :
    List PaymentRow :=
  payments.filter (·.idempotencyKey = some idempotencyKey)

/-- Whether a value fits an `integer` column. -/
def fitsInteger (n : Int) : Bool := decide (-maxInteger - 1 ≤ n ∧ n ≤ maxInteger)

namespace PaymentsWorld

def put (w : PaymentsWorld) (n : Nat) (c : PaymentCall) : PaymentsWorld :=
  { w with call := Function.update w.call n (some c) }

def begin (w : PaymentsWorld) (n : Nat) (attempt : CachedResultAttempt)
    (locallyComputed : Option ProcessorResult) (publicId : String) (createdAt : Int) :
    Option PaymentsWorld :=
  match w.call n with
  | some _ => none
  | none =>
    let c : PaymentCall := { attempt, locallyComputed, id := w.sequence, publicId, createdAt }
    some { w.put n c with sequence := w.sequence + 1 }

def abort (w : PaymentsWorld) (n : Nat) (c : PaymentCall) (error : PaymentError) :
    PaymentsWorld :=
  { w.put n { c with phase := .threw error } with
    keyLock := w.keyLock.release c.claimedKey
    publicIdLock := w.publicIdLock.release c.claimedPublicId }

def commit (w : PaymentsWorld) (n : Nat) (c : PaymentCall) (phase : PaymentPhase) :
    PaymentsWorld :=
  { w.put n { c with phase } with
    payments := w.payments ++ [c.row]
    keyLock := w.keyLock.release c.claimedKey
    publicIdLock := w.publicIdLock.release c.claimedPublicId }

/-- `INSERT … ON CONFLICT (idempotency_key) DO NOTHING RETURNING *`, up to its commit. The row is
checked first, then the key, then the other unique columns. -/
def insertPayment (w : PaymentsWorld) (n : Nat) (c : PaymentCall) : Option PaymentsWorld :=
  let row := c.row
  let key := c.attempt.idempotencyKey
  if ¬ (fitsInteger row.amountCents ∧ row.processingFeeCents.all fitsInteger) then
    some (w.abort n c .outOfRange)
  else if row.amountCents ≤ 0 then some (w.abort n c .amountPositive)
  else if key ∈ keys w.payments then some (w.put n { c with phase := .selecting })
  else if (w.keyLock key).isSome then none
  else if row.publicId ∈ w.payments.map PaymentRow.publicId then
    some (w.abort n c .publicIdUnique)
  else if (w.publicIdLock row.publicId).isSome then none
  else some { w.put n { c with phase := .committing } with
    keyLock := w.keyLock.acquire key n
    publicIdLock := w.publicIdLock.acquire row.publicId n }

/-- The next statement of a call. -/
def query (w : PaymentsWorld) (n : Nat) (c : PaymentCall) : Option PaymentsWorld :=
  match c.phase with
  | .inserting => w.insertPayment n c
  | .committing => some (w.commit n c (.returned ⟨c.row,true,c.locallyComputed⟩))
  | .selecting =>
    match getPaymentsByIdempotencyKey w.payments c.attempt.idempotencyKey with
    | row::_ => some (w.put n { c with phase := .returned ⟨row,false,c.locallyComputed⟩ })
    | [] =>
      let message := "idempotency_key " ++ c.attempt.idempotencyKey ++
        " conflicted but no row was found"
      some (w.abort n c (.conflictWithoutRow message))
  | _ => none

end PaymentsWorld

def paymentStep (w : PaymentsWorld) : PaymentEvent → Option PaymentsWorld
  | .performIdempotentPaymentAttempt n attempt publicId createdAt =>
    w.begin n attempt none publicId createdAt
  | .performCachedResultPaymentAttempt n attempt locallyComputed publicId createdAt =>
    w.begin n attempt (some locallyComputed) publicId createdAt
  | .query n =>
    match w.call n with
    | some c => w.query n c
    | none => none
  | .loseReply n =>
    match w.call n with
    | some c => if c.phase = .committing then some (w.commit n c .replyLost) else none
    | none => none
  | .abort n =>
    match w.call n with
    | some c => if c.phase.hasEnded then none else some (w.abort n c .connection)
    | none => none

/-- No call is on its way, and no two rows have the same key. -/
structure PaymentsWorld.Idle (w : PaymentsWorld) : Prop where
  keys : (keys w.payments).Nodup
  keyLock : w.keyLock = fun _ => none
  publicIdLock : w.publicIdLock = fun _ => none
  calls : w.call = fun _ => none

end SystemsLab.Idempotency
