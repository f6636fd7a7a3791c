import SystemsLab.Capstone.ProtectedWorker
import SystemsLab.Framework.LockTable
import SystemsLab.Framework.Transition
import Mathlib.Data.Rat.Defs

/-!
# Reserving a seat and checking out

`reserveSeat` is one statement. `checkoutIdempotent` is a transaction of three: the order
under its idempotency key, the guarded seat update, the outbox event. A step is one statement
of one call at READ COMMITTED: a statement that has to wait for another transaction is not
enabled until that transaction has ended.
-/

namespace SystemsLab.Capstone

open SystemsLab.Outbox

inductive SeatStatus
  | AVAILABLE
  | RESERVED
  | SOLD
  deriving DecidableEq, Repr

structure SeatRow where
  id : Nat
  status : SeatStatus := .AVAILABLE
  reservationToken : Option String := none
  reservedBy : Option String := none
  reservedUntil : Option Int := none
  soldTo : Option String := none
  deriving DecidableEq, Repr

structure OrderRow where
  id : Nat
  publicId : String
  idempotencyKey : String
  seatId : Nat
  customerId : String
  customerEmail : String
  amountCents : Int
  correlationId : String
  deriving DecidableEq, Repr

structure ReserveSeatOpts where
  seatId : Nat
  customerId : String
  holdMinutes : ℚ := 10

inductive ReservationOutcome
  | reserved (seatId : Nat) (reservationToken : String)
  | unavailable (seatId : Nat)
  deriving DecidableEq, Repr

structure IdempotentCheckoutInput where
  seatId : Nat
  customerId : String
  customerEmail : String
  amountCents : Int
  reservationToken : String
  idempotencyKey : String
  correlationId : String
  deriving DecidableEq, Repr

inductive CheckoutError
  | aborted
  | amountPositive
  | publicIdUnique
  | seatReference
  | conflictWithoutRow (message : String)
  deriving DecidableEq, Repr

inductive CheckoutResult
  | created (orderId : Nat) (orderPublicId : String)
  | duplicate (orderId : Nat) (orderPublicId : String)
  | rejected (reason : String)
  | thrown (error : CheckoutError)
  deriving DecidableEq, Repr

/-- The statement a call sends next. -/
inductive CheckoutPhase
  | insertingOrder
  | updatingSeat
  | insertingEvent
  | committing (event : OutboxRow EventPayload)
  | rollingBack
  | selecting
  | committingDuplicate (existing : Option (Nat × String))
  | returned (result : CheckoutResult)
  deriving DecidableEq, Repr

/-- `now` is the start of the transaction; the two ids are the defaults of its new order. -/
structure CheckoutCall where
  input : IdempotentCheckoutInput
  now : Int
  orderId : Nat
  orderPublicId : String
  phase : CheckoutPhase := .insertingOrder
  deriving DecidableEq, Repr

def CheckoutCall.order (c : CheckoutCall) : OrderRow where
  id := c.orderId
  publicId := c.orderPublicId
  idempotencyKey := c.input.idempotencyKey
  seatId := c.input.seatId
  customerId := c.input.customerId
  customerEmail := c.input.customerEmail
  amountCents := c.input.amountCents
  correlationId := c.input.correlationId

def CheckoutCall.orderConfirmed (c : CheckoutCall) (id : Nat) (publicId : String) :
    OutboxRow EventPayload where
  id := id
  publicId := publicId
  eventType := "OrderConfirmed"
  payload :=
    { orderPublicId := c.orderPublicId
      correlationId := c.input.correlationId
      customerEmail := c.input.customerEmail
      amountCents := c.input.amountCents }
  maxAttempts := 3
  createdAt := c.now

/-- The transaction has inserted its order and not ended. -/
def CheckoutPhase.inserted : CheckoutPhase → Bool
  | .updatingSeat => true
  | .insertingEvent => true
  | .committing _ => true
  | .rollingBack => true
  | _ => false

/-- The transaction has updated its seat and not ended. -/
def CheckoutPhase.sold : CheckoutPhase → Bool
  | .insertingEvent => true
  | .committing _ => true
  | _ => false

def CheckoutCall.heldKey (c : CheckoutCall) : Option String :=
  if c.phase.inserted then some c.input.idempotencyKey else none

def CheckoutCall.heldPublicId (c : CheckoutCall) : Option String :=
  if c.phase.inserted then some c.orderPublicId else none

def CheckoutCall.heldSeat (c : CheckoutCall) : Option Nat :=
  if c.phase.sold then some c.input.seatId else none

/-- The rows one call has committed. -/
structure CheckoutCommit where
  call : Nat
  order : OrderRow
  event : OutboxRow EventPayload
  deriving DecidableEq, Repr

/-- The tables hold what is committed. The lock tables belong to the unique indexes on
`orders` and to the rows of `seats`; `commits` records who wrote what. -/
structure CheckoutWorld where
  seats : List SeatRow
  orders : List OrderRow := []
  outbox : List (OutboxRow EventPayload) := []
  clock : Int := 0
  orderSeq : Nat := 1
  outboxSeq : Nat := 1
  keyLock : LockTable String Nat := fun _ => none
  publicIdLock : LockTable String Nat := fun _ => none
  seatLock : LockTable Nat Nat := fun _ => none
  call : Nat → Option CheckoutCall := fun _ => none
  reservations : List ReservationOutcome := []
  commits : List CheckoutCommit := []

/-- `uuid` is what the server's `gen_random_uuid()` returns. -/
inductive CheckoutEvent
  | reserve (opts : ReserveSeatOpts) (reservationToken : String) (now : Int)
  | start (call : Nat) (input : IdempotentCheckoutInput) (uuid : String)
  | query (call : Nat) (uuid : String)
  | abort (call : Nat)
  | advance (us : Nat)

/-- `WHERE id = $4 AND status = 'AVAILABLE'`. -/
def SeatRow.reservable (seatId : Nat) (row : SeatRow) : Bool :=
  row.id == seatId && row.status == .AVAILABLE

/-- Timestamps are in microseconds. -/
def SeatRow.reserve (opts : ReserveSeatOpts) (reservationToken : String) (now : Int)
    (row : SeatRow) : SeatRow :=
  { row with
    status := .RESERVED
    reservationToken := some reservationToken
    reservedBy := some opts.customerId
    reservedUntil := some (now + (opts.holdMinutes * 60000000).floor) }

/-- `WHERE id = $2 AND status = 'RESERVED' AND reserved_by = $1 AND reservation_token = $3
AND reserved_until > now()`. -/
def SeatRow.sellable (input : IdempotentCheckoutInput) (now : Int) (row : SeatRow) : Bool :=
  row.id == input.seatId && row.status == .RESERVED &&
    row.reservedBy == some input.customerId &&
    row.reservationToken == some input.reservationToken &&
    row.reservedUntil.any fun t => decide (now < t)

def SeatRow.sell (customerId : String) (row : SeatRow) : SeatRow :=
  { row with status := .SOLD, soldTo := some customerId }

def CheckoutWorld.put (w : CheckoutWorld) (n : Nat) (c : CheckoutCall) : CheckoutWorld :=
  { w with call := Function.update w.call n (some c) }

/-- A transaction ends: its locks go, and the call returns or throws. -/
def CheckoutWorld.finish (w : CheckoutWorld) (n : Nat) (c : CheckoutCall)
    (result : CheckoutResult) : CheckoutWorld :=
  { w.put n { c with phase := .returned result } with
    keyLock := w.keyLock.release c.heldKey
    publicIdLock := w.publicIdLock.release c.heldPublicId
    seatLock := w.seatLock.release c.heldSeat }

def reserveSeat (w : CheckoutWorld) (opts : ReserveSeatOpts) (reservationToken : String)
    (now : Int) : Option CheckoutWorld :=
  if w.seats.countP (SeatRow.reservable opts.seatId) = 1 then
    match w.seatLock opts.seatId with
    | some _ => none
    | none =>
      let seats := updateWhere (SeatRow.reservable opts.seatId)
        (SeatRow.reserve opts reservationToken now) w.seats
      let outcome := ReservationOutcome.reserved opts.seatId reservationToken
      some { w with seats, reservations := w.reservations ++ [outcome] }
  else some { w with reservations := w.reservations ++ [.unavailable opts.seatId] }

/-- `INSERT … ON CONFLICT (idempotency_key) DO NOTHING`. The row is checked first. Only the
conflict on the key is tolerated, and the foreign key is checked last. -/
def insertOrder (w : CheckoutWorld) (n : Nat) (c : CheckoutCall) : Option CheckoutWorld :=
  let order := c.order
  if order.amountCents ≤ 0 then some (w.finish n c (.thrown .amountPositive))
  else if order.idempotencyKey ∈ w.orders.map OrderRow.idempotencyKey then
    some (w.put n { c with phase := .selecting })
  else if (w.keyLock order.idempotencyKey).isSome then none
  else if order.publicId ∈ w.orders.map OrderRow.publicId then
    some (w.finish n c (.thrown .publicIdUnique))
  else if (w.publicIdLock order.publicId).isSome then none
  else if order.seatId ∈ w.seats.map SeatRow.id then
    some { w.put n { c with phase := .updatingSeat } with
      keyLock := w.keyLock.acquire order.idempotencyKey n
      publicIdLock := w.publicIdLock.acquire order.publicId n }
  else some (w.finish n c (.thrown .seatReference))

def updateSeat (w : CheckoutWorld) (n : Nat) (c : CheckoutCall) : Option CheckoutWorld :=
  if w.seats.countP (SeatRow.sellable c.input c.now) = 1 then
    match w.seatLock c.input.seatId with
    | some _ => none
    | none => some { w.put n { c with phase := .insertingEvent } with
        seatLock := w.seatLock.acquire c.input.seatId n }
  else some (w.put n { c with phase := .rollingBack })

def CheckoutWorld.commitOrder (w : CheckoutWorld) (n : Nat) (c : CheckoutCall)
    (event : OutboxRow EventPayload) : CheckoutWorld :=
  let written := { w with
    seats := updateWhere (·.id == c.input.seatId) (SeatRow.sell c.input.customerId) w.seats
    orders := w.orders ++ [c.order]
    outbox := w.outbox ++ [event]
    commits := w.commits ++ [CheckoutCommit.mk n c.order event] }
  written.finish n c (.created c.orderId c.orderPublicId)

/-- The next statement of `checkoutIdempotent`, up to the next `await`. -/
def checkoutIdempotent (w : CheckoutWorld) (n : Nat) (c : CheckoutCall) (uuid : String) :
    Option CheckoutWorld :=
  match c.phase with
  | .insertingOrder => insertOrder w n c
  | .updatingSeat => updateSeat w n c
  | .insertingEvent =>
    let event := c.orderConfirmed w.outboxSeq uuid
    some { w.put n { c with phase := .committing event } with outboxSeq := w.outboxSeq + 1 }
  | .committing event => some (w.commitOrder n c event)
  | .rollingBack =>
    some (w.finish n c (.rejected "reservation is not valid or has expired"))
  | .selecting =>
    let row := rowAt OrderRow.idempotencyKey w.orders c.input.idempotencyKey
    let existing := row.map fun order => (order.id,order.publicId)
    some (w.put n { c with phase := .committingDuplicate existing })
  | .committingDuplicate (some (orderId,orderPublicId)) =>
    some (w.finish n c (.duplicate orderId orderPublicId))
  | .committingDuplicate none =>
    let message :=
      "idempotency_key " ++ c.input.idempotencyKey ++ " conflicted but no row was found"
    some (w.finish n c (.thrown (.conflictWithoutRow message)))
  | .returned _ => none

def checkoutStep (w : CheckoutWorld) : CheckoutEvent → Option CheckoutWorld
  | .reserve opts reservationToken now =>
    if now ≤ w.clock then reserveSeat w opts reservationToken now else none
  | .start n input uuid =>
    match w.call n with
    | some _ => none
    | none =>
      let c : CheckoutCall :=
        { input, now := w.clock, orderId := w.orderSeq, orderPublicId := uuid }
      some { w.put n c with orderSeq := w.orderSeq + 1 }
  | .query n uuid =>
    match w.call n with
    | some c => checkoutIdempotent w n c uuid
    | none => none
  | .abort n =>
    match w.call n with
    | some c =>
      match c.phase with
      | .returned _ => none
      | _ => some (w.finish n c (.thrown .aborted))
    | none => none
  | .advance us => some { w with clock := w.clock + us }

/-- Seats that are all `AVAILABLE`, no orders, no events, no calls. -/
def CheckoutWorld.Fresh (w : CheckoutWorld) : Prop :=
  (w.seats.map SeatRow.id).Nodup ∧ (∀ row ∈ w.seats, row.status = .AVAILABLE) ∧
    w.orders = [] ∧ w.outbox = [] ∧ w.keyLock = (fun _ => none) ∧
    w.publicIdLock = (fun _ => none) ∧ w.seatLock = (fun _ => none) ∧
    w.call = (fun _ => none) ∧ w.commits = []

end SystemsLab.Capstone
