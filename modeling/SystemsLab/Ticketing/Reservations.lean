import SystemsLab.Framework.RowVersions
import SystemsLab.Ticketing.SeatTable

/-!
# Reserving, paying and expiring seats

`attemptConditionalReservation` and `completePayment` are one conditional `UPDATE` each.
`attemptRowLockReservation` is a transaction with a `SELECT … FOR UPDATE`, and
`expireReservations` an `UPDATE` that works through the rows that matched when it began. A step
is one statement, or one row of that last one, at READ COMMITTED: whoever has to wait for a row
lock is not enabled, and checks the row again when it is free.
-/

namespace SystemsLab.Ticketing

inductive ReservationResult
  | reserved (seatId : Nat) (buyer reservationToken : String)
  | unavailable (seatId : Nat) (buyer : String)
  deriving DecidableEq, Repr

inductive CompletePaymentResult
  | sold (seatId : Nat)
  | failed (seatId : Nat) (reason : String)
  deriving DecidableEq, Repr

/-- The statement that a row-lock reservation sends next. -/
inductive RowLockPhase
  | selecting
  | updating
  | committing (reservationToken : String) (reservedUntil : Int)
  | rollingBack (found : Bool)
  deriving DecidableEq, Repr

/-- A call on its way, or what it returned. `todo` are the rows that an expiry has yet to lock
and check, `expired` those it has reverted, with their tokens. -/
inductive TicketCall
  | rowLock (seatId : Nat) (buyer : String) (phase : RowLockPhase)
  | expiring (now : Int) (todo : List Nat) (expired : List (Nat × Option String))
  | reservation (result : ReservationResult)
  | payment (result : CompletePaymentResult)
  | expiry (expiredSeatIds : List Nat)
  | threw
  deriving DecidableEq, Repr

/-- `tokens` are what `randomUUID` has returned so far. `history` records the effect of each
committed transaction. -/
structure TicketWorld where
  ids : List Nat
  seats : RowVersions Nat Nat SeatRow
  clock : Int := 0
  tokens : List String := []
  call : Nat → Option TicketCall := fun _ => none
  history : List (Nat × SeatOp) := []

/-- `reservedUntil` is the clock of the client plus the hold. `query` is the next statement of a
transaction; its token and its time are those of the `UPDATE`, if that is next. -/
inductive TicketEvent
  | attemptConditionalReservation (call seatId : Nat) (buyer reservationToken : String)
      (reservedUntil : Int)
  | attemptRowLockReservation (call seatId : Nat) (buyer : String)
  | completePayment (call seatId : Nat) (reservationToken : String) (now : Int)
  | expireReservations (call : Nat) (now : Int)
  | query (call : Nat) (reservationToken : String) (reservedUntil : Int)
  | expireSeat (call seatId : Nat)
  | abort (call : Nat)
  | advance (us : Nat)
  deriving DecidableEq, Repr

/-- What a committed transaction of the call has done. -/
def TicketCall.ops : TicketCall → List SeatOp
  | rowLock seatId buyer (.committing token reservedUntil) =>
    [.reserve seatId token buyer reservedUntil]
  | expiring now _ expired => expired.map fun row => .expire row.1 row.2 now
  | _ => []

namespace TicketWorld

def row (w : TicketWorld) (k : Nat) : SeatRow := (w.seats k).committed

def put (w : TicketWorld) (n : Nat) (c : TicketCall) : TicketWorld :=
  { w with call := Function.update w.call n (some c) }

/-- A single statement changes one row, whose lock is free. -/
def apply (w : TicketWorld) (n k : Nat) (row : SeatRow) (op : SeatOp) (c : TicketCall) :
    Option TicketWorld :=
  match (w.seats k).held with
  | some _ => none
  | none => some { w.put n c with
      seats := w.seats.overwrite k row
      history := w.history ++ [(n,op)] }

def attemptConditionalReservation (w : TicketWorld) (n seatId : Nat)
    (buyer token : String) (reservedUntil : Int) : Option TicketWorld :=
  let w := { w with tokens := token::w.tokens }
  if seatId ∈ w.ids ∧ (w.row seatId).status = .AVAILABLE then
    w.apply n seatId ((w.row seatId).reserve token buyer reservedUntil)
      (.reserve seatId token buyer reservedUntil) (.reservation (.reserved seatId buyer token))
  else some (w.put n (.reservation (.unavailable seatId buyer)))

def completePayment (w : TicketWorld) (n seatId : Nat) (token : String) (now : Int) :
    Option TicketWorld :=
  if seatId ∈ w.ids ∧ (w.row seatId).payable token now then
    w.apply n seatId (w.row seatId).sell (.pay seatId token now) (.payment (.sold seatId))
  else
    let reason := "seat is not RESERVED with this token and an unexpired hold"
    some (w.put n (.payment (.failed seatId reason)))

/-- `SELECT status FROM seats WHERE id = $1 FOR UPDATE`, and the check in the client. -/
def selectForUpdate (w : TicketWorld) (n seatId : Nat) (buyer : String) : Option TicketWorld :=
  if seatId ∈ w.ids then
    match (w.seats seatId).version n with
    | none => none
    | some row =>
      let phase := if row.status = .AVAILABLE then RowLockPhase.updating else .rollingBack true
      some { w.put n (.rowLock seatId buyer phase) with seats := w.seats.put n seatId row }
  else some (w.put n (.rowLock seatId buyer (.rollingBack false)))

/-- The `UPDATE` with `WHERE id = $4`. -/
def updateSeat (w : TicketWorld) (n seatId : Nat) (buyer token : String)
    (reservedUntil : Int) : Option TicketWorld :=
  match (w.seats seatId).version n with
  | none => none
  | some row => some { w.put n (.rowLock seatId buyer (.committing token reservedUntil)) with
      seats := w.seats.put n seatId (row.reserve token buyer reservedUntil)
      tokens := token::w.tokens }

/-- `COMMIT`, or the end of a statement that is a transaction of its own. -/
def commit (w : TicketWorld) (n : Nat) (c result : TicketCall) : TicketWorld :=
  { w.put n result with
    seats := w.seats.commit n
    history := w.history ++ c.ops.map fun op => (n,op) }

def rollback (w : TicketWorld) (n : Nat) (result : TicketCall) : TicketWorld :=
  { w.put n result with seats := w.seats.rollback n }

/-- The next statement of a transaction. -/
def query (w : TicketWorld) (n : Nat) (token : String) (reservedUntil : Int) :
    TicketCall → Option TicketWorld
  | .rowLock seatId buyer .selecting => w.selectForUpdate n seatId buyer
  | .rowLock seatId buyer .updating =>
    if token ∈ w.tokens then none else w.updateSeat n seatId buyer token reservedUntil
  | .rowLock seatId buyer (.committing token reservedUntil) =>
    some (w.commit n (.rowLock seatId buyer (.committing token reservedUntil))
      (.reservation (.reserved seatId buyer token)))
  | .rowLock seatId buyer (.rollingBack _) =>
    some (w.rollback n (.reservation (.unavailable seatId buyer)))
  | .expiring now [] expired =>
    some (w.commit n (.expiring now [] expired) (.expiry (expired.map Prod.fst)))
  | _ => none

/-- The expiry has the lock on a row: it checks the row again, and reverts it. -/
def expireSeat (w : TicketWorld) (n k : Nat) (now : Int) (todo : List Nat)
    (expired : List (Nat × Option String)) : Option TicketWorld :=
  match (w.seats k).version n with
  | none => none
  | some row =>
    if row.expirable now then
      some { w.put n (.expiring now (todo.erase k) (expired ++ [(k,row.reservationToken)])) with
        seats := w.seats.put n k row.release }
    else some (w.put n (.expiring now (todo.erase k) expired))

end TicketWorld

/-- Tokens are never given out twice, and a `now()` is never ahead of the clock. -/
def ticketStep (w : TicketWorld) : TicketEvent → Option TicketWorld
  | .attemptConditionalReservation n seatId buyer token reservedUntil =>
    match w.call n with
    | some _ => none
    | none =>
      if token ∈ w.tokens then none
      else w.attemptConditionalReservation n seatId buyer token reservedUntil
  | .attemptRowLockReservation n seatId buyer =>
    match w.call n with
    | some _ => none
    | none => some (w.put n (.rowLock seatId buyer .selecting))
  | .completePayment n seatId token now =>
    match w.call n with
    | some _ => none
    | none => if now ≤ w.clock then w.completePayment n seatId token now else none
  | .expireReservations n now =>
    match w.call n with
    | some _ => none
    | none =>
      if now ≤ w.clock then
        some (w.put n (.expiring now (w.ids.filter fun k => (w.row k).expirable now) []))
      else none
  | .query n token reservedUntil =>
    match w.call n with
    | some c => w.query n token reservedUntil c
    | none => none
  | .expireSeat n k =>
    match w.call n with
    | some (.expiring now todo expired) =>
      if k ∈ todo then w.expireSeat n k now todo expired else none
    | _ => none
  | .abort n =>
    match w.call n with
    | some (.rowLock _ _ _) => some (w.rollback n .threw)
    | some (.expiring _ _ _) => some (w.rollback n .threw)
    | _ => none
  | .advance us => some { w with clock := w.clock + us }

/-- No call is on its way; the tokens in the rows have been given out. -/
structure TicketWorld.Idle (w : TicketWorld) : Prop where
  locks : ∀ k, (w.seats k).held = none
  tokens : ∀ k token, (w.row k).reservationToken = some token → token ∈ w.tokens
  calls : w.call = fun _ => none
  history : w.history = []

end SystemsLab.Ticketing
