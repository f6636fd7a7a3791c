import SystemsLab.Framework.Program
import SystemsLab.Saga.Schema

/-!
# The steps as programs

`runStep` turns any error inside a step's transaction into a returned outcome. A success is
logged inside the transaction, a failure after the rollback. A program may be interleaved
with others, or stop, between any two of its requests.
-/

namespace SystemsLab.Saga

inductive SagaStep
  | createOrder
  | reserveInventory
  | capturePayment
  | createShipment
  | completeOrder
  | refundPayment
  | releaseInventory
  | cancelOrder
  deriving DecidableEq, Repr

inductive EventName
  | OrderCreated
  | InventoryReserved
  | InventoryReservationFailed
  | PaymentCaptured
  | PaymentFailed
  | ShipmentCreated
  | ShipmentFailed
  | PaymentRefunded
  | InventoryReleased
  | OrderCancelled
  deriving DecidableEq, Repr

inductive StepOutcome (α : Type)
  | ok (result : α)
  | failed (reason : String)
  deriving DecidableEq, Repr

/-- `step_name` is a step, or an event that was published or consumed. -/
inductive LogName
  | step (name : SagaStep)
  | event (name : EventName)
  deriving DecidableEq, Repr

inductive LogOutcome
  | success
  | failure
  | published
  | consumed
  deriving DecidableEq, Repr

structure SagaLogRow where
  orderId : Option Nat
  mechanism : Mechanism
  stepName : LogName
  direction : Direction
  outcome : LogOutcome
  deriving DecidableEq, Repr

structure SagaDb where
  tables : SagaTables
  sagaLog : List SagaLogRow := []
  deriving DecidableEq, Repr

/-- What goes to the database: the transaction of a step, a `SELECT`, or a log row on its own. -/
inductive SagaOp
  | createOrder (mechanism : Mechanism) (input : OrderSagaInput) (simulateFailure : Bool)
  | reserveInventory (mechanism : Mechanism) (order : OrderRef) (itemSku : String)
      (quantity : Int) (simulateFailure : Bool)
  | capturePayment (mechanism : Mechanism) (order : OrderRef) (amountCents : Int)
      (simulateFailure : Bool)
  | createShipment (mechanism : Mechanism) (order : OrderRef) (simulateFailure : Bool)
  | completeOrder (mechanism : Mechanism) (orderId : Nat)
  | refundPayment (mechanism : Mechanism) (orderId : Nat) (payment : PaymentRef)
  | releaseInventory (mechanism : Mechanism) (orderId : Nat) (reservation : ReservationRef)
  | cancelOrder (mechanism : Mechanism) (orderId : Nat)
  | fetchOrderById (orderId : Nat)
  | insertSagaLog (row : SagaLogRow)

def SagaOp.Reply : SagaOp → Type
  | .createOrder .. => StepOutcome OrderRef
  | .reserveInventory .. => StepOutcome ReservationRef
  | .capturePayment .. => StepOutcome PaymentRef
  | .createShipment .. => StepOutcome ShipmentRef
  | .completeOrder .. => StepOutcome Unit
  | .refundPayment .. => StepOutcome Unit
  | .releaseInventory .. => StepOutcome Unit
  | .cancelOrder .. => StepOutcome Unit
  | .fetchOrderById _ => Option OrderRef
  | .insertSagaLog _ => Unit

/-- What the database decides: the transactions that meet a database error, with its message,
and the value of `gen_random_uuid()`. -/
structure Faults where
  fails : SagaStep → Bool := fun _ => false
  reason : String := "connection terminated"
  uuid : String := ""

/-- The body of the `try` in `runStep`. `simulated` is the message of an injected failure. -/
def Faults.attempt {α : Type} (f : Faults) (step : SagaStep) (simulated : Option String)
    (work : Except String α) : Except String α :=
  if f.fails step then .error f.reason
  else
    match simulated with
    | some message => .error message
    | none => work

def simulatedFailure (simulateFailure : Bool) (message : String) : Option String :=
  if simulateFailure then some message else none

/-- Commits the step with its log row, or rolls back. -/
def SagaDb.transact {α : Type} (db : SagaDb) (mechanism : Mechanism) (step : SagaStep)
    (direction : Direction) (orderId : α → Nat) (attempted : Except String (α × SagaTables)) :
    StepOutcome α × SagaDb :=
  match attempted with
  | .ok (result,tables) =>
    let row := ⟨some (orderId result),mechanism,.step step,direction,.success⟩
    (.ok result,⟨tables,db.sagaLog ++ [row]⟩)
  | .error reason => (.failed reason,db)

def SagaOp.exec (f : Faults) : (op : SagaOp) → SagaDb → op.Reply × SagaDb
  | .createOrder mechanism input simulateFailure, db =>
    db.transact mechanism .createOrder .forward OrderRef.id
      (f.attempt .createOrder
        (simulatedFailure simulateFailure
          ("simulated failure: order intake rejected for customer \"" ++ input.customerName ++
            "\""))
        (db.tables.createOrder input f.uuid))
  | .reserveInventory mechanism order itemSku quantity simulateFailure, db =>
    db.transact mechanism .reserveInventory .forward (fun _ => order.id)
      (f.attempt .reserveInventory
        (simulatedFailure simulateFailure
          ("simulated failure: inventory system rejected reserving " ++ toString quantity ++
            "x " ++ itemSku ++ " for order " ++ order.publicId))
        (db.tables.reserveInventory order.id itemSku quantity))
  | .capturePayment mechanism order amountCents simulateFailure, db =>
    db.transact mechanism .capturePayment .forward (fun _ => order.id)
      (f.attempt .capturePayment
        (simulatedFailure simulateFailure
          ("simulated failure: payment gateway declined order " ++ order.publicId))
        (db.tables.capturePayment order.id amountCents))
  | .createShipment mechanism order simulateFailure, db =>
    db.transact mechanism .createShipment .forward (fun _ => order.id)
      (f.attempt .createShipment
        (simulatedFailure simulateFailure
          ("simulated failure: carrier API rejected shipment creation for order " ++
            order.publicId))
        (db.tables.createShipment order.id))
  | .completeOrder mechanism orderId, db =>
    db.transact mechanism .completeOrder .forward (fun _ => orderId)
      (f.attempt .completeOrder none (db.tables.completeOrder orderId))
  | .refundPayment mechanism orderId payment, db =>
    db.transact mechanism .refundPayment .compensate (fun _ => orderId)
      (f.attempt .refundPayment none (db.tables.refundPayment payment))
  | .releaseInventory mechanism orderId reservation, db =>
    db.transact mechanism .releaseInventory .compensate (fun _ => orderId)
      (f.attempt .releaseInventory none (db.tables.releaseInventory reservation))
  | .cancelOrder mechanism orderId, db =>
    db.transact mechanism .cancelOrder .compensate (fun _ => orderId)
      (f.attempt .cancelOrder none (db.tables.cancelOrder orderId))
  | .fetchOrderById orderId, db =>
    ((rowAt OrderRow.id db.tables.orders orderId).map fun row => ⟨row.id,row.publicId⟩,db)
  | .insertSagaLog row, db => ((),{ db with sagaLog := db.sagaLog ++ [row] })

/-- `outOfFuel` is not an exception of the source: see `EventBus.publish`. -/
inductive SagaException
  | error (message : String)
  | stopped
  | outOfFuel
  deriving DecidableEq, Repr

abbrev SagaProgram (α : Type) := Program SagaOp SagaOp.Reply SagaException α

def insertSagaLog (row : SagaLogRow) : SagaProgram Unit :=
  .call (SagaOp.insertSagaLog row)

/-- The `catch` of `runStep`: the failure is logged after the rollback, then returned. -/
def runStep {α : Type} (orderId : Option Nat) (mechanism : Mechanism) (step : SagaStep)
    (direction : Direction) (transaction : SagaProgram (StepOutcome α)) :
    SagaProgram (StepOutcome α) := do
  match ← transaction with
  | .ok result => return .ok result
  | .failed reason =>
    insertSagaLog ⟨orderId,mechanism,.step step,direction,.failure⟩
    return .failed reason

def createOrderStep (mechanism : Mechanism) (input : OrderSagaInput) (simulateFailure : Bool) :
    SagaProgram (StepOutcome OrderRef) :=
  runStep none mechanism .createOrder .forward
    (.call (SagaOp.createOrder mechanism input simulateFailure))

def reserveInventoryStep (mechanism : Mechanism) (order : OrderRef) (itemSku : String)
    (quantity : Int) (simulateFailure : Bool) : SagaProgram (StepOutcome ReservationRef) :=
  runStep order.id mechanism .reserveInventory .forward
    (.call (SagaOp.reserveInventory mechanism order itemSku quantity simulateFailure))

def capturePaymentStep (mechanism : Mechanism) (order : OrderRef) (amountCents : Int)
    (simulateFailure : Bool) : SagaProgram (StepOutcome PaymentRef) :=
  runStep order.id mechanism .capturePayment .forward
    (.call (SagaOp.capturePayment mechanism order amountCents simulateFailure))

def createShipmentStep (mechanism : Mechanism) (order : OrderRef) (simulateFailure : Bool) :
    SagaProgram (StepOutcome ShipmentRef) :=
  runStep order.id mechanism .createShipment .forward
    (.call (SagaOp.createShipment mechanism order simulateFailure))

def completeOrderStep (mechanism : Mechanism) (orderId : Nat) :
    SagaProgram (StepOutcome Unit) :=
  runStep orderId mechanism .completeOrder .forward (.call (SagaOp.completeOrder mechanism orderId))

def refundPaymentStep (mechanism : Mechanism) (orderId : Nat) (payment : PaymentRef) :
    SagaProgram (StepOutcome Unit) :=
  runStep orderId mechanism .refundPayment .compensate
    (.call (SagaOp.refundPayment mechanism orderId payment))

def releaseInventoryStep (mechanism : Mechanism) (orderId : Nat)
    (reservation : ReservationRef) : SagaProgram (StepOutcome Unit) :=
  runStep orderId mechanism .releaseInventory .compensate
    (.call (SagaOp.releaseInventory mechanism orderId reservation))

def cancelOrderStep (mechanism : Mechanism) (orderId : Nat) : SagaProgram (StepOutcome Unit) :=
  runStep orderId mechanism .cancelOrder .compensate (.call (SagaOp.cancelOrder mechanism orderId))

def fetchOrderById (orderId : Nat) : SagaProgram OrderRef := do
  match ← Program.call (SagaOp.fetchOrderById orderId) with
  | some order => return order
  | none => .throw (.error ("Order " ++ toString orderId ++ " does not exist"))

end SystemsLab.Saga
