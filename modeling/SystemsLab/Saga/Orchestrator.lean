import SystemsLab.Saga.Steps

/-!
# The orchestrated saga

One coordinator calls each step in order. On a failure it calls the compensations for what
has already succeeded, in reverse order.
-/

namespace SystemsLab.Saga

inductive SagaOutcome
  | completed
  | compensated
  | aborted
  deriving DecidableEq, Repr

structure SagaResult where
  outcome : SagaOutcome
  orderId : Option Nat
  publicId : Option String := none
  failedStep : Option StepName := none
  reason : Option String := none
  deriving DecidableEq, Repr

def refundPayment (orderId : Nat) (payment : PaymentRef) : SagaProgram (StepOutcome Unit) :=
  refundPaymentStep .orchestration orderId payment

def releaseInventory (orderId : Nat) (reservation : ReservationRef) :
    SagaProgram (StepOutcome Unit) :=
  releaseInventoryStep .orchestration orderId reservation

def cancelOrder (orderId : Nat) : SagaProgram (StepOutcome Unit) :=
  cancelOrderStep .orchestration orderId

/-- `failAtStep` forces a forward step to fail. -/
def runOrderSaga (input : OrderSagaInput) (failAtStep : Option StepName) :
    SagaProgram SagaResult := do
  match ← createOrderStep .orchestration input (failAtStep == some .createOrder) with
  | .failed reason =>
    return { outcome := .aborted, orderId := none, failedStep := some .createOrder, reason }
  | .ok order =>
  match ← reserveInventoryStep .orchestration order input.itemSku input.quantity
    (failAtStep == some .reserveInventory) with
  | .failed reason =>
    let _ ← cancelOrder order.id
    return {
      outcome := .compensated
      orderId := order.id
      publicId := order.publicId
      failedStep := some .reserveInventory
      reason }
  | .ok reservation =>
  match ← capturePaymentStep .orchestration order input.amountCents
    (failAtStep == some .capturePayment) with
  | .failed reason =>
    let _ ← releaseInventory order.id reservation
    let _ ← cancelOrder order.id
    return {
      outcome := .compensated
      orderId := order.id
      publicId := order.publicId
      failedStep := some .capturePayment
      reason }
  | .ok payment =>
  match ← createShipmentStep .orchestration order (failAtStep == some .createShipment) with
  | .failed reason =>
    let _ ← refundPayment order.id payment
    let _ ← releaseInventory order.id reservation
    let _ ← cancelOrder order.id
    return {
      outcome := .compensated
      orderId := order.id
      publicId := order.publicId
      failedStep := some .createShipment
      reason }
  | .ok _ =>
    let _ ← completeOrderStep .orchestration order.id
    return { outcome := .completed, orderId := order.id, publicId := order.publicId }

end SystemsLab.Saga
