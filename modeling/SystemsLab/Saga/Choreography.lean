import SystemsLab.Saga.Steps

/-!
# The choreographed saga

No coordinator: a handler reacts to one event, runs one step and publishes the next event.
Whatever a later compensation needs travels in the payloads.
-/

namespace SystemsLab.Saga

structure OrderCreatedPayload where
  itemSku : String
  quantity : Int
  amountCents : Int
  deriving DecidableEq, Repr

structure InventoryReservedPayload where
  reservation : ReservationRef
  amountCents : Int
  deriving DecidableEq, Repr

structure PaymentCapturedPayload where
  payment : PaymentRef
  reservation : ReservationRef
  deriving DecidableEq, Repr

structure InventoryReservationFailedPayload where
  reason : String
  deriving DecidableEq, Repr

structure PaymentFailedPayload where
  reason : String
  reservation : ReservationRef
  deriving DecidableEq, Repr

structure ShipmentFailedPayload where
  reason : String
  payment : PaymentRef
  reservation : ReservationRef
  deriving DecidableEq, Repr

structure PaymentRefundedPayload where
  reservation : ReservationRef
  deriving DecidableEq, Repr

def EventName.Payload : EventName → Type
  | .OrderCreated => OrderCreatedPayload
  | .InventoryReserved => InventoryReservedPayload
  | .InventoryReservationFailed => InventoryReservationFailedPayload
  | .PaymentCaptured => PaymentCapturedPayload
  | .PaymentFailed => PaymentFailedPayload
  | .ShipmentCreated => ShipmentRef
  | .ShipmentFailed => ShipmentFailedPayload
  | .PaymentRefunded => PaymentRefundedPayload
  | .InventoryReleased => Unit
  | .OrderCancelled => Unit

structure DomainEvent (name : EventName) where
  orderId : Nat
  payload : name.Payload

abbrev Publish :=
  (name : EventName) → DomainEvent name → (publishedBy : String) → Direction → SagaProgram Unit

/-- A handler publishes on the bus it is subscribed to. -/
structure Subscription (name : EventName) where
  consumerName : String
  direction : Direction
  handler : Publish → DomainEvent name → SagaProgram Unit

def EventBus := (name : EventName) → List (Subscription name)

def EventBus.empty : EventBus := fun _ => []

/-- Named `on` in the source. -/
def EventBus.subscribe (bus : EventBus) (name : EventName) (consumerName : String)
    (direction : Direction) (handler : Publish → DomainEvent name → SagaProgram Unit) :
    EventBus :=
  Function.update bus name (bus name ++ [⟨consumerName,direction,handler⟩])

/-- Logs the publish, then awaits every subscriber's handler in turn. The handlers publish in
turn; `fuel` bounds how deep that goes. -/
def EventBus.publish (bus : EventBus) : Nat → Publish
  | 0, _, _, _, _ => .throw .outOfFuel
  | fuel + 1, name, event, _publishedBy, direction => do
    insertSagaLog ⟨some event.orderId,.choreography,.event name,direction,.published⟩
    (bus name).forM fun subscription => do
      insertSagaLog
        ⟨some event.orderId,.choreography,.event name,subscription.direction,.consumed⟩
      subscription.handler (bus.publish fuel) event

def onOrderCreated (failAtStep : Option StepName) (publish : Publish)
    (event : DomainEvent .OrderCreated) : SagaProgram Unit := do
  let payload : OrderCreatedPayload := event.payload
  let order ← fetchOrderById event.orderId
  match ← reserveInventoryStep .choreography order payload.itemSku payload.quantity
    (failAtStep == some .reserveInventory) with
  | .failed reason =>
    publish .InventoryReservationFailed
      ⟨event.orderId,InventoryReservationFailedPayload.mk reason⟩ "inventory-service" .compensate
  | .ok reservation =>
    publish .InventoryReserved
      ⟨event.orderId,InventoryReservedPayload.mk reservation payload.amountCents⟩
      "inventory-service" .forward

def onInventoryReserved (failAtStep : Option StepName) (publish : Publish)
    (event : DomainEvent .InventoryReserved) : SagaProgram Unit := do
  let payload : InventoryReservedPayload := event.payload
  let order ← fetchOrderById event.orderId
  match ← capturePaymentStep .choreography order payload.amountCents
    (failAtStep == some .capturePayment) with
  | .failed reason =>
    publish .PaymentFailed ⟨event.orderId,PaymentFailedPayload.mk reason payload.reservation⟩
      "payment-service" .compensate
  | .ok payment =>
    publish .PaymentCaptured ⟨event.orderId,PaymentCapturedPayload.mk payment payload.reservation⟩
      "payment-service" .forward

def onPaymentCaptured (failAtStep : Option StepName) (publish : Publish)
    (event : DomainEvent .PaymentCaptured) : SagaProgram Unit := do
  let payload : PaymentCapturedPayload := event.payload
  let order ← fetchOrderById event.orderId
  match ← createShipmentStep .choreography order (failAtStep == some .createShipment) with
  | .failed reason =>
    publish .ShipmentFailed
      ⟨event.orderId,ShipmentFailedPayload.mk reason payload.payment payload.reservation⟩
      "shipment-service" .compensate
  | .ok shipment => publish .ShipmentCreated ⟨event.orderId,shipment⟩ "shipment-service" .forward

def onShipmentCreated (_publish : Publish) (event : DomainEvent .ShipmentCreated) :
    SagaProgram Unit := do
  let _ ← completeOrderStep .choreography event.orderId

def onInventoryReservationFailed (publish : Publish)
    (event : DomainEvent .InventoryReservationFailed) : SagaProgram Unit := do
  let _ ← cancelOrderStep .choreography event.orderId
  publish .OrderCancelled ⟨event.orderId,()⟩ "order-service" .compensate

def onPaymentFailed (publish : Publish) (event : DomainEvent .PaymentFailed) :
    SagaProgram Unit := do
  let payload : PaymentFailedPayload := event.payload
  let _ ← releaseInventoryStep .choreography event.orderId payload.reservation
  publish .InventoryReleased ⟨event.orderId,()⟩ "inventory-service" .compensate

def onShipmentFailed (publish : Publish) (event : DomainEvent .ShipmentFailed) :
    SagaProgram Unit := do
  let payload : ShipmentFailedPayload := event.payload
  let _ ← refundPaymentStep .choreography event.orderId payload.payment
  publish .PaymentRefunded ⟨event.orderId,PaymentRefundedPayload.mk payload.reservation⟩
    "payment-service" .compensate

def onPaymentRefunded (publish : Publish) (event : DomainEvent .PaymentRefunded) :
    SagaProgram Unit := do
  let payload : PaymentRefundedPayload := event.payload
  let _ ← releaseInventoryStep .choreography event.orderId payload.reservation
  publish .InventoryReleased ⟨event.orderId,()⟩ "inventory-service" .compensate

def onInventoryReleased (publish : Publish) (event : DomainEvent .InventoryReleased) :
    SagaProgram Unit := do
  let _ ← cancelOrderStep .choreography event.orderId
  publish .OrderCancelled ⟨event.orderId,()⟩ "order-service" .compensate

def registerHandlers (bus : EventBus) (failAtStep : Option StepName) : EventBus :=
  bus
  |>.subscribe .OrderCreated "inventory-service" .forward (onOrderCreated failAtStep)
  |>.subscribe .InventoryReserved "payment-service" .forward (onInventoryReserved failAtStep)
  |>.subscribe .PaymentCaptured "shipment-service" .forward (onPaymentCaptured failAtStep)
  |>.subscribe .ShipmentCreated "order-service" .forward onShipmentCreated
  |>.subscribe .InventoryReservationFailed "order-service" .compensate
    onInventoryReservationFailed
  |>.subscribe .PaymentFailed "inventory-service" .compensate onPaymentFailed
  |>.subscribe .ShipmentFailed "payment-service" .compensate onShipmentFailed
  |>.subscribe .PaymentRefunded "inventory-service" .compensate onPaymentRefunded
  |>.subscribe .InventoryReleased "order-service" .compensate onInventoryReleased

structure ChoreographedSagaHandle where
  orderId : Option Nat
  publicId : Option String := none
  aborted : Bool
  deriving DecidableEq, Repr

/-- Every run has a bus of its own. -/
def runChoreographedOrderSaga (fuel : Nat) (input : OrderSagaInput)
    (failAtStep : Option StepName) : SagaProgram ChoreographedSagaHandle := do
  let bus := registerHandlers .empty failAtStep
  match ← createOrderStep .choreography input (failAtStep == some .createOrder) with
  | .failed _ => return { orderId := none, aborted := true }
  | .ok order =>
    bus.publish fuel .OrderCreated
      ⟨order.id,OrderCreatedPayload.mk input.itemSku input.quantity input.amountCents⟩
      "order-service" .forward
    return { orderId := order.id, publicId := order.publicId, aborted := false }

end SystemsLab.Saga
