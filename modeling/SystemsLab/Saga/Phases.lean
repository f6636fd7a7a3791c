import SystemsLab.Saga.Orchestrator
import SystemsLab.Saga.Choreography

/-!
# The workflow behind both mechanisms

A saga is in one of eleven phases. Each phase that has not ended has one step to attempt, and
the outcome of the step decides on the next phase. The phase records what the saga has left in
the tables. Coordinator and handlers follow this workflow, apart from log rows and lookups.
-/

namespace SystemsLab.Saga

structure SagaCall where
  input : OrderSagaInput
  failAtStep : Option StepName := none
  deriving DecidableEq, Repr

def SagaCall.simulates (c : SagaCall) (step : StepName) : Bool :=
  c.failAtStep == some step

inductive SagaPhase
  | creating
  | aborted
  | reserving (order : Nat)
  | capturing (order : Nat) (reservation : ReservationRef)
  | shipping (order : Nat) (reservation : ReservationRef) (payment : PaymentRef)
  | completing (order : Nat) (reservation : ReservationRef) (payment : PaymentRef)
      (shipment : ShipmentRef)
  | refunding (order : Nat) (reservation : ReservationRef) (payment : PaymentRef)
  | releasing (order : Nat) (reservation : ReservationRef)
      (payment : Option (PaymentRef × PaymentStatus))
  | cancelling (order : Nat) (reservation : Option (ReservationRef × ReservationStatus))
      (payment : Option (PaymentRef × PaymentStatus))
  | completed (order : Nat) (reservation : ReservationRef) (payment : PaymentRef)
      (shipment : ShipmentRef) (status : OrderStatus)
  | compensated (order : Nat) (reservation : Option (ReservationRef × ReservationStatus))
      (payment : Option (PaymentRef × PaymentStatus)) (status : OrderStatus)
  deriving DecidableEq, Repr

namespace SagaPhase

def order : SagaPhase → Option Nat
  | .creating => none
  | .aborted => none
  | .reserving i => some i
  | .capturing i _ => some i
  | .shipping i _ _ => some i
  | .completing i _ _ _ => some i
  | .refunding i _ _ => some i
  | .releasing i _ _ => some i
  | .cancelling i _ _ => some i
  | .completed i _ _ _ _ => some i
  | .compensated i _ _ _ => some i

def created : StepOutcome OrderRef → SagaPhase
  | .ok order => .reserving order.id
  | .failed _ => .aborted

def reserved (i : Nat) : StepOutcome ReservationRef → SagaPhase
  | .ok reservation => .capturing i reservation
  | .failed _ => .cancelling i none none

def captured (i : Nat) (reservation : ReservationRef) : StepOutcome PaymentRef → SagaPhase
  | .ok payment => .shipping i reservation payment
  | .failed _ => .releasing i reservation none

def shipped (i : Nat) (reservation : ReservationRef) (payment : PaymentRef) :
    StepOutcome ShipmentRef → SagaPhase
  | .ok shipment => .completing i reservation payment shipment
  | .failed _ => .refunding i reservation payment

def afterComplete (i : Nat) (reservation : ReservationRef) (payment : PaymentRef)
    (shipment : ShipmentRef) : StepOutcome Unit → SagaPhase
  | .ok _ => .completed i reservation payment shipment .completed
  | .failed _ => .completed i reservation payment shipment .pending

def afterRefund (i : Nat) (reservation : ReservationRef) (payment : PaymentRef) :
    StepOutcome Unit → SagaPhase
  | .ok _ => .releasing i reservation (some (payment,.refunded))
  | .failed _ => .releasing i reservation (some (payment,.captured))

def afterRelease (i : Nat) (reservation : ReservationRef)
    (payment : Option (PaymentRef × PaymentStatus)) : StepOutcome Unit → SagaPhase
  | .ok _ => .cancelling i (some (reservation,.released)) payment
  | .failed _ => .cancelling i (some (reservation,.reserved)) payment

def afterCancel (i : Nat) (reservation : Option (ReservationRef × ReservationStatus))
    (payment : Option (PaymentRef × PaymentStatus)) : StepOutcome Unit → SagaPhase
  | .ok _ => .compensated i reservation payment .cancelled
  | .failed _ => .compensated i reservation payment .pending

end SagaPhase

/-- The requests in order in each phase. A row once created is still there to be fetched. -/
def SagaCall.allows (c : SagaCall) :
    SagaPhase → (op : SagaOp) → Option (op.Reply → Option SagaPhase)
  | ph, .insertSagaLog _ => some fun _ => some ph
  | ph, .fetchOrderById i =>
    if ph.order = some i then
      some fun (found : Option OrderRef) =>
        if found.any (·.id == i) then some ph else none
    else none
  | .creating, .createOrder _ input simulateFailure =>
    if input = c.input ∧ simulateFailure = c.simulates .createOrder then
      some fun outcome => some (.created outcome)
    else none
  | .reserving i, .reserveInventory _ order itemSku quantity simulateFailure =>
    if order.id = i ∧ itemSku = c.input.itemSku ∧ quantity = c.input.quantity ∧
        simulateFailure = c.simulates .reserveInventory then
      some fun outcome => some (.reserved i outcome)
    else none
  | .capturing i reservation, .capturePayment _ order amountCents simulateFailure =>
    if order.id = i ∧ amountCents = c.input.amountCents ∧
        simulateFailure = c.simulates .capturePayment then
      some fun outcome => some (.captured i reservation outcome)
    else none
  | .shipping i reservation payment, .createShipment _ order simulateFailure =>
    if order.id = i ∧ simulateFailure = c.simulates .createShipment then
      some fun outcome => some (.shipped i reservation payment outcome)
    else none
  | .completing i reservation payment shipment, .completeOrder _ orderId =>
    if orderId = i then
      some fun outcome => some (.afterComplete i reservation payment shipment outcome)
    else none
  | .refunding i reservation payment, .refundPayment _ _ paid =>
    if paid = payment then
      some fun outcome => some (.afterRefund i reservation payment outcome)
    else none
  | .releasing i reservation payment, .releaseInventory _ _ held =>
    if held = reservation then
      some fun outcome => some (.afterRelease i reservation payment outcome)
    else none
  | .cancelling i reservation payment, .cancelOrder _ orderId =>
    if orderId = i then
      some fun outcome => some (.afterCancel i reservation payment outcome)
    else none
  | _, _ => none

structure SagaPoint where
  call : SagaCall
  phase : SagaPhase
  deriving DecidableEq, Repr

def sagaProtocol : Protocol SagaOp SagaOp.Reply SagaPoint where
  allows p op := (p.call.allows p.phase op).map fun g reply => (g reply).map (SagaPoint.mk p.call)

section Follows

variable {α : Type} {done : SagaPoint → α → Prop} {c : SagaCall} {p : SagaPoint}

private theorem follows_log (row : SagaLogRow) {next : SagaProgram α}
    (h : sagaProtocol.Follows done p next) :
    sagaProtocol.Follows done p (insertSagaLog row >>= fun _ => next) := by
  apply Protocol.Follows.request (fun _ => some p)
  · cases p with
    | mk call phase =>
      cases phase <;> rfl
  · intro _ p' hp'
    cases hp'
    exact h

private theorem runStep_follows {done : SagaPoint → StepOutcome α → Prop} {orderId : Option Nat}
    {mechanism : Mechanism} {step : SagaStep} {direction : Direction}
    {transaction : SagaProgram (StepOutcome α)}
    (h : sagaProtocol.Follows done p transaction) :
    sagaProtocol.Follows done p (runStep orderId mechanism step direction transaction) := by
  unfold runStep
  apply h.bind
  intro p' outcome hdone
  cases outcome with
  | ok result => exact .pure hdone
  | failed reason => exact follows_log _ (.pure hdone)

private theorem transaction_follows {ph : SagaPhase} (op : SagaOp) (next : op.Reply → SagaPhase)
    (hallows : c.allows ph op = some fun reply => some (next reply)) :
    sagaProtocol.Follows (fun p reply => p = ⟨c,next reply⟩) ⟨c,ph⟩
      (Program.call op : SagaProgram op.Reply) := by
  apply Protocol.Follows.request fun reply => some ⟨c,next reply⟩
  · simp [sagaProtocol,hallows]
  · intro reply p' hp'
    exact .pure (Option.some.inj hp').symm

private theorem createOrderStep_follows (mechanism : Mechanism) :
    sagaProtocol.Follows (fun p outcome => p = ⟨c,.created outcome⟩) ⟨c,.creating⟩
      (createOrderStep mechanism c.input (c.simulates .createOrder)) := by
  apply runStep_follows
  exact transaction_follows (.createOrder mechanism c.input (c.simulates .createOrder))
    SagaPhase.created (if_pos ⟨rfl,rfl⟩)

private theorem reserveInventoryStep_follows (mechanism : Mechanism) (order : OrderRef) :
    sagaProtocol.Follows (fun p outcome => p = ⟨c,.reserved order.id outcome⟩)
      ⟨c,.reserving order.id⟩ (reserveInventoryStep mechanism order c.input.itemSku
        c.input.quantity (c.simulates .reserveInventory)) := by
  apply runStep_follows
  exact transaction_follows (.reserveInventory mechanism order c.input.itemSku c.input.quantity
    (c.simulates .reserveInventory)) (SagaPhase.reserved order.id)
    (if_pos ⟨rfl,rfl,rfl,rfl⟩)

private theorem capturePaymentStep_follows (mechanism : Mechanism) (order : OrderRef)
    (reservation : ReservationRef) :
    sagaProtocol.Follows (fun p outcome => p = ⟨c,.captured order.id reservation outcome⟩)
      ⟨c,.capturing order.id reservation⟩ (capturePaymentStep mechanism order
        c.input.amountCents (c.simulates .capturePayment)) := by
  apply runStep_follows
  exact transaction_follows (.capturePayment mechanism order c.input.amountCents
    (c.simulates .capturePayment)) (SagaPhase.captured order.id reservation)
    (if_pos ⟨rfl,rfl,rfl⟩)

private theorem createShipmentStep_follows (mechanism : Mechanism) (order : OrderRef)
    (reservation : ReservationRef) (payment : PaymentRef) :
    sagaProtocol.Follows
      (fun p outcome => p = ⟨c,.shipped order.id reservation payment outcome⟩)
      ⟨c,.shipping order.id reservation payment⟩
      (createShipmentStep mechanism order (c.simulates .createShipment)) := by
  apply runStep_follows
  exact transaction_follows (.createShipment mechanism order (c.simulates .createShipment))
    (SagaPhase.shipped order.id reservation payment) (if_pos ⟨rfl,rfl⟩)

private theorem completeOrderStep_follows (mechanism : Mechanism) (i : Nat)
    (reservation : ReservationRef) (payment : PaymentRef) (shipment : ShipmentRef) :
    sagaProtocol.Follows
      (fun p outcome => p = ⟨c,.afterComplete i reservation payment shipment outcome⟩)
      ⟨c,.completing i reservation payment shipment⟩ (completeOrderStep mechanism i) := by
  apply runStep_follows
  exact transaction_follows (.completeOrder mechanism i)
    (SagaPhase.afterComplete i reservation payment shipment) (if_pos rfl)

private theorem refundPaymentStep_follows (mechanism : Mechanism) (i : Nat)
    (reservation : ReservationRef) (payment : PaymentRef) :
    sagaProtocol.Follows
      (fun p outcome => p = ⟨c,.afterRefund i reservation payment outcome⟩)
      ⟨c,.refunding i reservation payment⟩ (refundPaymentStep mechanism i payment) := by
  apply runStep_follows
  exact transaction_follows (.refundPayment mechanism i payment)
    (SagaPhase.afterRefund i reservation payment) (if_pos rfl)

private theorem releaseInventoryStep_follows (mechanism : Mechanism) (i : Nat)
    (reservation : ReservationRef) (payment : Option (PaymentRef × PaymentStatus)) :
    sagaProtocol.Follows
      (fun p outcome => p = ⟨c,.afterRelease i reservation payment outcome⟩)
      ⟨c,.releasing i reservation payment⟩
      (releaseInventoryStep mechanism i reservation) := by
  apply runStep_follows
  exact transaction_follows (.releaseInventory mechanism i reservation)
    (SagaPhase.afterRelease i reservation payment) (if_pos rfl)

private theorem cancelOrderStep_follows (mechanism : Mechanism) (i : Nat)
    (reservation : Option (ReservationRef × ReservationStatus))
    (payment : Option (PaymentRef × PaymentStatus)) :
    sagaProtocol.Follows
      (fun p outcome => p = ⟨c,.afterCancel i reservation payment outcome⟩)
      ⟨c,.cancelling i reservation payment⟩ (cancelOrderStep mechanism i) := by
  apply runStep_follows
  exact transaction_follows (.cancelOrder mechanism i)
    (SagaPhase.afterCancel i reservation payment) (if_pos rfl)

private theorem fetchOrderById_follows {i : Nat} (hp : p.phase.order = some i) :
    sagaProtocol.Follows (fun p' order => p' = p ∧ order.id = i) p (fetchOrderById i) := by
  unfold fetchOrderById
  apply Protocol.Follows.request fun (found : Option OrderRef) =>
    (if found.any (·.id == i) then some p.phase else none).map (SagaPoint.mk p.call)
  · have hallows : p.call.allows p.phase (.fetchOrderById i) = some fun found =>
        if found.any (·.id == i) then some p.phase else none := if_pos hp
    simp only [sagaProtocol,hallows]
    rfl
  · intro found p' hp'
    split at hp'
    · rename_i hfound
      cases hp'
      cases found with
      | none => cases hfound
      | some order =>
        have hid : order.id = i := by simpa using hfound
        exact .pure ⟨rfl,hid⟩
    · cases hp'

end Follows

/-- What a result says about the phase the saga has ended in. -/
def SagaPhase.Reported : SagaPhase → SagaOutcome → Option Nat → Prop
  | .aborted, outcome, orderId => outcome = .aborted ∧ orderId = none
  | .completed i _ _ _ _, outcome, orderId => outcome = .completed ∧ orderId = some i
  | .compensated i _ _ _, outcome, orderId => outcome = .compensated ∧ orderId = some i
  | _, _, _ => False

def Reports (c : SagaCall) (p : SagaPoint) (result : SagaResult) : Prop :=
  p.call = c ∧ p.phase.Reported result.outcome result.orderId

section Coordinator

variable {c : SagaCall} {result : SagaResult}

private theorem cancel_follows {i : Nat} (reservation : Option (ReservationRef × ReservationStatus))
    (payment : Option (PaymentRef × PaymentStatus)) (houtcome : result.outcome = .compensated)
    (hid : result.orderId = some i) :
    sagaProtocol.Follows (Reports c) ⟨c,.cancelling i reservation payment⟩
      (cancelOrder i >>= fun _ => pure result) := by
  apply (cancelOrderStep_follows .orchestration i reservation payment).bind
  rintro _ outcome rfl
  cases outcome <;> exact .pure ⟨rfl,houtcome,hid⟩

private theorem release_follows {i : Nat} (reservation : ReservationRef)
    (payment : Option (PaymentRef × PaymentStatus)) (houtcome : result.outcome = .compensated)
    (hid : result.orderId = some i) :
    sagaProtocol.Follows (Reports c) ⟨c,.releasing i reservation payment⟩
      (releaseInventory i reservation >>= fun _ => cancelOrder i >>= fun _ => pure result) := by
  apply (releaseInventoryStep_follows .orchestration i reservation payment).bind
  rintro _ outcome rfl
  cases outcome <;> exact cancel_follows _ _ houtcome hid

private theorem refund_follows {i : Nat} (reservation : ReservationRef) (payment : PaymentRef)
    (houtcome : result.outcome = .compensated) (hid : result.orderId = some i) :
    sagaProtocol.Follows (Reports c) ⟨c,.refunding i reservation payment⟩
      (refundPayment i payment >>= fun _ => releaseInventory i reservation >>= fun _ =>
        cancelOrder i >>= fun _ => pure result) := by
  apply (refundPaymentStep_follows .orchestration i reservation payment).bind
  rintro _ outcome rfl
  cases outcome <;> exact release_follows _ _ houtcome hid

theorem runOrderSaga_follows (c : SagaCall) :
    sagaProtocol.Follows (Reports c) ⟨c,.creating⟩ (runOrderSaga c.input c.failAtStep) := by
  apply (createOrderStep_follows .orchestration).bind
  rintro _ outcome rfl
  cases outcome with
  | failed reason => exact .pure ⟨rfl,rfl,rfl⟩
  | ok order =>
    apply (reserveInventoryStep_follows .orchestration order).bind
    rintro _ outcome rfl
    cases outcome with
    | failed reason => exact cancel_follows _ _ rfl rfl
    | ok reservation =>
      apply (capturePaymentStep_follows .orchestration order reservation).bind
      rintro _ outcome rfl
      cases outcome with
      | failed reason => exact release_follows _ _ rfl rfl
      | ok payment =>
        apply (createShipmentStep_follows .orchestration order reservation payment).bind
        rintro _ outcome rfl
        cases outcome with
        | failed reason => exact refund_follows _ _ rfl rfl
        | ok shipment =>
          apply (completeOrderStep_follows .orchestration order.id _ _ shipment).bind
          rintro _ outcome rfl
          cases outcome <;> exact .pure ⟨rfl,rfl,rfl⟩

end Coordinator

def SagaPhase.ended : SagaPhase → Bool
  | .aborted => true
  | .completed .. => true
  | .compensated .. => true
  | _ => false

/-- A cascade has run to an end of the saga. -/
def Settled (c : SagaCall) (i : Nat) (p : SagaPoint) (_ : Unit) : Prop :=
  p.call = c ∧ p.phase.ended = true ∧ p.phase.order = some i

section Handlers

variable {c : SagaCall} {i : Nat}

private theorem publish_unheard {bus : EventBus} {name : EventName} (hbus : bus name = [])
    (fuel : Nat) (event : DomainEvent name) (publishedBy : String) (direction : Direction)
    {done : SagaPoint → Unit → Prop} {p : SagaPoint} (h : done p ()) :
    sagaProtocol.Follows done p (bus.publish (fuel + 1) name event publishedBy direction) := by
  unfold EventBus.publish
  rw [hbus]
  exact follows_log _ (.pure h)

private theorem publish_follows {bus : EventBus} {name : EventName}
    {subscription : Subscription name}
    (hbus : bus name = [subscription]) {fuel : Nat} {event : DomainEvent name}
    (publishedBy : String) (direction : Direction) {done : SagaPoint → Unit → Prop}
    {p : SagaPoint}
    (h : sagaProtocol.Follows done p (subscription.handler (bus.publish fuel) event)) :
    sagaProtocol.Follows done p (bus.publish (fuel + 1) name event publishedBy direction) := by
  unfold EventBus.publish
  rw [hbus]
  apply follows_log
  refine Protocol.Follows.bind (follows_log _ h) ?_
  rintro p' ⟨⟩ hdone
  exact .pure hdone

private theorem inventoryReleased_follows (fuel : Nat)
    (reservation : Option (ReservationRef × ReservationStatus))
    (payment : Option (PaymentRef × PaymentStatus)) (publishedBy : String)
    (direction : Direction) :
    sagaProtocol.Follows (Settled c i) ⟨c,.cancelling i reservation payment⟩
      ((registerHandlers .empty c.failAtStep).publish (fuel + 2) .InventoryReleased ⟨i,()⟩
        publishedBy direction) := by
  apply publish_follows rfl
  apply (cancelOrderStep_follows .choreography i reservation payment).bind
  rintro _ outcome rfl
  cases outcome <;> exact publish_unheard rfl fuel _ _ _ ⟨rfl,rfl,rfl⟩

private theorem paymentRefunded_follows (fuel : Nat) (reservation : ReservationRef)
    (payment : Option (PaymentRef × PaymentStatus)) (publishedBy : String)
    (direction : Direction) :
    sagaProtocol.Follows (Settled c i) ⟨c,.releasing i reservation payment⟩
      ((registerHandlers .empty c.failAtStep).publish (fuel + 3) .PaymentRefunded
        ⟨i,PaymentRefundedPayload.mk reservation⟩ publishedBy direction) := by
  apply publish_follows rfl
  apply (releaseInventoryStep_follows .choreography i reservation payment).bind
  rintro _ outcome rfl
  cases outcome <;> exact inventoryReleased_follows fuel _ _ _ _

private theorem paymentFailed_follows (fuel : Nat) (reservation : ReservationRef) (reason : String)
    (publishedBy : String) (direction : Direction) :
    sagaProtocol.Follows (Settled c i) ⟨c,.releasing i reservation none⟩
      ((registerHandlers .empty c.failAtStep).publish (fuel + 3) .PaymentFailed
        ⟨i,PaymentFailedPayload.mk reason reservation⟩ publishedBy direction) := by
  apply publish_follows rfl
  apply (releaseInventoryStep_follows .choreography i reservation none).bind
  rintro _ outcome rfl
  cases outcome <;> exact inventoryReleased_follows fuel _ _ _ _

private theorem shipmentFailed_follows (fuel : Nat) (reservation : ReservationRef)
    (payment : PaymentRef) (reason : String) (publishedBy : String) (direction : Direction) :
    sagaProtocol.Follows (Settled c i) ⟨c,.refunding i reservation payment⟩
      ((registerHandlers .empty c.failAtStep).publish (fuel + 4) .ShipmentFailed
        ⟨i,ShipmentFailedPayload.mk reason payment reservation⟩ publishedBy direction) := by
  apply publish_follows rfl
  apply (refundPaymentStep_follows .choreography i reservation payment).bind
  rintro _ outcome rfl
  cases outcome <;> exact paymentRefunded_follows fuel _ _ _ _

private theorem shipmentCreated_follows (fuel : Nat) (reservation : ReservationRef)
    (payment : PaymentRef) (shipment : ShipmentRef) (publishedBy : String)
    (direction : Direction) :
    sagaProtocol.Follows (Settled c i) ⟨c,.completing i reservation payment shipment⟩
      ((registerHandlers .empty c.failAtStep).publish (fuel + 1) .ShipmentCreated ⟨i,shipment⟩
        publishedBy direction) := by
  apply publish_follows rfl
  apply (completeOrderStep_follows .choreography i reservation payment shipment).bind
  rintro _ outcome rfl
  cases outcome <;> exact .pure ⟨rfl,rfl,rfl⟩

private theorem paymentCaptured_follows (fuel : Nat) (reservation : ReservationRef)
    (payment : PaymentRef) (publishedBy : String) (direction : Direction) :
    sagaProtocol.Follows (Settled c i) ⟨c,.shipping i reservation payment⟩
      ((registerHandlers .empty c.failAtStep).publish (fuel + 5) .PaymentCaptured
        ⟨i,PaymentCapturedPayload.mk payment reservation⟩ publishedBy direction) := by
  apply publish_follows rfl
  apply (fetchOrderById_follows rfl).bind
  rintro _ order ⟨rfl,rfl⟩
  apply (createShipmentStep_follows .choreography order reservation payment).bind
  rintro _ outcome rfl
  cases outcome with
  | failed reason => exact shipmentFailed_follows fuel _ _ _ _ _
  | ok shipment => exact shipmentCreated_follows (fuel + 3) _ _ _ _ _

private theorem inventoryReserved_follows (fuel : Nat) (reservation : ReservationRef)
    (publishedBy : String) (direction : Direction) :
    sagaProtocol.Follows (Settled c i) ⟨c,.capturing i reservation⟩
      ((registerHandlers .empty c.failAtStep).publish (fuel + 6) .InventoryReserved
        ⟨i,InventoryReservedPayload.mk reservation c.input.amountCents⟩ publishedBy
        direction) := by
  apply publish_follows rfl
  apply (fetchOrderById_follows rfl).bind
  rintro _ order ⟨rfl,rfl⟩
  apply (capturePaymentStep_follows .choreography order reservation).bind
  rintro _ outcome rfl
  cases outcome with
  | failed reason => exact paymentFailed_follows (fuel + 2) _ _ _ _
  | ok payment => exact paymentCaptured_follows fuel _ _ _ _

private theorem inventoryReservationFailed_follows (fuel : Nat) (reason : String)
    (publishedBy : String) (direction : Direction) :
    sagaProtocol.Follows (Settled c i) ⟨c,.cancelling i none none⟩
      ((registerHandlers .empty c.failAtStep).publish (fuel + 2) .InventoryReservationFailed
        ⟨i,InventoryReservationFailedPayload.mk reason⟩ publishedBy direction) := by
  apply publish_follows rfl
  apply (cancelOrderStep_follows .choreography i none none).bind
  rintro _ outcome rfl
  cases outcome <;> exact publish_unheard rfl fuel _ _ _ ⟨rfl,rfl,rfl⟩

private theorem orderCreated_follows (fuel : Nat) (publishedBy : String) (direction : Direction) :
    sagaProtocol.Follows (Settled c i) ⟨c,.reserving i⟩
      ((registerHandlers .empty c.failAtStep).publish (fuel + 7) .OrderCreated
        ⟨i,OrderCreatedPayload.mk c.input.itemSku c.input.quantity c.input.amountCents⟩
        publishedBy direction) := by
  apply publish_follows rfl
  apply (fetchOrderById_follows rfl).bind
  rintro _ order ⟨rfl,rfl⟩
  apply (reserveInventoryStep_follows .choreography order).bind
  rintro _ outcome rfl
  cases outcome with
  | failed reason => exact inventoryReservationFailed_follows (fuel + 4) _ _ _
  | ok reservation => exact inventoryReserved_follows fuel _ _ _

def Hands (c : SagaCall) (p : SagaPoint) (handle : ChoreographedSagaHandle) : Prop :=
  p.call = c ∧ p.phase.ended = true ∧ p.phase.order = handle.orderId ∧
    (handle.aborted = true ↔ p.phase = .aborted)

/-- Seven publishes deep is as deep as a cascade goes: it never runs out of fuel. -/
theorem runChoreographedOrderSaga_follows (fuel : Nat) (c : SagaCall) :
    sagaProtocol.Follows (Hands c) ⟨c,.creating⟩
      (runChoreographedOrderSaga (fuel + 7) c.input c.failAtStep) := by
  apply (createOrderStep_follows .choreography).bind
  rintro _ outcome rfl
  cases outcome with
  | failed reason => exact .pure ⟨rfl,rfl,rfl,by simp [SagaPhase.created]⟩
  | ok order =>
    apply (orderCreated_follows (i := order.id) fuel _ _).bind
    rintro p' ⟨⟩ ⟨hcall,hended,horder⟩
    refine .pure ⟨hcall,hended,horder,?_⟩
    constructor
    · intro h
      cases h
    · intro h
      rw [h] at horder
      cases horder

end Handlers

end SystemsLab.Saga
