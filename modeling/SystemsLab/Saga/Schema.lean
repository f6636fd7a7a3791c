import SystemsLab.Framework.Table

/-!
# The tables of the order saga, and the SQL of its steps

Each step is one transaction. Its `work` either returns a result and the tables it leaves, or
throws: a `CHECK`, a foreign key, or a guard of the step itself.
-/

namespace SystemsLab.Saga

/-- The four forward saga steps, in order. -/
inductive StepName
  | createOrder
  | reserveInventory
  | capturePayment
  | createShipment
  deriving DecidableEq, Repr

inductive Mechanism
  | orchestration
  | choreography
  deriving DecidableEq, Repr

inductive Direction
  | forward
  | compensate
  deriving DecidableEq, Repr

structure OrderSagaInput where
  customerName : String
  amountCents : Int
  itemSku : String
  quantity : Int
  deriving DecidableEq, Repr

structure OrderRef where
  id : Nat
  publicId : String
  deriving DecidableEq, Repr

structure ReservationRef where
  reservationId : Nat
  itemId : Nat
  quantity : Int
  deriving DecidableEq, Repr

structure PaymentRef where
  paymentId : Nat
  deriving DecidableEq, Repr

structure ShipmentRef where
  shipmentId : Nat
  deriving DecidableEq, Repr

inductive OrderStatus
  | pending
  | completed
  | cancelled
  deriving DecidableEq, Repr

structure OrderRow where
  id : Nat
  publicId : String
  customerName : String
  amountCents : Int
  status : OrderStatus := .pending
  deriving DecidableEq, Repr

def OrderRow.setStatus (status : OrderStatus) (row : OrderRow) : OrderRow :=
  { row with status }

structure ItemRow where
  id : Nat
  sku : String
  availableQuantity : Int
  deriving DecidableEq, Repr

def ItemRow.add (delta : Int) (row : ItemRow) : ItemRow :=
  { row with availableQuantity := row.availableQuantity + delta }

inductive ReservationStatus
  | reserved
  | released
  deriving DecidableEq, Repr

structure ReservationRow where
  id : Nat
  orderId : Nat
  itemId : Nat
  quantity : Int
  status : ReservationStatus
  deriving DecidableEq, Repr

def ReservationRow.release (row : ReservationRow) : ReservationRow :=
  { row with status := .released }

inductive PaymentStatus
  | captured
  | refunded
  deriving DecidableEq, Repr

structure PaymentRow where
  id : Nat
  orderId : Nat
  amountCents : Int
  status : PaymentStatus
  deriving DecidableEq, Repr

def PaymentRow.refund (row : PaymentRow) : PaymentRow :=
  { row with status := .refunded }

inductive ShipmentStatus
  | created
  deriving DecidableEq, Repr

structure ShipmentRow where
  id : Nat
  orderId : Nat
  status : ShipmentStatus
  deriving DecidableEq, Repr

structure SagaTables where
  orders : List OrderRow := []
  items : List ItemRow := []
  reservations : List ReservationRow := []
  payments : List PaymentRow := []
  shipments : List ShipmentRow := []
  orderSeq : Nat := 1
  reservationSeq : Nat := 1
  paymentSeq : Nat := 1
  shipmentSeq : Nat := 1
  deriving DecidableEq, Repr

def checkViolation (relation constraint : String) : String :=
  "new row for relation \"" ++ relation ++ "\" violates check constraint \"" ++ constraint ++ "\""

def foreignKeyViolation (relation constraint : String) : String :=
  "insert or update on table \"" ++ relation ++ "\" violates foreign key constraint \"" ++
    constraint ++ "\""

namespace SagaTables

def hasOrder (t : SagaTables) (orderId : Nat) : Bool :=
  t.orders.any (·.id == orderId)

def createOrder (t : SagaTables) (input : OrderSagaInput) (uuid : String) :
    Except String (OrderRef × SagaTables) :=
  if input.amountCents ≤ 0 then
    .error (checkViolation "orders" "orders_amount_cents_positive")
  else
    let row : OrderRow :=
      { id := t.orderSeq
        publicId := uuid
        customerName := input.customerName
        amountCents := input.amountCents
        status := .pending }
    .ok (⟨row.id,row.publicId⟩,
      { t with orders := t.orders ++ [row], orderSeq := t.orderSeq + 1 })

/-- `UPDATE inventory_items SET available_quantity = available_quantity + delta WHERE id = …`. -/
def addAvailable (t : SagaTables) (itemId : Nat) (delta : Int) : Except String SagaTables :=
  if t.items.any fun item => item.id == itemId && decide (item.availableQuantity + delta < 0) then
    .error (checkViolation "inventory_items" "inventory_items_available_quantity_non_negative")
  else
    .ok { t with items := updateWhere (·.id == itemId) (ItemRow.add delta) t.items }

def reserveInventory (t : SagaTables) (orderId : Nat) (itemSku : String) (quantity : Int) :
    Except String (ReservationRef × SagaTables) :=
  match t.items.find? (·.sku == itemSku) with
  | none => .error ("Unknown SKU \"" ++ itemSku ++ "\"")
  | some item =>
    if item.availableQuantity < quantity then
      .error ("Insufficient inventory for \"" ++ itemSku ++ "\": have " ++
        toString item.availableQuantity ++ ", need " ++ toString quantity)
    else
      match t.addAvailable item.id (-quantity) with
      | .error e => .error e
      | .ok t' =>
        if quantity ≤ 0 then
          .error (checkViolation "inventory_reservations"
            "inventory_reservations_quantity_positive")
        else if t.hasOrder orderId then
          let row : ReservationRow :=
            { id := t.reservationSeq
              orderId
              itemId := item.id
              quantity
              status := .reserved }
          .ok (⟨row.id,row.itemId,row.quantity⟩,
            { t' with
              reservations := t.reservations ++ [row]
              reservationSeq := t.reservationSeq + 1 })
        else
          .error (foreignKeyViolation "inventory_reservations"
            "inventory_reservations_order_id_orders_id_fk")

def capturePayment (t : SagaTables) (orderId : Nat) (amountCents : Int) :
    Except String (PaymentRef × SagaTables) :=
  if amountCents ≤ 0 then .error (checkViolation "payments" "payments_amount_cents_positive")
  else if t.hasOrder orderId then
    let row : PaymentRow :=
      { id := t.paymentSeq
        orderId
        amountCents
        status := .captured }
    .ok (⟨row.id⟩,{ t with payments := t.payments ++ [row], paymentSeq := t.paymentSeq + 1 })
  else .error (foreignKeyViolation "payments" "payments_order_id_orders_id_fk")

def createShipment (t : SagaTables) (orderId : Nat) :
    Except String (ShipmentRef × SagaTables) :=
  if t.hasOrder orderId then
    let row : ShipmentRow :=
      { id := t.shipmentSeq
        orderId
        status := .created }
    .ok (⟨row.id⟩,{ t with shipments := t.shipments ++ [row], shipmentSeq := t.shipmentSeq + 1 })
  else .error (foreignKeyViolation "shipments" "shipments_order_id_orders_id_fk")

/-- `UPDATE orders SET status = … WHERE id = $1`. -/
def setOrderStatus (t : SagaTables) (orderId : Nat) (status : OrderStatus) : SagaTables :=
  { t with orders := updateWhere (·.id == orderId) (OrderRow.setStatus status) t.orders }

def completeOrder (t : SagaTables) (orderId : Nat) : Except String (Unit × SagaTables) :=
  .ok ((),t.setOrderStatus orderId .completed)

def refundPayment (t : SagaTables) (payment : PaymentRef) : Except String (Unit × SagaTables) :=
  .ok ((),{ t with
    payments := updateWhere (·.id == payment.paymentId) PaymentRow.refund t.payments })

def releaseInventory (t : SagaTables) (reservation : ReservationRef) :
    Except String (Unit × SagaTables) :=
  match t.addAvailable reservation.itemId reservation.quantity with
  | .error e => .error e
  | .ok t' => .ok ((),{ t' with
      reservations := updateWhere (·.id == reservation.reservationId) ReservationRow.release
        t.reservations })

def cancelOrder (t : SagaTables) (orderId : Nat) : Except String (Unit × SagaTables) :=
  .ok ((),t.setOrderStatus orderId .cancelled)

end SagaTables

end SystemsLab.Saga
