import SystemsLab.Saga.Execution
import SystemsLab.Saga.Equivalence

/-!
# What a saga leaves in the tables

The phase of a saga tells exactly which rows its order has, and in which status. Every attempt
keeps that true of its own order, leaves the rows of all other orders alone, and moves stock
only between an item and its reservations.
-/

namespace SystemsLab.Saga

variable {c : SagaCall} {f : Faults} {t t' : SagaTables} {ph ph' : SagaPhase}

structure OrderRecord where
  status : OrderStatus
  reservation : Option (ReservationRef × ReservationStatus) := none
  payment : Option (PaymentRef × PaymentStatus) := none
  shipment : Option ShipmentRef := none
  deriving DecidableEq, Repr

/-- What the tables hold on the order of a saga in this phase. -/
def SagaPhase.record : SagaPhase → OrderRecord
  | .creating => { status := .pending }
  | .aborted => { status := .pending }
  | .reserving _ => { status := .pending }
  | .capturing _ reservation =>
    { status := .pending, reservation := some (reservation,.reserved) }
  | .shipping _ reservation payment =>
    { status := .pending
      reservation := some (reservation,.reserved)
      payment := some (payment,.captured) }
  | .completing _ reservation payment shipment =>
    { status := .pending
      reservation := some (reservation,.reserved)
      payment := some (payment,.captured)
      shipment := some shipment }
  | .refunding _ reservation payment =>
    { status := .pending
      reservation := some (reservation,.reserved)
      payment := some (payment,.captured) }
  | .releasing _ reservation payment =>
    { status := .pending, reservation := some (reservation,.reserved), payment }
  | .cancelling _ reservation payment => { status := .pending, reservation, payment }
  | .completed _ reservation payment shipment status =>
    { status
      reservation := some (reservation,.reserved)
      payment := some (payment,.captured)
      shipment := some shipment }
  | .compensated _ reservation payment status => { status, reservation, payment }

def ReservationRow.entry (row : ReservationRow) : ReservationRef × ReservationStatus :=
  (⟨row.id,row.itemId,row.quantity⟩,row.status)

def PaymentRow.entry (row : PaymentRow) : PaymentRef × PaymentStatus :=
  (⟨row.id⟩,row.status)

def ShipmentRow.ref (row : ShipmentRow) : ShipmentRef :=
  ⟨row.id⟩

/-- The rows of order `i` are those of the record, and no others. -/
structure SagaTables.Records (t : SagaTables) (i : Nat) (r : OrderRecord) : Prop where
  order : (t.orders.filter (·.id == i)).map OrderRow.status = [r.status]
  reservations : (t.reservations.filter (·.orderId == i)).map ReservationRow.entry =
    r.reservation.toList
  payments : (t.payments.filter (·.orderId == i)).map PaymentRow.entry = r.payment.toList
  shipments : (t.shipments.filter (·.orderId == i)).map ShipmentRow.ref = r.shipment.toList

/-- The constraints of the schema: primary keys behind their sequences, foreign keys to
`orders`, and the checks. -/
structure SagaTables.WellFormed (t : SagaTables) : Prop where
  orderIds : (t.orders.map OrderRow.id).Nodup
  orderSeq : ∀ row ∈ t.orders, row.id < t.orderSeq
  itemIds : (t.items.map ItemRow.id).Nodup
  available : ∀ row ∈ t.items, 0 ≤ row.availableQuantity
  reservationIds : (t.reservations.map ReservationRow.id).Nodup
  reservationSeq : ∀ row ∈ t.reservations, row.id < t.reservationSeq
  reservationOrders : ∀ row ∈ t.reservations, t.hasOrder row.orderId = true
  quantities : ∀ row ∈ t.reservations, 0 < row.quantity
  paymentIds : (t.payments.map PaymentRow.id).Nodup
  paymentSeq : ∀ row ∈ t.payments, row.id < t.paymentSeq
  paymentOrders : ∀ row ∈ t.payments, t.hasOrder row.orderId = true
  shipmentOrders : ∀ row ∈ t.shipments, t.hasOrder row.orderId = true

theorem hasOrder_iff {i : Nat} : t.hasOrder i = true ↔ ∃ row ∈ t.orders, row.id = i := by
  simp [SagaTables.hasOrder]

theorem SagaTables.WellFormed.lt_orderSeq (h : t.WellFormed) {i : Nat}
    (hi : t.hasOrder i = true) : i < t.orderSeq := by
  obtain ⟨row,hrow,rfl⟩ := hasOrder_iff.mp hi
  exact h.orderSeq row hrow

private theorem SagaTables.WellFormed.withItems (h : t.WellFormed) {itemId : Nat} {delta : Int}
    (hcheck : ∀ row ∈ t.items, row.id = itemId → 0 ≤ row.availableQuantity + delta) :
    ((updateWhere (·.id == itemId) (ItemRow.add delta) t.items).map ItemRow.id).Nodup ∧
      ∀ row ∈ updateWhere (·.id == itemId) (ItemRow.add delta) t.items,
        0 ≤ row.availableQuantity := by
  have hid : ∀ row : ItemRow, (row.add delta).id = row.id := fun _ => rfl
  constructor
  · rw [map_updateWhere _ hid]
    exact h.itemIds
  · refine forall_mem_updateWhere h.available ?_ ?_
    · intro row hrow _ hhit
      exact hcheck row hrow (by simpa using hhit)
    · intro row _ hrow _
      exact hrow

private theorem SagaTables.WellFormed.setOrderStatus (h : t.WellFormed) (i : Nat)
    (status : OrderStatus) : (t.setOrderStatus i status).WellFormed := by
  have hid : ∀ row : OrderRow, (row.setStatus status).id = row.id := fun _ => rfl
  have hkeeps : ∀ j, t.hasOrder j = true → (t.setOrderStatus i status).hasOrder j = true := by
    intro j hj
    rwa [hasOrder_setOrderStatus]
  refine { h with orderIds := ?_, orderSeq := ?_, reservationOrders := ?_, paymentOrders := ?_,
                  shipmentOrders := ?_ }
  · show ((updateWhere _ _ t.orders).map OrderRow.id).Nodup
    rw [map_updateWhere _ hid]
    exact h.orderIds
  · exact forall_mem_updateWhere h.orderSeq (fun _ _ hr _ => hr) fun _ _ hr _ => hr
  · exact fun row hrow => hkeeps _ (h.reservationOrders row hrow)
  · exact fun row hrow => hkeeps _ (h.paymentOrders row hrow)
  · exact fun row hrow => hkeeps _ (h.shipmentOrders row hrow)

theorem SagaMove.wellFormed (h : SagaMove c f t ph ph' t') (hwf : t.WellFormed)
    (hpresent : ph.Present t) : t'.WellFormed := by
  cases h with
  | created row _ _ hid _ =>
    have hkeeps : ∀ j, t.hasOrder j = true →
        SagaTables.hasOrder { t with
          orders := t.orders ++ [row], orderSeq := t.orderSeq + 1 } j = true := by
      intro j hj
      rw [SagaTables.hasOrder,hasOrder_append]
      exact Bool.or_eq_true_iff.mpr (.inl hj)
    refine { hwf with orderIds := ?_, orderSeq := ?_, reservationOrders := ?_,
                      paymentOrders := ?_, shipmentOrders := ?_ }
    · apply nodup_append_next hwf.orderIds
      rw [hid]
      exact hwf.orderSeq
    · apply forall_append_next
      · intro r hr
        exact Nat.lt_succ_of_lt (hwf.orderSeq r hr)
      · rw [hid]
        exact Nat.lt_succ_self _
    · exact fun r hr => hkeeps _ (hwf.reservationOrders r hr)
    · exact fun r hr => hkeeps _ (hwf.paymentOrders r hr)
    · exact fun r hr => hkeeps _ (hwf.shipmentOrders r hr)
  | reserved i itemId _ hreservable hcheck =>
    have hitems := hwf.withItems hcheck
    have hquantity : 0 < c.input.quantity := by
      obtain ⟨_,_,_,hpositive,_⟩ := hreservable
      exact hpositive
    refine { hwf with itemIds := hitems.1, available := hitems.2, reservationIds := ?_,
                      reservationSeq := ?_, reservationOrders := ?_, quantities := ?_ }
    · exact nodup_append_next hwf.reservationIds hwf.reservationSeq
    · apply forall_append_next
      · intro r hr
        exact Nat.lt_succ_of_lt (hwf.reservationSeq r hr)
      · exact Nat.lt_succ_self _
    · exact forall_append_next hwf.reservationOrders (hpresent i rfl)
    · exact forall_append_next hwf.quantities hquantity
  | captured i reservation =>
    refine { hwf with paymentIds := ?_, paymentSeq := ?_, paymentOrders := ?_ }
    · exact nodup_append_next hwf.paymentIds hwf.paymentSeq
    · apply forall_append_next
      · intro r hr
        exact Nat.lt_succ_of_lt (hwf.paymentSeq r hr)
      · exact Nat.lt_succ_self _
    · exact forall_append_next hwf.paymentOrders (hpresent i rfl)
  | shipped i reservation payment =>
    exact { hwf with
      shipmentOrders := forall_append_next hwf.shipmentOrders (hpresent i rfl) }
  | completed => exact hwf.setOrderStatus _ _
  | refunded i reservation payment =>
    have hid : ∀ row : PaymentRow, row.refund.id = row.id := fun _ => rfl
    refine { hwf with paymentIds := ?_, paymentSeq := ?_, paymentOrders := ?_ }
    · show ((updateWhere _ _ t.payments).map PaymentRow.id).Nodup
      rw [map_updateWhere _ hid]
      exact hwf.paymentIds
    · exact forall_mem_updateWhere hwf.paymentSeq (fun _ _ hr _ => hr) fun _ _ hr _ => hr
    · exact forall_mem_updateWhere hwf.paymentOrders (fun _ _ hr _ => hr) fun _ _ hr _ => hr
  | released i reservation payment _ hcheck =>
    have hid : ∀ row : ReservationRow, row.release.id = row.id := fun _ => rfl
    have hitems := hwf.withItems hcheck
    refine { hwf with itemIds := hitems.1, available := hitems.2, reservationIds := ?_,
                      reservationSeq := ?_, reservationOrders := ?_, quantities := ?_ }
    · show ((updateWhere _ _ t.reservations).map ReservationRow.id).Nodup
      rw [map_updateWhere _ hid]
      exact hwf.reservationIds
    · exact forall_mem_updateWhere hwf.reservationSeq (fun _ _ hr _ => hr) fun _ _ hr _ => hr
    · exact forall_mem_updateWhere hwf.reservationOrders (fun _ _ hr _ => hr)
        fun _ _ hr _ => hr
    · exact forall_mem_updateWhere hwf.quantities (fun _ _ hr _ => hr) fun _ _ hr _ => hr
  | cancelled => exact hwf.setOrderStatus _ _
  | _ => exact hwf

theorem mem_of_filter_eq_singleton {ρ : Type} {q : ρ → Bool} {rows : List ρ} {row : ρ}
    (h : rows.filter q = [row]) : row ∈ rows ∧ q row = true := by
  apply List.mem_filter.mp
  rw [h]
  exact List.mem_singleton_self row

namespace SagaTables.Records

variable {i j : Nat} {r s : OrderRecord}

theorem order_row (h : t.Records i r) :
    ∃ row, t.orders.filter (·.id == i) = [row] ∧ row.id = i ∧ row.status = r.status := by
  obtain ⟨row,hrow,hstatus⟩ := List.map_eq_singleton_iff.mp h.order
  have hmem := mem_of_filter_eq_singleton hrow
  exact ⟨row,hrow,by simpa using hmem.2,hstatus⟩

theorem reservation_row (h : t.Records i r) {reservation : ReservationRef}
    {status : ReservationStatus} (hr : r.reservation = some (reservation,status)) :
    ∃ row, t.reservations.filter (·.orderId == i) = [row] ∧ row ∈ t.reservations ∧
      row.orderId = i ∧ row.entry = (reservation,status) := by
  have hentries := h.reservations
  rw [hr] at hentries
  obtain ⟨row,hrow,hentry⟩ := List.map_eq_singleton_iff.mp hentries
  have hmem := mem_of_filter_eq_singleton hrow
  exact ⟨row,hrow,hmem.1,by simpa using hmem.2,hentry⟩

private theorem payment_row (h : t.Records i r) {payment : PaymentRef} {status : PaymentStatus}
    (hr : r.payment = some (payment,status)) :
    ∃ row, t.payments.filter (·.orderId == i) = [row] ∧ row ∈ t.payments ∧ row.orderId = i ∧
      row.entry = (payment,status) := by
  have hentries := h.payments
  rw [hr] at hentries
  obtain ⟨row,hrow,hentry⟩ := List.map_eq_singleton_iff.mp hentries
  have hmem := mem_of_filter_eq_singleton hrow
  exact ⟨row,hrow,hmem.1,by simpa using hmem.2,hentry⟩

private theorem setOrderStatus (h : t.Records i r) (status : OrderStatus) :
    (t.setOrderStatus i status).Records i { r with status } := by
  obtain ⟨row,hrow,rfl,_⟩ := h.order_row
  refine ⟨?_,h.reservations,h.payments,h.shipments⟩
  have hkey : ∀ x : OrderRow, ((x.setStatus status).id == row.id) = (x.id == row.id) :=
    fun _ => rfl
  show (List.filter _ (updateWhere _ _ t.orders)).map _ = _
  rw [filter_updateWhere_own hkey hrow]
  rfl

private theorem setOrderStatus_other (h : t.Records j r) (hj : j ≠ i) (status : OrderStatus) :
    (t.setOrderStatus i status).Records j r := by
  refine ⟨?_,h.reservations,h.payments,h.shipments⟩
  have hkey : ∀ x : OrderRow, ((x.setStatus status).id == j) = (x.id == j) := fun _ => rfl
  show (List.filter _ (updateWhere _ _ t.orders)).map _ = _
  rw [filter_updateWhere hkey,updateWhere_of_forall_not]
  · exact h.order
  · intro row hrow
    have hid : row.id = j := by simpa using (List.mem_filter.mp hrow).2
    rw [hid,beq_eq_false_iff_ne]
    exact hj

private theorem refund (h : t.Records i r) {payment : PaymentRef} {status : PaymentStatus}
    (hr : r.payment = some (payment,status)) :
    SagaTables.Records { t with
      payments := updateWhere (·.id == payment.paymentId) PaymentRow.refund t.payments } i
      { r with payment := some (payment,.refunded) } := by
  obtain ⟨row,hrow,_,rfl,hentry⟩ := h.payment_row hr
  cases hentry
  refine ⟨h.order,h.reservations,?_,h.shipments⟩
  have hkey : ∀ x : PaymentRow, (x.refund.orderId == row.orderId) = (x.orderId == row.orderId) :=
    fun _ => rfl
  show (List.filter _ (updateWhere (·.id == row.id) _ t.payments)).map _ = _
  rw [filter_updateWhere_own hkey hrow]
  rfl

private theorem refund_other (hwf : t.WellFormed) (h : t.Records i r) {payment : PaymentRef}
    {status : PaymentStatus} (hr : r.payment = some (payment,status)) (hj : j ≠ i)
    (hs : t.Records j s) :
    SagaTables.Records { t with
      payments := updateWhere (·.id == payment.paymentId) PaymentRow.refund t.payments } j s := by
  obtain ⟨row,_,hmem,hid,hentry⟩ := h.payment_row hr
  cases hentry
  refine ⟨hs.order,hs.reservations,?_,hs.shipments⟩
  have hkey : ∀ x : PaymentRow, (x.refund.orderId == j) = (x.orderId == j) := fun _ => rfl
  show (List.filter _ (updateWhere (·.id == row.id) _ t.payments)).map _ = _
  rw [filter_updateWhere_other hkey hwf.paymentIds hmem]
  · exact hs.payments
  · rw [hid,beq_eq_false_iff_ne]
    exact hj.symm

private theorem release (h : t.Records i r) {reservation : ReservationRef}
    {status : ReservationStatus}
    (hr : r.reservation = some (reservation,status)) (items : List ItemRow) :
    SagaTables.Records { t with
      items
      reservations := updateWhere (·.id == reservation.reservationId) ReservationRow.release
        t.reservations } i { r with reservation := some (reservation,.released) } := by
  obtain ⟨row,hrow,_,rfl,hentry⟩ := h.reservation_row hr
  cases hentry
  refine ⟨h.order,?_,h.payments,h.shipments⟩
  have hkey : ∀ x : ReservationRow,
      (x.release.orderId == row.orderId) = (x.orderId == row.orderId) := fun _ => rfl
  show (List.filter _ (updateWhere (·.id == row.id) _ t.reservations)).map _ = _
  rw [filter_updateWhere_own hkey hrow]
  rfl

private theorem release_other (hwf : t.WellFormed) (h : t.Records i r)
    {reservation : ReservationRef}
    {status : ReservationStatus} (hr : r.reservation = some (reservation,status)) (hj : j ≠ i)
    (hs : t.Records j s) (items : List ItemRow) :
    SagaTables.Records { t with
      items
      reservations := updateWhere (·.id == reservation.reservationId) ReservationRow.release
        t.reservations } j s := by
  obtain ⟨row,_,hmem,hid,hentry⟩ := h.reservation_row hr
  cases hentry
  refine ⟨hs.order,?_,hs.payments,hs.shipments⟩
  have hkey : ∀ x : ReservationRow, (x.release.orderId == j) = (x.orderId == j) := fun _ => rfl
  show (List.filter _ (updateWhere (·.id == row.id) _ t.reservations)).map _ = _
  rw [filter_updateWhere_other hkey hwf.reservationIds hmem]
  · exact hs.reservations
  · rw [hid,beq_eq_false_iff_ne]
    exact hj.symm

end SagaTables.Records

/-- No row refers to an order that is not there. -/
theorem SagaTables.WellFormed.records_created (hwf : t.WellFormed) {row : OrderRow}
    (hid : row.id = t.orderSeq) (hstatus : row.status = .pending) :
    SagaTables.Records { t with orders := t.orders ++ [row], orderSeq := t.orderSeq + 1 } row.id
      { status := .pending } := by
  have hne : ∀ i, t.hasOrder i = true → (i == row.id) = false := by
    intro i hi
    rw [beq_eq_false_iff_ne,hid]
    exact Nat.ne_of_lt (hwf.lt_orderSeq hi)
  have hnone : ∀ {ρ : Type} (rows : List ρ) (owner : ρ → Nat),
      (∀ x ∈ rows, t.hasOrder (owner x) = true) → rows.filter (owner · == row.id) = [] := by
    intro ρ rows owner howner
    rw [List.filter_eq_nil_iff]
    intro x hx
    rw [hne _ (howner x hx)]
    exact Bool.false_ne_true
  have horders : ∀ x ∈ t.orders, t.hasOrder x.id = true :=
    fun x hx => hasOrder_iff.mpr ⟨x,hx,rfl⟩
  constructor
  · show ((t.orders ++ [row]).filter _).map _ = _
    rw [filter_append_own,hnone t.orders OrderRow.id horders]
    · show [row.status] = _
      rw [hstatus]
    · exact beq_self_eq_true _
  · show (t.reservations.filter _).map _ = _
    rw [hnone t.reservations _ hwf.reservationOrders]
    rfl
  · show (t.payments.filter _).map _ = _
    rw [hnone t.payments _ hwf.paymentOrders]
    rfl
  · show (t.shipments.filter _).map _ = _
    rw [hnone t.shipments _ hwf.shipmentOrders]
    rfl

/-- The tables hold on the saga's own order what its phase says. -/
def SagaPhase.Recorded (ph : SagaPhase) (t : SagaTables) : Prop :=
  ∀ i, ph.order = some i → t.Records i ph.record

theorem SagaMove.recorded (h : SagaMove c f t ph ph' t') (hwf : t.WellFormed)
    (hrec : ph.Recorded t) : ph'.Recorded t' := by
  intro i hi
  cases h with
  | created row _ _ hid hstatus =>
    cases hi
    exact hwf.records_created hid hstatus
  | aborted => cases hi
  | reserved i' itemId =>
    cases hi
    have hr := hrec i rfl
    refine ⟨hr.order,?_,hr.payments,hr.shipments⟩
    show ((t.reservations ++ [_]).filter _).map _ = _
    rw [filter_append_own,List.map_append,hr.reservations]
    · rfl
    · exact beq_self_eq_true i
  | unreserved => cases hi; exact hrec i rfl
  | captured i' reservation =>
    cases hi
    have hr := hrec i rfl
    refine ⟨hr.order,hr.reservations,?_,hr.shipments⟩
    show ((t.payments ++ [_]).filter _).map _ = _
    rw [filter_append_own,List.map_append,hr.payments]
    · rfl
    · exact beq_self_eq_true i
  | uncaptured => cases hi; exact hrec i rfl
  | shipped i' reservation payment =>
    cases hi
    have hr := hrec i rfl
    refine ⟨hr.order,hr.reservations,hr.payments,?_⟩
    show ((t.shipments ++ [_]).filter _).map _ = _
    rw [filter_append_own,List.map_append,hr.shipments]
    · rfl
    · exact beq_self_eq_true i
  | unshipped => cases hi; exact hrec i rfl
  | completed => cases hi; exact (hrec i rfl).setOrderStatus .completed
  | uncompleted => cases hi; exact hrec i rfl
  | refunded => cases hi; exact (hrec i rfl).refund rfl
  | unrefunded => cases hi; exact hrec i rfl
  | released => cases hi; exact (hrec i rfl).release rfl _
  | unreleased => cases hi; exact hrec i rfl
  | cancelled => cases hi; exact (hrec i rfl).setOrderStatus .cancelled
  | uncancelled => cases hi; exact hrec i rfl

/-- An attempt leaves the rows of all other orders alone. -/
theorem SagaMove.records_other (h : SagaMove c f t ph ph' t') (hwf : t.WellFormed)
    (hrec : ph.Recorded t) {j : Nat} {r : OrderRecord} (hj : ph.order ≠ some j)
    (hhas : t.hasOrder j = true) (hr : t.Records j r) : t'.Records j r := by
  have hne : ∀ i, ph.order = some i → j ≠ i := by
    intro i hi heq
    exact hj (heq ▸ hi)
  cases h with
  | created row _ _ hid _ =>
    refine ⟨?_,hr.reservations,hr.payments,hr.shipments⟩
    show ((t.orders ++ [row]).filter _).map _ = _
    rw [filter_append_other]
    · exact hr.order
    · rw [beq_eq_false_iff_ne,hid]
      exact Nat.ne_of_gt (hwf.lt_orderSeq hhas)
  | reserved i itemId =>
    refine ⟨hr.order,?_,hr.payments,hr.shipments⟩
    show ((t.reservations ++ [_]).filter _).map _ = _
    rw [filter_append_other]
    · exact hr.reservations
    · exact beq_eq_false_iff_ne.mpr (hne i rfl).symm
  | captured i reservation =>
    refine ⟨hr.order,hr.reservations,?_,hr.shipments⟩
    show ((t.payments ++ [_]).filter _).map _ = _
    rw [filter_append_other]
    · exact hr.payments
    · exact beq_eq_false_iff_ne.mpr (hne i rfl).symm
  | shipped i reservation payment =>
    refine ⟨hr.order,hr.reservations,hr.payments,?_⟩
    show ((t.shipments ++ [_]).filter _).map _ = _
    rw [filter_append_other]
    · exact hr.shipments
    · exact beq_eq_false_iff_ne.mpr (hne i rfl).symm
  | completed i => exact hr.setOrderStatus_other (hne i rfl) .completed
  | refunded i => exact (hrec i rfl).refund_other hwf rfl (hne i rfl) hr
  | released i => exact (hrec i rfl).release_other hwf rfl (hne i rfl) hr _
  | cancelled i => exact hr.setOrderStatus_other (hne i rfl) .cancelled
  | _ => exact hr

end SystemsLab.Saga
