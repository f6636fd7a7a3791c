import SystemsLab.Saga.Phases
import Mathlib.Logic.Relation

/-!
# Running the workflow against the tables

`advance` attempts the step of a phase. A request of a program that follows the workflow
either leaves phase and tables alone or is one `advance`, so both mechanisms lead the tables
down the same path.
-/

namespace SystemsLab.Saga

/-- Neither a database error nor an injected failure stops the step. -/
def Faults.runs (f : Faults) (step : SagaStep) (simulated : Bool) : Bool :=
  !f.fails step && !simulated

/-- The outcome of a step and the tables after it. -/
def attempted {α : Type} (runs : Bool) (work : Except String (α × SagaTables))
    (t : SagaTables) : StepOutcome α × SagaTables :=
  match runs, work with
  | true, .ok (result,t') => (.ok result,t')
  | true, .error reason => (.failed reason,t)
  | false, _ => (.failed "",t)

/-- Attempts the step of a phase; there is none after the end. -/
def SagaCall.advance (c : SagaCall) (f : Faults) (t : SagaTables) :
    SagaPhase → Option (SagaPhase × SagaTables)
  | .creating =>
    let r := attempted (f.runs .createOrder (c.simulates .createOrder))
      (t.createOrder c.input f.uuid) t
    some (.created r.1,r.2)
  | .reserving i =>
    let r := attempted (f.runs .reserveInventory (c.simulates .reserveInventory))
      (t.reserveInventory i c.input.itemSku c.input.quantity) t
    some (.reserved i r.1,r.2)
  | .capturing i reservation =>
    let r := attempted (f.runs .capturePayment (c.simulates .capturePayment))
      (t.capturePayment i c.input.amountCents) t
    some (.captured i reservation r.1,r.2)
  | .shipping i reservation payment =>
    let r := attempted (f.runs .createShipment (c.simulates .createShipment))
      (t.createShipment i) t
    some (.shipped i reservation payment r.1,r.2)
  | .completing i reservation payment shipment =>
    let r := attempted (f.runs .completeOrder false) (t.completeOrder i) t
    some (.afterComplete i reservation payment shipment r.1,r.2)
  | .refunding i reservation payment =>
    let r := attempted (f.runs .refundPayment false) (t.refundPayment payment) t
    some (.afterRefund i reservation payment r.1,r.2)
  | .releasing i reservation payment =>
    let r := attempted (f.runs .releaseInventory false) (t.releaseInventory reservation) t
    some (.afterRelease i reservation payment r.1,r.2)
  | .cancelling i reservation payment =>
    let r := attempted (f.runs .cancelOrder false) (t.cancelOrder i) t
    some (.afterCancel i reservation payment r.1,r.2)
  | .aborted => none
  | .completed .. => none
  | .compensated .. => none

private theorem transact_attempted {α : Type} (f : Faults) (db : SagaDb) (mechanism : Mechanism)
    (step : SagaStep) (direction : Direction) (orderId : α → Nat) (simulated : Option String)
    (work : Except String (α × SagaTables)) (next : StepOutcome α → SagaPhase)
    (hnext : ∀ a b, next (.failed a) = next (.failed b)) :
    let r := db.transact mechanism step direction orderId (f.attempt step simulated work)
    let q := attempted (f.runs step simulated.isSome) work db.tables
    next r.1 = next q.1 ∧ r.2.tables = q.2 := by
  intro r q
  simp only [r,q,SagaDb.transact,Faults.attempt,attempted,Faults.runs]
  cases f.fails step with
  | true => exact ⟨hnext _ _,rfl⟩
  | false =>
    cases simulated with
    | some message => exact ⟨hnext _ _,rfl⟩
    | none =>
      cases work with
      | error reason => exact ⟨rfl,rfl⟩
      | ok result => exact ⟨rfl,rfl⟩

private theorem simulatedFailure_isSome (simulate : Bool) (message : String) :
    (simulatedFailure simulate message).isSome = simulate := by
  cases simulate <;> rfl

private theorem transact_advances {α : Type} {c : SagaCall} {f : Faults} {db : SagaDb}
    {ph : SagaPhase}
    {mechanism : Mechanism} {step : SagaStep} {direction : Direction} {orderId : α → Nat}
    (simulated : Option String) {simulate : Bool} {work : Except String (α × SagaTables)}
    {next : StepOutcome α → SagaPhase} {P : Prop} (hP : P)
    (hsimulate : simulated.isSome = simulate) (hnext : ∀ a b, next (.failed a) = next (.failed b))
    (hadvance : c.advance f db.tables ph =
      some (next (attempted (f.runs step simulate) work db.tables).1,
        (attempted (f.runs step simulate) work db.tables).2)) :
    let r := db.transact mechanism step direction orderId (f.attempt step simulated work)
    ∃ ph', some (next r.1) = some ph' ∧ (ph' = ph ∧ r.2.tables = db.tables ∨
      P ∧ c.advance f db.tables ph = some (ph',r.2.tables)) := by
  intro r
  have h := transact_attempted f db mechanism step direction orderId simulated work next hnext
  rw [hsimulate] at h
  refine ⟨next r.1,rfl,.inr ⟨hP,?_⟩⟩
  rw [hadvance,h.1,h.2]

/-- The steps that may not fail if a saga is to end well: the compensations, and the last
update of a completed order. -/
def SagaOp.finishes : SagaOp → Bool
  | .completeOrder .. => true
  | .refundPayment .. => true
  | .releaseInventory .. => true
  | .cancelOrder .. => true
  | _ => false

def SagaPhase.finishing : SagaPhase → Bool
  | .completing .. => true
  | .refunding .. => true
  | .releasing .. => true
  | .cancelling .. => true
  | _ => false

/-- A request in order leaves phase and tables alone, or attempts the step of the phase. -/
theorem exec_advances {c : SagaCall} {f : Faults} {db : SagaDb} {ph : SagaPhase} {op : SagaOp}
    {g : op.Reply → Option SagaPhase} (h : c.allows ph op = some g)
    (hrow : ∀ i, ph.order = some i → db.tables.hasOrder i = true) :
    ∃ ph', g (op.exec f db).1 = some ph' ∧
      (ph' = ph ∧ (op.exec f db).2.tables = db.tables ∨
        op.finishes = ph.finishing ∧
          c.advance f db.tables ph = some (ph',(op.exec f db).2.tables)) := by
  unfold SagaCall.allows at h
  split at h
  · cases h
    exact ⟨ph,rfl,.inl ⟨rfl,rfl⟩⟩
  · rename_i i
    split at h
    · rename_i horder
      cases h
      refine ⟨ph,?_,.inl ⟨rfl,rfl⟩⟩
      have hany := hrow i horder
      rw [SagaTables.hasOrder,List.any_eq_true] at hany
      obtain ⟨row,hmem,hid⟩ := hany
      have hfound : (rowAt OrderRow.id db.tables.orders i).isSome = true := by
        rw [rowAt,List.find?_isSome]
        exact ⟨row,hmem,by simpa using hid⟩
      obtain ⟨found,hfound⟩ := Option.isSome_iff_exists.mp hfound
      have hid' := (rowAt_some hfound).2
      simp [SagaOp.exec,hfound,hid']
    · cases h
  · split at h <;> cases h
    rename_i heq
    obtain ⟨rfl,rfl⟩ := heq
    exact transact_advances _ rfl (simulatedFailure_isSome _ _) (fun _ _ => rfl) rfl
  · split at h <;> cases h
    rename_i heq
    obtain ⟨rfl,rfl,rfl,rfl⟩ := heq
    exact transact_advances _ rfl (simulatedFailure_isSome _ _) (fun _ _ => rfl) rfl
  · split at h <;> cases h
    rename_i heq
    obtain ⟨rfl,rfl,rfl⟩ := heq
    exact transact_advances _ rfl (simulatedFailure_isSome _ _) (fun _ _ => rfl) rfl
  · split at h <;> cases h
    rename_i heq
    obtain ⟨rfl,rfl⟩ := heq
    exact transact_advances _ rfl (simulatedFailure_isSome _ _) (fun _ _ => rfl) rfl
  · split at h <;> cases h
    rename_i heq
    obtain rfl := heq
    exact transact_advances none rfl rfl (fun _ _ => rfl) rfl
  · split at h <;> cases h
    rename_i heq
    obtain rfl := heq
    exact transact_advances none rfl rfl (fun _ _ => rfl) rfl
  · split at h <;> cases h
    rename_i heq
    obtain rfl := heq
    exact transact_advances none rfl rfl (fun _ _ => rfl) rfl
  · split at h <;> cases h
    rename_i heq
    obtain rfl := heq
    exact transact_advances none rfl rfl (fun _ _ => rfl) rfl
  · cases h

/-- Enough of the item is there for the reservation to pass every check. -/
def SagaTables.Reservable (t : SagaTables) (input : OrderSagaInput) : Prop :=
  ∃ item, t.items.find? (·.sku == input.itemSku) = some item ∧
    input.quantity ≤ item.availableQuantity ∧ 0 < input.quantity ∧
    ∀ row ∈ t.items, row.id = item.id → 0 ≤ row.availableQuantity - input.quantity

private theorem addAvailable_ok {t t' : SagaTables} {itemId : Nat} {delta : Int}
    (h : t.addAvailable itemId delta = .ok t') :
    (∀ row ∈ t.items, row.id = itemId → 0 ≤ row.availableQuantity + delta) ∧
      t' = { t with items := updateWhere (·.id == itemId) (ItemRow.add delta) t.items } := by
  unfold SagaTables.addAvailable at h
  split at h
  · cases h
  · rename_i hany
    cases h
    refine ⟨?_,rfl⟩
    intro row hrow hid
    by_contra hneg
    apply hany
    rw [List.any_eq_true]
    exact ⟨row,hrow,by simp [hid]; omega⟩

private theorem addAvailable_error {t : SagaTables} {itemId : Nat} {delta : Int} {reason : String}
    (h : t.addAvailable itemId delta = .error reason) :
    ∃ row ∈ t.items, row.id = itemId ∧ row.availableQuantity + delta < 0 := by
  unfold SagaTables.addAvailable at h
  split at h
  · rename_i hany
    obtain ⟨row,hrow,hneg⟩ := List.any_eq_true.mp hany
    simp only [Bool.and_eq_true,beq_iff_eq,decide_eq_true_eq] at hneg
    exact ⟨row,hrow,hneg⟩
  · cases h

private theorem reserveInventory_ok {t t' : SagaTables} {i : Nat} {input : OrderSagaInput}
    {reservation : ReservationRef}
    (h : t.reserveInventory i input.itemSku input.quantity = .ok (reservation,t')) :
    t.Reservable input ∧ t.hasOrder i = true ∧ ∃ itemId,
      reservation = ⟨t.reservationSeq,itemId,input.quantity⟩ ∧
      (∀ row ∈ t.items, row.id = itemId → 0 ≤ row.availableQuantity + -input.quantity) ∧
      t' = { t with
        items := updateWhere (·.id == itemId) (ItemRow.add (-input.quantity)) t.items
        reservations := t.reservations ++
          [⟨t.reservationSeq,i,itemId,input.quantity,.reserved⟩]
        reservationSeq := t.reservationSeq + 1 } := by
  unfold SagaTables.reserveInventory at h
  split at h
  · cases h
  · rename_i item hitem
    split at h
    · cases h
    · rename_i havailable
      split at h
      · cases h
      · rename_i added hadded
        obtain ⟨hcheck,rfl⟩ := addAvailable_ok hadded
        split at h
        · cases h
        · rename_i hpositive
          split at h
          · rename_i horder
            cases h
            refine ⟨⟨item,hitem,by omega,by omega,?_⟩,horder,item.id,rfl,hcheck,rfl⟩
            intro row hrow hid
            have := hcheck row hrow hid
            omega
          · cases h

private theorem reserveInventory_error {t : SagaTables} {i : Nat} {input : OrderSagaInput}
    {reason : String} (hrow : t.hasOrder i = true)
    (h : t.reserveInventory i input.itemSku input.quantity = .error reason) :
    ¬ t.Reservable input := by
  rintro ⟨item,hitem,havailable,hpositive,hcheck⟩
  unfold SagaTables.reserveInventory at h
  simp only [hitem] at h
  rw [if_neg (by omega)] at h
  split at h
  · rename_i hadded
    obtain ⟨row,hmem,hid,hneg⟩ := addAvailable_error hadded
    have := hcheck row hmem hid
    omega
  · rw [if_neg (by omega),if_pos hrow] at h
    cases h

theorem attempted_step {α : Type} {runs : Bool} {work : Except String (α × SagaTables)}
    {t t' : SagaTables} {ph' : SagaPhase} (next : StepOutcome α → SagaPhase)
    (h : some (next (attempted runs work t).1,(attempted runs work t).2) = some (ph',t')) :
    (∃ result, runs = true ∧ work = .ok (result,t') ∧ ph' = next (.ok result)) ∨
    ∃ reason, (runs = true → work = .error reason) ∧ ph' = next (.failed reason) ∧ t' = t := by
  cases runs with
  | false =>
    cases h
    exact .inr ⟨"",nofun,rfl,rfl⟩
  | true =>
    cases work with
    | error reason =>
      cases h
      exact .inr ⟨reason,fun _ => rfl,rfl,rfl⟩
    | ok r =>
      cases h
      exact .inl ⟨r.1,rfl,rfl,rfl⟩

inductive SagaMove (c : SagaCall) (f : Faults) (t : SagaTables) :
    SagaPhase → SagaPhase → SagaTables → Prop
  | created (row : OrderRow) : f.runs .createOrder (c.simulates .createOrder) = true →
      0 < c.input.amountCents → row.id = t.orderSeq → row.status = .pending →
      SagaMove c f t .creating (.reserving row.id)
        { t with orders := t.orders ++ [row], orderSeq := t.orderSeq + 1 }
  | aborted : (f.runs .createOrder (c.simulates .createOrder) = true →
      c.input.amountCents ≤ 0) → SagaMove c f t .creating .aborted t
  | reserved (i itemId : Nat) :
      f.runs .reserveInventory (c.simulates .reserveInventory) = true → t.Reservable c.input →
      (∀ row ∈ t.items, row.id = itemId → 0 ≤ row.availableQuantity + -c.input.quantity) →
      SagaMove c f t (.reserving i)
        (.capturing i ⟨t.reservationSeq,itemId,c.input.quantity⟩)
        { t with
          items := updateWhere (·.id == itemId) (ItemRow.add (-c.input.quantity)) t.items
          reservations := t.reservations ++
            [⟨t.reservationSeq,i,itemId,c.input.quantity,.reserved⟩]
          reservationSeq := t.reservationSeq + 1 }
  | unreserved (i : Nat) : (f.runs .reserveInventory (c.simulates .reserveInventory) = true →
      t.hasOrder i = true → ¬ t.Reservable c.input) →
      SagaMove c f t (.reserving i) (.cancelling i none none) t
  | captured (i : Nat) (reservation : ReservationRef) :
      f.runs .capturePayment (c.simulates .capturePayment) = true →
      SagaMove c f t (.capturing i reservation) (.shipping i reservation ⟨t.paymentSeq⟩)
        { t with
          payments := t.payments ++ [⟨t.paymentSeq,i,c.input.amountCents,.captured⟩]
          paymentSeq := t.paymentSeq + 1 }
  | uncaptured (i : Nat) (reservation : ReservationRef) :
      (f.runs .capturePayment (c.simulates .capturePayment) = true → t.hasOrder i = true →
        c.input.amountCents ≤ 0) →
      SagaMove c f t (.capturing i reservation) (.releasing i reservation none) t
  | shipped (i : Nat) (reservation : ReservationRef) (payment : PaymentRef) :
      f.runs .createShipment (c.simulates .createShipment) = true →
      SagaMove c f t (.shipping i reservation payment)
        (.completing i reservation payment ⟨t.shipmentSeq⟩)
        { t with
          shipments := t.shipments ++ [⟨t.shipmentSeq,i,.created⟩]
          shipmentSeq := t.shipmentSeq + 1 }
  | unshipped (i : Nat) (reservation : ReservationRef) (payment : PaymentRef) :
      (f.runs .createShipment (c.simulates .createShipment) = true → t.hasOrder i = false) →
      SagaMove c f t (.shipping i reservation payment) (.refunding i reservation payment) t
  | completed (i : Nat) (reservation : ReservationRef) (payment : PaymentRef)
      (shipment : ShipmentRef) : f.fails .completeOrder = false →
      SagaMove c f t (.completing i reservation payment shipment)
        (.completed i reservation payment shipment .completed) (t.setOrderStatus i .completed)
  | uncompleted (i : Nat) (reservation : ReservationRef) (payment : PaymentRef)
      (shipment : ShipmentRef) : f.fails .completeOrder = true →
      SagaMove c f t (.completing i reservation payment shipment)
        (.completed i reservation payment shipment .pending) t
  | refunded (i : Nat) (reservation : ReservationRef) (payment : PaymentRef) :
      f.fails .refundPayment = false →
      SagaMove c f t (.refunding i reservation payment)
        (.releasing i reservation (some (payment,.refunded)))
        { t with
          payments := updateWhere (·.id == payment.paymentId) PaymentRow.refund t.payments }
  | unrefunded (i : Nat) (reservation : ReservationRef) (payment : PaymentRef) :
      f.fails .refundPayment = true →
      SagaMove c f t (.refunding i reservation payment)
        (.releasing i reservation (some (payment,.captured))) t
  | released (i : Nat) (reservation : ReservationRef)
      (payment : Option (PaymentRef × PaymentStatus)) : f.fails .releaseInventory = false →
      (∀ row ∈ t.items, row.id = reservation.itemId →
        0 ≤ row.availableQuantity + reservation.quantity) →
      SagaMove c f t (.releasing i reservation payment)
        (.cancelling i (some (reservation,.released)) payment)
        { t with
          items := updateWhere (·.id == reservation.itemId) (ItemRow.add reservation.quantity)
            t.items
          reservations := updateWhere (·.id == reservation.reservationId)
            ReservationRow.release t.reservations }
  | unreleased (i : Nat) (reservation : ReservationRef)
      (payment : Option (PaymentRef × PaymentStatus)) : (f.fails .releaseInventory = false →
        ∃ row ∈ t.items, row.availableQuantity + reservation.quantity < 0) →
      SagaMove c f t (.releasing i reservation payment)
        (.cancelling i (some (reservation,.reserved)) payment) t
  | cancelled (i : Nat) (reservation : Option (ReservationRef × ReservationStatus))
      (payment : Option (PaymentRef × PaymentStatus)) : f.fails .cancelOrder = false →
      SagaMove c f t (.cancelling i reservation payment)
        (.compensated i reservation payment .cancelled) (t.setOrderStatus i .cancelled)
  | uncancelled (i : Nat) (reservation : Option (ReservationRef × ReservationStatus))
      (payment : Option (PaymentRef × PaymentStatus)) : f.fails .cancelOrder = true →
      SagaMove c f t (.cancelling i reservation payment)
        (.compensated i reservation payment .pending) t

private theorem Faults.runs_eq {f : Faults} {step : SagaStep} :
    f.runs step false = !f.fails step := by
  rw [Faults.runs,Bool.not_false,Bool.and_true]

private theorem fails_of_runs {f : Faults} {step : SagaStep} (h : f.runs step false = true) :
    f.fails step = false := by
  rw [Faults.runs_eq] at h
  simpa using h

private theorem fails_of_ok {α : Type} {f : Faults} {step : SagaStep} {reason : String}
    {r : α × SagaTables}
    (h : f.runs step false = true → (.ok r : Except String (α × SagaTables)) = .error reason) :
    f.fails step = true := by
  by_contra hf
  rw [Bool.not_eq_true] at hf
  rw [Faults.runs_eq,hf] at h
  cases h rfl

variable {c : SagaCall} {f : Faults} {t t' : SagaTables} {ph' : SagaPhase}

private theorem SagaMove.of_creating (h : c.advance f t .creating = some (ph',t')) :
    SagaMove c f t .creating ph' t' := by
  rcases attempted_step .created h with ⟨order,hruns,hwork,rfl⟩ | ⟨reason,hwork,rfl,rfl⟩
  · unfold SagaTables.createOrder at hwork
    split at hwork
    · cases hwork
    · cases hwork
      exact .created ⟨t.orderSeq,_,_,_,_⟩ hruns (by omega) rfl rfl
  · apply SagaMove.aborted
    intro hruns
    have hwork := hwork hruns
    unfold SagaTables.createOrder at hwork
    split at hwork
    · assumption
    · cases hwork

private theorem SagaMove.of_reserving {i : Nat} (h : c.advance f t (.reserving i) = some (ph',t')) :
    SagaMove c f t (.reserving i) ph' t' := by
  rcases attempted_step (.reserved i) h with
    ⟨reservation,hruns,hwork,rfl⟩ | ⟨reason,hwork,rfl,rfl⟩
  · obtain ⟨hreservable,_,itemId,rfl,hcheck,rfl⟩ := reserveInventory_ok hwork
    exact .reserved i itemId hruns hreservable hcheck
  · apply SagaMove.unreserved
    intro hruns hrow
    exact reserveInventory_error hrow (hwork hruns)

private theorem SagaMove.of_capturing {i : Nat} {reservation : ReservationRef}
    (h : c.advance f t (.capturing i reservation) = some (ph',t')) :
    SagaMove c f t (.capturing i reservation) ph' t' := by
  rcases attempted_step (.captured i reservation) h with
    ⟨payment,hruns,hwork,rfl⟩ | ⟨reason,hwork,rfl,rfl⟩
  · unfold SagaTables.capturePayment at hwork
    split at hwork
    · cases hwork
    · split at hwork <;> cases hwork
      exact .captured i reservation hruns
  · apply SagaMove.uncaptured
    intro hruns hrow
    have hwork := hwork hruns
    unfold SagaTables.capturePayment at hwork
    split at hwork
    · assumption
    · cases hwork

private theorem SagaMove.of_shipping {i : Nat} {reservation : ReservationRef} {payment : PaymentRef}
    (h : c.advance f t (.shipping i reservation payment) = some (ph',t')) :
    SagaMove c f t (.shipping i reservation payment) ph' t' := by
  rcases attempted_step (.shipped i reservation payment) h with
    ⟨shipment,hruns,hwork,rfl⟩ | ⟨reason,hwork,rfl,rfl⟩
  · unfold SagaTables.createShipment at hwork
    split at hwork <;> cases hwork
    exact .shipped i reservation payment hruns
  · apply SagaMove.unshipped
    intro hruns
    have hwork := hwork hruns
    unfold SagaTables.createShipment at hwork
    split at hwork
    · cases hwork
    · rename_i hrow
      simpa using hrow

private theorem SagaMove.of_releasing {i : Nat} {reservation : ReservationRef}
    {payment : Option (PaymentRef × PaymentStatus)}
    (h : c.advance f t (.releasing i reservation payment) = some (ph',t')) :
    SagaMove c f t (.releasing i reservation payment) ph' t' := by
  rcases attempted_step (.afterRelease i reservation payment) h with
    ⟨_,hruns,hwork,rfl⟩ | ⟨reason,hwork,rfl,rfl⟩
  · unfold SagaTables.releaseInventory at hwork
    split at hwork
    · cases hwork
    · rename_i added hadded
      obtain ⟨hcheck,rfl⟩ := addAvailable_ok hadded
      cases hwork
      exact .released i reservation payment (fails_of_runs hruns) hcheck
  · apply SagaMove.unreleased
    intro hf
    have hwork := hwork (by rw [Faults.runs_eq,hf]; rfl)
    unfold SagaTables.releaseInventory at hwork
    split at hwork
    · rename_i hadded
      obtain ⟨row,hrow,_,hneg⟩ := addAvailable_error hadded
      exact ⟨row,hrow,hneg⟩
    · cases hwork

theorem advance_move {ph : SagaPhase} (h : c.advance f t ph = some (ph',t')) :
    SagaMove c f t ph ph' t' := by
  cases ph with
  | creating => exact .of_creating h
  | reserving i => exact .of_reserving h
  | capturing i reservation => exact .of_capturing h
  | shipping i reservation payment => exact .of_shipping h
  | completing i reservation payment shipment =>
    rcases attempted_step (.afterComplete i reservation payment shipment) h with
      ⟨_,hruns,hwork,rfl⟩ | ⟨_,hwork,rfl,rfl⟩
    · cases hwork
      exact .completed i reservation payment shipment (fails_of_runs hruns)
    · exact .uncompleted i reservation payment shipment (fails_of_ok hwork)
  | refunding i reservation payment =>
    rcases attempted_step (.afterRefund i reservation payment) h with
      ⟨_,hruns,hwork,rfl⟩ | ⟨_,hwork,rfl,rfl⟩
    · cases hwork
      exact .refunded i reservation payment (fails_of_runs hruns)
    · exact .unrefunded i reservation payment (fails_of_ok hwork)
  | releasing i reservation payment => exact .of_releasing h
  | cancelling i reservation payment =>
    rcases attempted_step (.afterCancel i reservation payment) h with
      ⟨_,hruns,hwork,rfl⟩ | ⟨_,hwork,rfl,rfl⟩
    · cases hwork
      exact .cancelled i reservation payment (fails_of_runs hruns)
    · exact .uncancelled i reservation payment (fails_of_ok hwork)
  | aborted => cases h
  | completed => cases h
  | compensated => cases h

end SystemsLab.Saga
