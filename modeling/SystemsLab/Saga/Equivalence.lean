import SystemsLab.Saga.Execution

/-!
# Orchestration and choreography agree

Run alone, a program that follows the workflow takes the tables along the workflow's path. The
path is determined by the tables, the input and the steps that fail, except for the public id
of the new order.
-/

namespace SystemsLab.Saga

variable {c : SagaCall} {f : Faults} {t t' : SagaTables} {ph ph' : SagaPhase}

theorem hasOrder_append (orders : List OrderRow) (row : OrderRow) (i : Nat) :
    ((orders ++ [row]).any (·.id == i)) = (orders.any (·.id == i) || row.id == i) := by
  rw [List.any_append,List.any_cons,List.any_nil,Bool.or_false]

theorem hasOrder_setOrderStatus (t : SagaTables) (i j : Nat) (status : OrderStatus) :
    (t.setOrderStatus i status).hasOrder j = t.hasOrder j := by
  have hid : ∀ row : OrderRow, (row.setStatus status).id = row.id := fun _ => rfl
  have hmap := map_updateWhere (p := (·.id == i)) OrderRow.id hid t.orders
  have hany : ∀ orders : List OrderRow,
      orders.any (·.id == j) = (orders.map OrderRow.id).any (· == j) := by
    intro orders
    rw [List.any_map]
    rfl
  rw [SagaTables.hasOrder,SagaTables.hasOrder,hany,hany,SagaTables.setOrderStatus,hmap]

theorem SagaMove.keeps_order (h : SagaMove c f t ph ph' t') {i : Nat}
    (hi : t.hasOrder i = true) : t'.hasOrder i = true := by
  cases h with
  | created row =>
    rw [SagaTables.hasOrder,hasOrder_append]
    exact Bool.or_eq_true_iff.mpr (.inl hi)
  | completed => rwa [hasOrder_setOrderStatus]
  | cancelled => rwa [hasOrder_setOrderStatus]
  | _ => exact hi

/-- A saga whose phase names an order has put it there. -/
def SagaPhase.Present (ph : SagaPhase) (t : SagaTables) : Prop :=
  ∀ i, ph.order = some i → t.hasOrder i = true

theorem SagaMove.present (h : SagaMove c f t ph ph' t') (hp : ph.Present t) :
    ph'.Present t' := by
  have hkeeps := fun i hi => h.keeps_order (i := i) (hp i hi)
  cases h with
  | created row =>
    intro i hi
    cases hi
    rw [SagaTables.hasOrder,hasOrder_append,beq_self_eq_true,Bool.or_true]
  | aborted =>
    intro i hi
    cases hi
  | _ => exact hkeeps

def Advances (c : SagaCall) (f : Faults) :
    SagaPhase × SagaTables → SagaPhase × SagaTables → Prop :=
  Relation.ReflTransGen fun x y => c.advance f x.2 x.1 = some y

private theorem advance_ended (h : ph.ended = true) : c.advance f t ph = none := by
  cases ph <;> first | rfl | cases h

/-- A path has one end. -/
theorem Advances.unique {x y z : SagaPhase × SagaTables} (hy : Advances c f x y)
    (hz : Advances c f x z) (hyended : y.1.ended = true) (hzended : z.1.ended = true) :
    y = z := by
  have hstop : ∀ u v : SagaPhase × SagaTables, u.1.ended = true → Advances c f u v → u = v := by
    intro u v hu huv
    cases huv.cases_head with
    | inl heq => exact heq
    | inr hstep =>
      obtain ⟨m,hm,_⟩ := hstep
      rw [advance_ended hu] at hm
      cases hm
  have hfunctional : Relator.RightUnique
      fun x y : SagaPhase × SagaTables => c.advance f x.2 x.1 = some y := by
    intro a b b' hb hb'
    exact Option.some.inj (hb.symm.trans hb')
  rcases Relation.ReflTransGen.total_of_right_unique hfunctional hy hz with hyz | hzy
  · exact hstop y z hyended hyz
  · exact (hstop z y hzended hzy).symm

/-- What holds of a saga's point and database when it has come along a path. -/
def Underway (c : SagaCall) (f : Faults) (t : SagaTables) (p : SagaPoint) (db : SagaDb) : Prop :=
  p.call = c ∧ Advances c f (.creating,t) (p.phase,db.tables) ∧ p.phase.Present db.tables

private theorem exec_underway (c : SagaCall) (f : Faults) (t : SagaTables) :
    sagaProtocol.Keeps (SagaOp.exec f) (Underway c f t) := by
  rintro p op g db ⟨rfl,hpath,hpresent⟩ hg
  obtain ⟨g',hg',rfl⟩ := Option.map_eq_some_iff.mp hg
  obtain ⟨ph',hph',hcases⟩ := exec_advances (f := f) hg' hpresent
  refine ⟨⟨p.call,ph'⟩,?_,rfl,?_⟩
  · show (g' (op.exec f db).1).map _ = _
    rw [hph']
    rfl
  · rcases hcases with ⟨rfl,htables⟩ | ⟨_,hadvance⟩
    · rw [htables]
      exact ⟨hpath,hpresent⟩
    · exact ⟨hpath.tail hadvance,(advance_move hadvance).present hpresent⟩

/-- Run alone, a program that follows the workflow returns at the end of a path. -/
theorem eval_advances {α : Type} {done : SagaPoint → α → Prop} {program : SagaProgram α}
    (h : sagaProtocol.Follows done ⟨c,.creating⟩ program) (f : Faults) (db : SagaDb) :
    ∃ p a, (program.eval (SagaOp.exec f) db).1 = .ok a ∧ done p a ∧
      Underway c f db.tables p (program.eval (SagaOp.exec f) db).2 :=
  h.eval (exec_underway c f db.tables) ⟨rfl,.refl,nofun⟩

def OrderRow.anonymous (row : OrderRow) : OrderRow :=
  { row with publicId := "" }

/-- The tables up to the generated public ids. -/
def SagaTables.anonymous (t : SagaTables) : SagaTables :=
  { t with orders := t.orders.map OrderRow.anonymous }

private theorem hasOrder_anonymous (t : SagaTables) (i : Nat) :
    t.anonymous.hasOrder i = t.hasOrder i := by
  unfold SagaTables.hasOrder SagaTables.anonymous
  rw [List.any_map]
  rfl

def Faults.anonymous (f : Faults) : Faults := { fails := f.fails }

private theorem createOrder_anonymous (t : SagaTables) (input : OrderSagaInput) (uuid : String) :
    t.anonymous.createOrder input "" =
      (t.createOrder input uuid).map fun r => ({ r.1 with publicId := "" },r.2.anonymous) := by
  unfold SagaTables.createOrder
  split
  · rfl
  · simp only [Except.map,SagaTables.anonymous,List.map_append,List.map_cons,List.map_nil]
    rfl

private theorem addAvailable_anonymous (t : SagaTables) (itemId : Nat) (delta : Int) :
    t.anonymous.addAvailable itemId delta =
      (t.addAvailable itemId delta).map SagaTables.anonymous := by
  unfold SagaTables.addAvailable
  have hitems : t.anonymous.items = t.items := rfl
  rw [hitems]
  split <;> rfl

private theorem reserveInventory_anonymous (t : SagaTables) (i : Nat) (itemSku : String)
    (quantity : Int) : t.anonymous.reserveInventory i itemSku quantity =
      (t.reserveInventory i itemSku quantity).map fun r => (r.1,r.2.anonymous) := by
  unfold SagaTables.reserveInventory
  rw [hasOrder_anonymous]
  have hitems : t.anonymous.items = t.items := rfl
  rw [hitems]
  cases t.items.find? (·.sku == itemSku) with
  | none => rfl
  | some item =>
    simp only [addAvailable_anonymous]
    split
    · rfl
    · cases t.addAvailable item.id (-quantity) with
      | error reason => rfl
      | ok t' =>
        simp only [Except.map]
        split
        · rfl
        · split <;> rfl

private theorem capturePayment_anonymous (t : SagaTables) (i : Nat) (amountCents : Int) :
    t.anonymous.capturePayment i amountCents =
      (t.capturePayment i amountCents).map fun r => (r.1,r.2.anonymous) := by
  unfold SagaTables.capturePayment
  rw [hasOrder_anonymous]
  split
  · rfl
  · split <;> rfl

private theorem createShipment_anonymous (t : SagaTables) (i : Nat) :
    t.anonymous.createShipment i = (t.createShipment i).map fun r => (r.1,r.2.anonymous) := by
  unfold SagaTables.createShipment
  rw [hasOrder_anonymous]
  split <;> rfl

private theorem setOrderStatus_anonymous (t : SagaTables) (i : Nat) (status : OrderStatus) :
    t.anonymous.setOrderStatus i status = (t.setOrderStatus i status).anonymous := by
  simp only [SagaTables.setOrderStatus,SagaTables.anonymous,updateWhere,List.map_map]
  congr 1
  apply List.map_congr_left
  intro row _
  simp only [Function.comp_apply]
  by_cases hrow : row.id = i <;> simp [OrderRow.anonymous,OrderRow.setStatus,hrow]

private theorem releaseInventory_anonymous (t : SagaTables) (reservation : ReservationRef) :
    t.anonymous.releaseInventory reservation =
      (t.releaseInventory reservation).map fun r => (r.1,r.2.anonymous) := by
  unfold SagaTables.releaseInventory
  rw [addAvailable_anonymous]
  cases t.addAvailable reservation.itemId reservation.quantity <;> rfl

private theorem completeOrder_anonymous (t : SagaTables) (i : Nat) :
    t.anonymous.completeOrder i = (t.completeOrder i).map fun r => (r.1,r.2.anonymous) := by
  rw [SagaTables.completeOrder,setOrderStatus_anonymous]
  rfl

private theorem cancelOrder_anonymous (t : SagaTables) (i : Nat) :
    t.anonymous.cancelOrder i = (t.cancelOrder i).map fun r => (r.1,r.2.anonymous) := by
  rw [SagaTables.cancelOrder,setOrderStatus_anonymous]
  rfl

private theorem refundPayment_anonymous (t : SagaTables) (payment : PaymentRef) :
    t.anonymous.refundPayment payment =
      (t.refundPayment payment).map fun r => (r.1,r.2.anonymous) := rfl

/-- A step that commutes with forgetting the public ids, as far as the next phase sees. -/
theorem attempted_anonymous {α : Type} {runs : Bool} {work work' : Except String (α × SagaTables)}
    {t : SagaTables} (g : α → α)
    (hwork : work' = work.map fun r => (g r.1,r.2.anonymous)) (next : StepOutcome α → SagaPhase)
    (hok : ∀ a, next (.ok (g a)) = next (.ok a)) :
    (next (attempted runs work' t.anonymous).1,(attempted runs work' t.anonymous).2) =
      (next (attempted runs work t).1,(attempted runs work t).2.anonymous) := by
  subst hwork
  cases runs with
  | false => rfl
  | true =>
    cases work with
    | error reason => rfl
    | ok r =>
      show (next (.ok (g r.1)),r.2.anonymous) = _
      rw [hok]
      rfl

private theorem advance_anonymous (h : c.advance f t ph = some (ph',t')) :
    c.advance f.anonymous t.anonymous ph = some (ph',t'.anonymous) := by
  cases ph with
  | creating =>
    cases h
    exact congrArg some (attempted_anonymous (fun order => { order with publicId := "" })
      (createOrder_anonymous t c.input f.uuid) _ fun _ => rfl)
  | reserving i =>
    cases h
    exact congrArg some (attempted_anonymous id (reserveInventory_anonymous t i _ _)
      (SagaPhase.reserved i) fun _ => rfl)
  | capturing i reservation =>
    cases h
    exact congrArg some (attempted_anonymous id (capturePayment_anonymous t i _)
      (SagaPhase.captured i reservation) fun _ => rfl)
  | shipping i reservation payment =>
    cases h
    exact congrArg some (attempted_anonymous id (createShipment_anonymous t i)
      (SagaPhase.shipped i reservation payment) fun _ => rfl)
  | completing i reservation payment shipment =>
    cases h
    exact congrArg some (attempted_anonymous id (completeOrder_anonymous t i)
      (SagaPhase.afterComplete i reservation payment shipment) fun _ => rfl)
  | refunding i reservation payment =>
    cases h
    exact congrArg some (attempted_anonymous id (refundPayment_anonymous t payment)
      (SagaPhase.afterRefund i reservation payment) fun _ => rfl)
  | releasing i reservation payment =>
    cases h
    exact congrArg some (attempted_anonymous id (releaseInventory_anonymous t reservation)
      (SagaPhase.afterRelease i reservation payment) fun _ => rfl)
  | cancelling i reservation payment =>
    cases h
    exact congrArg some (attempted_anonymous id (cancelOrder_anonymous t i)
      (SagaPhase.afterCancel i reservation payment) fun _ => rfl)
  | aborted => cases h
  | completed => cases h
  | compensated => cases h

private theorem Advances.anonymous (h : Advances c f (ph,t) (ph',t')) :
    Advances c f.anonymous (ph,t.anonymous) (ph',t'.anonymous) := by
  apply Relation.ReflTransGen.lift (fun x : SagaPhase × SagaTables => (x.1,x.2.anonymous)) _
    (ph,t) (ph',t') h
  intro x y hxy
  exact advance_anonymous hxy

/-- Both mechanisms return, whatever fails, and leave the same tables. Reasons and public ids
may differ, and the fuel does not matter. -/
theorem mechanisms_agree (c : SagaCall) (fails : SagaStep → Bool)
    (reason reason' uuid uuid' : String) (fuel : Nat) (db : SagaDb) :
    let orchestrated :=
      (runOrderSaga c.input c.failAtStep).eval (SagaOp.exec ⟨fails,reason,uuid⟩) db
    let choreographed :=
      (runChoreographedOrderSaga (fuel + 7) c.input c.failAtStep).eval
        (SagaOp.exec ⟨fails,reason',uuid'⟩) db
    (∃ result, orchestrated.1 = .ok result) ∧ (∃ handle, choreographed.1 = .ok handle) ∧
      orchestrated.2.tables.anonymous = choreographed.2.tables.anonymous := by
  intro orchestrated choreographed
  obtain ⟨p,result,hresult,hreports,_,hpath,_⟩ :=
    eval_advances (runOrderSaga_follows c) ⟨fails,reason,uuid⟩ db
  obtain ⟨p',handle,hhandle,hhands,_,hpath',_⟩ :=
    eval_advances (runChoreographedOrderSaga_follows fuel c) ⟨fails,reason',uuid'⟩ db
  refine ⟨⟨result,hresult⟩,⟨handle,hhandle⟩,?_⟩
  have hended : p.phase.ended = true := by
    have hreported := hreports.2
    cases hphase : p.phase <;> rw [hphase] at hreported <;> first | rfl | cases hreported
  have hsame := hpath.anonymous.unique hpath'.anonymous hended hhands.2.1
  exact (Prod.mk.inj hsame).2

end SystemsLab.Saga
