import SystemsLab.Saga.Ledger

/-!
# Concurrent sagas

Any number of sagas of either mechanism share one database. Their transactions interleave, and
each may stop for good between two of its requests. Stock is conserved throughout, and a saga
whose last steps did not fail leaves its order completed or cancelled, with nothing in between.
-/

namespace SystemsLab.Saga

variable {c : SagaCall} {f : Faults} {t t' : SagaTables} {ph ph' : SagaPhase}

/-- The sum of `quantity` over the reservations of an item with status `reserved`. -/
def SagaTables.held (t : SagaTables) (itemId : Nat) : Int :=
  ((t.reservations.filter fun row =>
    row.itemId == itemId && row.status == .reserved).map ReservationRow.quantity).sum

def SagaTables.stock (t : SagaTables) : List (Nat × Int) :=
  t.items.map fun row => (row.id,row.availableQuantity + t.held row.id)

/-- What one reservation holds of an item. -/
def ReservationRow.holds (itemId : Nat) (row : ReservationRow) : Int :=
  if row.itemId == itemId && row.status == .reserved then row.quantity else 0

private theorem held_eq (t : SagaTables) (itemId : Nat) :
    t.held itemId = (t.reservations.map (ReservationRow.holds itemId)).sum := by
  unfold SagaTables.held
  induction t.reservations with
  | nil => rfl
  | cons row rows ih =>
    rw [List.map_cons,List.sum_cons,← ih,List.filter_cons,ReservationRow.holds]
    split
    · rw [List.map_cons,List.sum_cons]
    · rw [Int.zero_add]

theorem stock_move {itemId : Nat} {delta : Int}
    (hitems : t'.items = updateWhere (·.id == itemId) (ItemRow.add delta) t.items)
    (hheld : ∀ k, t'.held k = t.held k - if itemId = k then delta else 0) :
    t'.stock = t.stock := by
  unfold SagaTables.stock
  rw [hitems,updateWhere,List.map_map]
  apply List.map_congr_left
  intro row _
  rw [Function.comp_apply]
  by_cases hid : row.id = itemId
  · rw [if_pos (by simpa using hid)]
    show (row.id,row.availableQuantity + delta + t'.held row.id) = _
    rw [hheld,if_pos hid.symm]
    congr 1
    omega
  · rw [if_neg (by simpa using hid),hheld,if_neg (Ne.symm hid),Int.sub_zero]

private theorem SagaMove.stock (h : SagaMove c f t ph ph' t') (hwf : t.WellFormed)
    (hrec : ph.Recorded t) : t'.stock = t.stock := by
  cases h with
  | reserved i itemId =>
    apply stock_move rfl
    intro k
    rw [held_eq,held_eq,List.map_append,List.sum_append]
    simp only [List.map_cons,List.map_nil,List.sum_cons,List.sum_nil,ReservationRow.holds]
    by_cases hk : itemId = k <;> simp [hk]
  | released i reservation =>
    obtain ⟨row,_,hrow,_,hentry⟩ := (hrec i rfl).reservation_row rfl
    obtain ⟨hreservation,hstatus⟩ := Prod.mk.inj hentry
    subst hreservation
    apply stock_move rfl
    intro k
    rw [held_eq,held_eq]
    show ((updateWhere (·.id == row.id) _ t.reservations).map _).sum = _
    rw [sum_updateWhere_key _ hwf.reservationIds hrow]
    simp only [ReservationRow.holds,ReservationRow.release]
    by_cases hk : row.itemId = k <;> simp [hk,hstatus]
  | _ => rfl

/-- A phase in which no step that finishes a saga has failed. -/
def SagaPhase.Clean : SagaPhase → Prop
  | .releasing _ _ payment => ∀ p, payment = some p → p.2 = .refunded
  | .cancelling _ reservation payment =>
    (∀ r, reservation = some r → r.2 = .released) ∧ ∀ p, payment = some p → p.2 = .refunded
  | .completed _ _ _ _ status => status = .completed
  | .compensated _ reservation payment status => status = .cancelled ∧
    (∀ r, reservation = some r → r.2 = .released) ∧ ∀ p, payment = some p → p.2 = .refunded
  | _ => True

/-- What is released fits the `CHECK` on the item. -/
theorem SagaTables.Records.releasable {i : Nat} {r : OrderRecord}
    {reservation : ReservationRef} {status : ReservationStatus} (hwf : t.WellFormed)
    (h : t.Records i r) (hr : r.reservation = some (reservation,status)) :
    ¬ ∃ row ∈ t.items, row.availableQuantity + reservation.quantity < 0 := by
  rintro ⟨item,hitem,hneg⟩
  obtain ⟨row,_,hrow,_,hentry⟩ := h.reservation_row hr
  have hquantity := hwf.quantities row hrow
  have havailable := hwf.available item hitem
  cases hentry
  have : item.availableQuantity + row.quantity < 0 := hneg
  omega

private theorem SagaMove.clean (h : SagaMove c f t ph ph' t') (hwf : t.WellFormed)
    (hrec : ph.Recorded t) (hclean : ph.Clean)
    (hf : ph.finishing = true → ∀ step, f.fails step = false) : ph'.Clean := by
  cases h with
  | uncompleted _ _ _ _ hfails =>
    rw [hf rfl] at hfails
    cases hfails
  | unrefunded _ _ _ hfails =>
    rw [hf rfl] at hfails
    cases hfails
  | unreleased i reservation payment hfails =>
    exact absurd (hfails (hf rfl _)) ((hrec i rfl).releasable hwf rfl)
  | uncancelled _ _ _ hfails =>
    rw [hf rfl] at hfails
    cases hfails
  | unreserved => exact ⟨nofun,nofun⟩
  | uncaptured => exact nofun
  | refunded =>
    intro p hp
    cases hp
    rfl
  | released =>
    refine ⟨?_,hclean⟩
    intro r hr
    cases hr
    rfl
  | completed => exact rfl
  | cancelled => exact ⟨rfl,hclean.1,hclean.2⟩
  | _ => trivial

inductive SagaReturn
  | orchestrated (result : SagaResult)
  | choreographed (handle : ChoreographedSagaHandle)
  deriving DecidableEq, Repr

def SagaReturn.orderId : SagaReturn → Option Nat
  | .orchestrated result => result.orderId
  | .choreographed handle => handle.orderId

structure SagaRequest where
  mechanism : Mechanism
  call : SagaCall
  fuel : Nat := 0
  deriving DecidableEq, Repr

def SagaRequest.spawn (r : SagaRequest) : SagaProgram SagaReturn := do
  match r.mechanism with
  | .orchestration =>
    let result ← runOrderSaga r.call.input r.call.failAtStep
    return .orchestrated result
  | .choreography =>
    let handle ← runChoreographedOrderSaga (r.fuel + 7) r.call.input r.call.failAtStep
    return .choreographed handle

/-- What the database decides about one transaction. -/
structure SagaChoice where
  error : Option String := none
  uuid : String := ""
  deriving DecidableEq, Repr

def SagaChoice.faults (choice : SagaChoice) : Faults where
  fails := fun _ => choice.error.isSome
  reason := choice.error.getD ""
  uuid := choice.uuid

/-- `created` records which saga has created which order. -/
structure SagaShared where
  db : SagaDb
  created : Nat → Option Nat := fun _ => none

def SagaOp.createdOrder : (op : SagaOp) → op.Reply → Option Nat
  | .createOrder .., outcome =>
    match (outcome : StepOutcome OrderRef) with
    | .ok order => some order.id
    | .failed _ => none
  | _, _ => none

def serveSaga (n : Nat) (choice : SagaChoice) (op : SagaOp) (s : SagaShared) :
    op.Reply × SagaShared :=
  let r := op.exec choice.faults s.db
  let created :=
    match op.createdOrder r.1 with
    | some i => Function.update s.created n (some i)
    | none => s.created
  (r.1,⟨r.2,created⟩)

abbrev SagaPool := Pool Nat SagaOp SagaOp.Reply SagaException SagaReturn SagaShared

abbrev SagaEvent := PoolEvent Nat SagaChoice SagaRequest SagaException

def sagaStep : SagaPool → SagaEvent → Option SagaPool :=
  poolStep SagaRequest.spawn serveSaga

/-- No database error hits a compensation or the completion of an order. -/
def FinishersSucceed (w : SagaPool) : SagaEvent → Prop
  | .serve n choice =>
    match w.thread n with
    | some (.request op _) => op.finishes = true → choice.error = none
    | _ => True
  | _ => True

instance (w : SagaPool) (e : SagaEvent) : Decidable (FinishersSucceed w e) :=
  match e with
  | .serve n choice =>
    match h : w.thread n with
    | some (.request op _) =>
      decidable_of_iff (op.finishes = true → choice.error = none) (by simp [FinishersSucceed,h])
    | some (.pure _) => isTrue (by simp [FinishersSucceed,h])
    | some (.throw _) => isTrue (by simp [FinishersSucceed,h])
    | none => isTrue (by simp [FinishersSucceed,h])
  | .start .. => isTrue trivial
  | .crash .. => isTrue trivial

def Finished (p : SagaPoint) (a : SagaReturn) : Prop :=
  p.phase.ended = true ∧ p.phase.order = a.orderId

theorem SagaPhase.Reported.ended {outcome : SagaOutcome} {orderId : Option Nat}
    (h : ph.Reported outcome orderId) : ph.ended = true ∧ ph.order = orderId := by
  cases ph with
  | aborted => exact ⟨rfl,h.2.symm⟩
  | completed => exact ⟨rfl,h.2.symm⟩
  | compensated => exact ⟨rfl,h.2.symm⟩
  | _ => cases h

private theorem spawn_follows (r : SagaRequest) :
    sagaProtocol.Follows Finished ⟨r.call,.creating⟩ r.spawn := by
  unfold SagaRequest.spawn
  cases r.mechanism with
  | orchestration =>
    apply (runOrderSaga_follows r.call).bind
    intro p result hreports
    exact .pure hreports.2.ended
  | choreography =>
    apply (runChoreographedOrderSaga_follows r.fuel r.call).bind
    intro p handle hhands
    exact .pure ⟨hhands.2.1,hhands.2.2.1⟩

private theorem allows_created {op : SagaOp} {g : op.Reply → Option SagaPhase} {reply : op.Reply}
    (h : c.allows ph op = some g) (hph' : g reply = some ph') :
    match op.createdOrder reply with
    | some i => ph'.order = some i ∧ ph.order = none
    | none => ph'.order = ph.order := by
  unfold SagaCall.allows at h
  split at h
  · cases h
    cases hph'
    rfl
  · split at h
    · cases h
      change (if _ then some ph else none) = _ at hph'
      split at hph' <;> cases hph'
      rfl
    · cases h
  · split at h <;> cases h
    cases hph'
    change StepOutcome OrderRef at reply
    cases reply with
    | ok order => exact ⟨rfl,rfl⟩
    | failed reason => rfl
  · split at h <;> cases h
    cases hph'
    change StepOutcome ReservationRef at reply
    cases reply <;> rfl
  · split at h <;> cases h
    cases hph'
    change StepOutcome PaymentRef at reply
    cases reply <;> rfl
  · split at h <;> cases h
    cases hph'
    change StepOutcome ShipmentRef at reply
    cases reply <;> rfl
  · split at h <;> cases h
    cases hph'
    change StepOutcome Unit at reply
    cases reply <;> rfl
  · split at h <;> cases h
    cases hph'
    change StepOutcome Unit at reply
    cases reply <;> rfl
  · split at h <;> cases h
    cases hph'
    change StepOutcome Unit at reply
    cases reply <;> rfl
  · split at h <;> cases h
    cases hph'
    change StepOutcome Unit at reply
    cases reply <;> rfl
  · cases h

/-- `strict` runs are those in which no finishing step meets a database error. -/
structure SagaInv (strict : Prop) (t₀ : SagaTables) (phase : Nat → Option SagaPoint)
    (t : SagaTables) (created : Nat → Option Nat) : Prop where
  wellFormed : t.WellFormed
  stock : t.stock = t₀.stock
  items : t.items.map ItemRow.id = t₀.items.map ItemRow.id
  present : ∀ n p, phase n = some p → p.phase.Present t
  recorded : ∀ n p, phase n = some p → p.phase.Recorded t
  own : ∀ n p, phase n = some p → created n = p.phase.order
  mine : ∀ n i, created n = some i → t.hasOrder i = true
  idle : ∀ n, phase n = none → created n = none
  apart : ∀ n m i, created n = some i → created m = some i → n = m
  owned : ∀ row ∈ t.orders, row.id ∈ t₀.orders.map OrderRow.id ∨ ∃ n, created n = some row.id
  clean : strict → ∀ n p, phase n = some p → p.phase.Clean

private theorem SagaMove.items (h : SagaMove c f t ph ph' t') :
    t'.items.map ItemRow.id = t.items.map ItemRow.id := by
  have hid : ∀ (delta : Int) (row : ItemRow), (row.add delta).id = row.id := fun _ _ => rfl
  cases h with
  | reserved => exact map_updateWhere _ (hid _) _
  | released => exact map_updateWhere _ (hid _) _
  | _ => rfl

private theorem mem_setOrderStatus {i : Nat} {status : OrderStatus} {row : OrderRow}
    (h : row ∈ (t.setOrderStatus i status).orders) : ∃ old ∈ t.orders, old.id = row.id := by
  obtain ⟨old,hold,rfl⟩ := mem_updateWhere.mp h
  refine ⟨old,hold,?_⟩
  split <;> rfl

/-- The only new order is the saga's own. -/
theorem SagaMove.orders (h : SagaMove c f t ph ph' t') {row : OrderRow} (hrow : row ∈ t'.orders) :
    (∃ old ∈ t.orders, old.id = row.id) ∨ ph'.order = some row.id := by
  cases h with
  | created new =>
    rcases List.mem_append.mp hrow with hold | hnew
    · exact .inl ⟨row,hold,rfl⟩
    · rw [List.mem_singleton.mp hnew]
      exact .inr rfl
  | completed => exact .inl (mem_setOrderStatus hrow)
  | cancelled => exact .inl (mem_setOrderStatus hrow)
  | _ => exact .inl ⟨row,hrow,rfl⟩

/-- A saga that had no order either still has none or has the next one. -/
theorem SagaMove.fresh (h : SagaMove c f t ph ph' t') (hnone : ph.order = none) {i : Nat}
    (hi : ph'.order = some i) (hwf : t.WellFormed) : t.hasOrder i = false := by
  cases h with
  | created row _ _ hid =>
    cases hi
    rw [Bool.eq_false_iff]
    intro hhas
    exact Nat.ne_of_lt (hwf.lt_orderSeq hhas) hid
  | aborted => cases hi
  | _ => cases hnone

theorem SagaMove.keeps_own (h : SagaMove c f t ph ph' t') {i : Nat} (hi : ph.order = some i) :
    ph'.order = some i := by
  cases h with
  | created => cases hi
  | aborted => cases hi
  | _ => exact hi

private theorem serveSaga_created (n : Nat) (choice : SagaChoice) {op : SagaOp} {s : SagaShared}
    {g : op.Reply → Option SagaPhase} (h : c.allows ph op = some g)
    (hph' : g (op.exec choice.faults s.db).1 = some ph') (hn : s.created n = ph.order) :
    (serveSaga n choice op s).2.created = Function.update s.created n ph'.order := by
  have hcreated := allows_created h hph'
  unfold serveSaga
  cases hop : op.createdOrder (op.exec choice.faults s.db).1 with
  | none =>
    rw [hop] at hcreated
    have hsame : ph'.order = s.created n := hcreated.trans hn.symm
    show (match op.createdOrder (op.exec choice.faults s.db).1 with
      | some i => Function.update s.created n (some i)
      | none => s.created) = _
    rw [hop,hsame,Function.update_eq_self]
  | some i =>
    rw [hop] at hcreated
    show (match op.createdOrder (op.exec choice.faults s.db).1 with
      | some i => Function.update s.created n (some i)
      | none => s.created) = _
    rw [hop,hcreated.1]

theorem SagaInv.move {strict : Prop} {t₀ : SagaTables} {phase : Nat → Option SagaPoint}
    {created : Nat → Option Nat} (h : SagaInv strict t₀ phase t created) {n : Nat}
    {p : SagaPoint} (hp : phase n = some p) (hmove : SagaMove p.call f t p.phase ph' t')
    (hf : strict → p.phase.finishing = true → ∀ step, f.fails step = false) :
    SagaInv strict t₀ (Function.update phase n (some ⟨p.call,ph'⟩)) t'
      (Function.update created n ph'.order) := by
  have hwf := hmove.wellFormed h.wellFormed (h.present n p hp)
  have hpresent := hmove.present (h.present n p hp)
  have hrecorded := hmove.recorded h.wellFormed (h.recorded n p hp)
  -- what holds of all sagas, once it holds of this one and has been kept for the others
  have hall : ∀ P : Nat → SagaPoint → Prop, P n ⟨p.call,ph'⟩ →
      (∀ m q, m ≠ n → phase m = some q → P m q) →
      ∀ m q, Function.update phase n (some ⟨p.call,ph'⟩) m = some q → P m q := by
    intro P hown hkept m q hq
    by_cases hm : m = n
    · subst hm
      rw [Function.update_self] at hq
      cases hq
      exact hown
    · rw [Function.update_of_ne hm] at hq
      exact hkept m q hm hq
  have hother : ∀ m i, m ≠ n → created m = some i → p.phase.order ≠ some i := by
    intro m i hm hi horder
    exact hm (h.apart m n i hi ((h.own n p hp).trans horder))
  have hfresh : ∀ m i, m ≠ n → created m = some i → ph'.order ≠ some i := by
    intro m i hm hi horder
    cases hnone : p.phase.order with
    | none =>
      have habsent := hmove.fresh hnone horder h.wellFormed
      rw [h.mine m i hi] at habsent
      cases habsent
    | some j =>
      rw [hmove.keeps_own hnone] at horder
      exact hother m i hm hi (hnone.trans horder)
  refine ⟨hwf,?_,?_,?_,?_,?_,?_,?_,?_,?_,?_⟩
  · exact (hmove.stock h.wellFormed (h.recorded n p hp)).trans h.stock
  · exact hmove.items.trans h.items
  · refine hall (fun _ q => q.phase.Present t') hpresent ?_
    intro m q _ hq i hi
    exact hmove.keeps_order (h.present m q hq i hi)
  · refine hall (fun _ q => q.phase.Recorded t') hrecorded ?_
    intro m q hm hq i hi
    have hcreated := (h.own m q hq).trans hi
    exact hmove.records_other h.wellFormed (h.recorded n p hp) (hother m i hm hcreated)
      (h.mine m i hcreated) (h.recorded m q hq i hi)
  · refine hall (fun m q => Function.update created n ph'.order m = q.phase.order) ?_ ?_
    · exact Function.update_self ..
    · intro m q hm hq
      rw [Function.update_of_ne hm]
      exact h.own m q hq
  · intro m i hi
    by_cases hm : m = n
    · subst hm
      rw [Function.update_self] at hi
      exact hpresent i hi
    · rw [Function.update_of_ne hm] at hi
      exact hmove.keeps_order (h.mine m i hi)
  · intro m hm'
    by_cases hm : m = n
    · subst hm
      rw [Function.update_self] at hm'
      cases hm'
    · rw [Function.update_of_ne hm] at hm' ⊢
      exact h.idle m hm'
  · intro m k i hm' hk'
    by_cases hm : m = n <;> by_cases hk : k = n
    · rw [hm,hk]
    · subst hm
      rw [Function.update_self] at hm'
      rw [Function.update_of_ne hk] at hk'
      exact absurd hm' (hfresh k i hk hk')
    · subst hk
      rw [Function.update_self] at hk'
      rw [Function.update_of_ne hm] at hm'
      exact absurd hk' (hfresh m i hm hm')
    · rw [Function.update_of_ne hm] at hm'
      rw [Function.update_of_ne hk] at hk'
      exact h.apart m k i hm' hk'
  · intro row hrow
    rcases hmove.orders hrow with ⟨old,hold,hid⟩ | hnew
    · rw [← hid]
      refine (h.owned old hold).imp_right ?_
      rintro ⟨m,hm'⟩
      refine ⟨m,?_⟩
      by_cases hm : m = n
      · subst hm
        rw [Function.update_self]
        exact hmove.keeps_own ((h.own m p hp).symm.trans hm')
      · rw [Function.update_of_ne hm]
        exact hm'
    · exact .inr ⟨n,by rw [Function.update_self,hnew]⟩
  · intro hstrict
    refine hall (fun _ q => q.phase.Clean) ?_ fun m q _ hq => h.clean hstrict m q hq
    exact hmove.clean h.wellFormed (h.recorded n p hp) (h.clean hstrict n p hp) (hf hstrict)

private theorem SagaInv.serve {strict : Prop} {t₀ : SagaTables} {phase : Nat → Option SagaPoint}
    {s : SagaShared} (h : SagaInv strict t₀ phase s.db.tables s.created) {n : Nat}
    {choice : SagaChoice} {p : SagaPoint} {op : SagaOp} {g : op.Reply → Option SagaPhase}
    (hp : phase n = some p) (hg : p.call.allows p.phase op = some g)
    (hok : strict → op.finishes = true → choice.error = none) :
    ∃ ph', g (serveSaga n choice op s).1 = some ph' ∧
      SagaInv strict t₀ (Function.update phase n (some ⟨p.call,ph'⟩))
        (serveSaga n choice op s).2.db.tables (serveSaga n choice op s).2.created := by
  obtain ⟨ph',hph',hcases⟩ := exec_advances (f := choice.faults) hg (h.present n p hp)
  refine ⟨ph',hph',?_⟩
  rw [serveSaga_created n choice hg hph' (h.own n p hp)]
  show SagaInv strict t₀ _ (op.exec choice.faults s.db).2.tables _
  rcases hcases with ⟨rfl,htables⟩ | ⟨hfinishes,hadvance⟩
  · have hphase : Function.update phase n (some ⟨p.call,p.phase⟩) = phase := by
      show Function.update phase n (some p) = phase
      rw [← hp,Function.update_eq_self]
    rw [hphase,htables,← h.own n p hp,Function.update_eq_self]
    exact h
  · apply h.move hp (advance_move hadvance)
    intro hstrict hfinishing step
    show choice.error.isSome = false
    rw [hok hstrict (hfinishes.trans hfinishing)]
    rfl

/-- A saga that has just started has no order. -/
theorem SagaInv.spawn {strict : Prop} {t₀ : SagaTables} {phase : Nat → Option SagaPoint}
    {created : Nat → Option Nat} (h : SagaInv strict t₀ phase t created) {n : Nat}
    (hn : phase n = none) (c : SagaCall) :
    SagaInv strict t₀ (Function.update phase n (some ⟨c,.creating⟩)) t created := by
  have hall : ∀ P : Nat → SagaPoint → Prop, P n ⟨c,.creating⟩ →
      (∀ m q, phase m = some q → P m q) →
      ∀ m q, Function.update phase n (some ⟨c,.creating⟩) m = some q → P m q := by
    intro P hown hkept m q hq
    by_cases hm : m = n
    · subst hm
      rw [Function.update_self] at hq
      cases hq
      exact hown
    · rw [Function.update_of_ne hm] at hq
      exact hkept m q hq
  refine { h with present := ?_, recorded := ?_, own := ?_, idle := ?_, clean := ?_ }
  · exact hall (fun _ q => q.phase.Present t) nofun h.present
  · exact hall (fun _ q => q.phase.Recorded t) nofun h.recorded
  · exact hall (fun m q => created m = q.phase.order) (h.idle n hn) h.own
  · intro m hm
    apply h.idle m
    by_cases heq : m = n
    · rw [heq]
      exact hn
    · rwa [Function.update_of_ne heq] at hm
  · exact fun hstrict => hall (fun _ q => q.phase.Clean) trivial (h.clean hstrict)

/-- No saga has started, and nothing is reserved. -/
structure SagaPool.Initial (w : SagaPool) : Prop where
  threads : ∀ n, w.thread n = none
  created : ∀ n, w.shared.created n = none
  wellFormed : w.shared.db.tables.WellFormed
  released : ∀ row ∈ w.shared.db.tables.reservations, row.status = .released

def SagaPool.Invariant (strict : Prop) (t₀ : SagaTables) (w : SagaPool) : Prop :=
  ∃ phase, Pool.Conforms sagaProtocol Finished
    (fun phase s => SagaInv strict t₀ phase s.db.tables s.created) w phase

theorem SagaPool.Initial.invariant {w : SagaPool} (h : w.Initial) (strict : Prop) :
    w.Invariant strict w.shared.db.tables := by
  refine ⟨fun _ => none,?_,fun _ _ => rfl,?_⟩
  · intro n p hp
    rw [h.threads n] at hp
    cases hp
  · have hnone : ∀ (P : Nat → SagaPoint → Prop) n p, none = some p → P n p := by
      intro P n p hp
      cases hp
    refine ⟨h.wellFormed,rfl,rfl,hnone (fun _ q => q.phase.Present _),
      hnone (fun _ q => q.phase.Recorded _),hnone (fun n q => _ = q.phase.order),?_,
      fun n _ => h.created n,?_,?_,fun _ => hnone (fun _ q => q.phase.Clean)⟩
    · intro n i hi
      rw [h.created n] at hi
      cases hi
    · intro n m i hi
      rw [h.created n] at hi
      cases hi
    · exact fun row hrow => .inl (List.mem_map_of_mem hrow)

theorem SagaPool.Invariant.step {strict : Prop} {t₀ : SagaTables} {w w' : SagaPool}
    (h : w.Invariant strict t₀) {e : SagaEvent} (hok : strict → FinishersSucceed w e)
    (hstep : sagaStep w e = some w') : w'.Invariant strict t₀ := by
  obtain ⟨phase,hconforms⟩ := h
  apply hconforms.step (fun w n choice => strict → FinishersSucceed w (.serve n choice)) _ _ _ hstep
  · intro r
    exact ⟨_,spawn_follows r,fun phase s n hinv hn => hinv.spawn hn r.call⟩
  · intro w phase n choice p op next g hinv hp hthread hok hg
    obtain ⟨g',hg',rfl⟩ := Option.map_eq_some_iff.mp hg
    have hfinishers : strict → op.finishes = true → choice.error = none := by
      intro hstrict
      have := hok hstrict
      rwa [FinishersSucceed,hthread] at this
    obtain ⟨ph',hph',hinv'⟩ := hinv.serve hp hg' hfinishers
    refine ⟨⟨p.call,ph'⟩,?_,hinv'⟩
    show (g' _).map _ = _
    rw [hph']
    rfl
  · intro n choice he
    subst he
    exact hok

/-- Each item has what it had at first, less what is reserved. -/
structure SagaTables.Conserved (t₀ t : SagaTables) : Prop where
  available : ∀ row ∈ t.items, 0 ≤ row.availableQuantity
  items : t.items.map ItemRow.id = t₀.items.map ItemRow.id
  stock : ∀ row ∈ t.items, ∀ row₀ ∈ t₀.items, row.id = row₀.id →
    row.availableQuantity + t.held row.id = row₀.availableQuantity

private theorem held_eq_zero (h : ∀ row ∈ t.reservations, row.status = .released) (itemId : Nat) :
    t.held itemId = 0 := by
  unfold SagaTables.held
  rw [List.filter_eq_nil_iff.mpr]
  · rfl
  · intro row hrow
    rw [h row hrow]
    simp

private theorem SagaInv.conserved {strict : Prop} {t₀ : SagaTables} {phase : Nat → Option SagaPoint}
    {created : Nat → Option Nat} (h : SagaInv strict t₀ phase t created)
    (hids : (t₀.items.map ItemRow.id).Nodup)
    (hreleased : ∀ row ∈ t₀.reservations, row.status = .released) : t₀.Conserved t := by
  refine ⟨h.wellFormed.available,h.items,?_⟩
  intro row hrow row₀ hrow₀ hid
  have hmem : (row.id,row.availableQuantity + t.held row.id) ∈ t₀.stock := by
    rw [← h.stock]
    exact List.mem_map.mpr ⟨row,hrow,rfl⟩
  obtain ⟨row₁,hrow₁,heq⟩ := List.mem_map.mp hmem
  obtain ⟨hid₁,hsum⟩ := Prod.mk.inj heq
  have hsame : row₁ = row₀ := eq_of_key_eq hids hrow₁ hrow₀ (hid₁.trans hid)
  rw [held_eq_zero hreleased,hsame,Int.add_zero] at hsum
  exact hsum.symm

namespace SagaTables

def hasStatus (t : SagaTables) (i : Nat) (status : OrderStatus) : Prop :=
  ∃ row ∈ t.orders, row.id = i ∧ row.status = status

def captured (t : SagaTables) (i : Nat) : Nat :=
  t.payments.countP fun row => row.orderId == i && row.status == .captured

def shipped (t : SagaTables) (i : Nat) : Nat :=
  t.shipments.countP fun row => row.orderId == i

def reserved (t : SagaTables) (i : Nat) : Nat :=
  t.reservations.countP fun row => row.orderId == i && row.status == .reserved

def Completed (t : SagaTables) (i : Nat) : Prop :=
  t.hasStatus i .completed ∧ t.captured i = 1 ∧ t.shipped i = 1 ∧ t.reserved i = 1

def Cancelled (t : SagaTables) (i : Nat) : Prop :=
  t.hasStatus i .cancelled ∧ t.captured i = 0 ∧ t.shipped i = 0 ∧ t.reserved i = 0

variable {i : Nat} {r : OrderRecord}

theorem Records.hasStatus (h : t.Records i r) : t.hasStatus i r.status := by
  obtain ⟨row,hrow,hid,hstatus⟩ := h.order_row
  exact ⟨row,(mem_of_filter_eq_singleton hrow).1,hid,hstatus⟩

theorem Records.captured (h : t.Records i r) :
    t.captured i = r.payment.toList.countP (·.2 == .captured) := by
  rw [← h.payments,List.countP_map,List.countP_filter]
  apply List.countP_congr
  intro row _
  rw [Bool.and_comm]
  rfl

private theorem Records.reserved (h : t.Records i r) :
    t.reserved i = r.reservation.toList.countP (·.2 == .reserved) := by
  rw [← h.reservations,List.countP_map,List.countP_filter]
  apply List.countP_congr
  intro row _
  rw [Bool.and_comm]
  rfl

theorem Records.shipped (h : t.Records i r) : t.shipped i = r.shipment.toList.length := by
  rw [← h.shipments,List.length_map,← List.countP_eq_length_filter]
  rfl

end SagaTables

private theorem SagaPhase.Clean.settled {i : Nat} (h : ph.Clean) (hended : ph.ended = true)
    (hi : ph.order = some i) (hrec : ph.Recorded t) : t.Completed i ∨ t.Cancelled i := by
  have hrecords := hrec i hi
  have hstatus := hrecords.hasStatus
  have hcaptured := hrecords.captured
  have hshipped := hrecords.shipped
  have hreserved := hrecords.reserved
  cases ph with
  | completed j reservation payment shipment status =>
    obtain rfl : status = .completed := h
    exact .inl ⟨hstatus,hcaptured,hshipped,hreserved⟩
  | compensated j reservation payment status =>
    obtain ⟨rfl,hreleased,hrefunded⟩ := h
    refine .inr ⟨hstatus,?_,hshipped,?_⟩
    · rw [hcaptured]
      cases payment with
      | none => rfl
      | some p =>
        show [p].countP _ = 0
        simp [hrefunded p rfl]
    · rw [hreserved]
      cases reservation with
      | none => rfl
      | some r =>
        show [r].countP _ = 0
        simp [hreleased r rfl]
  | aborted => cases hi
  | _ => cases hended

/-- What a saga that has returned leaves of its order. Every order has been there before or is
the order of one saga, so a saga without an order has left no row. -/
structure SagaPool.Settled (w₀ w : SagaPool) : Prop where
  owned : ∀ row ∈ w.shared.db.tables.orders,
    row.id ∈ w₀.shared.db.tables.orders.map OrderRow.id ∨ ∃ n, w.shared.created n = some row.id
  apart : ∀ n m i, w.shared.created n = some i → w.shared.created m = some i → n = m
  returned : ∀ n a, w.thread n = some (.pure a) → w.shared.created n = a.orderId
  ended : ∀ n a i, w.thread n = some (.pure a) → a.orderId = some i →
    w.shared.db.tables.Completed i ∨ w.shared.db.tables.Cancelled i

private theorem SagaPool.Invariant.settled {w₀ w : SagaPool}
    (h : w.Invariant True w₀.shared.db.tables) : w₀.Settled w := by
  obtain ⟨phase,hconforms⟩ := h
  have hinv := hconforms.inv
  have hpoint : ∀ n a, w.thread n = some (.pure a) → ∃ p, phase n = some p ∧ Finished p a := by
    intro n a ha
    rcases hconforms.follows n _ ha with ⟨e,he⟩ | ⟨p,hp,hfollows⟩
    · cases he
    · exact ⟨p,hp,hfollows.of_pure⟩
  refine ⟨hinv.owned,hinv.apart,?_,?_⟩
  · intro n a ha
    obtain ⟨p,hp,_,horder⟩ := hpoint n a ha
    rw [hinv.own n p hp,horder]
  · intro n a i ha hi
    obtain ⟨p,hp,hended,horder⟩ := hpoint n a ha
    exact (hinv.clean trivial n p hp).settled hended (horder.trans hi) (hinv.recorded n p hp)

/-- Any number of sagas of both mechanisms, with their transactions in any order. -/
theorem sagas_safe {w₀ w : SagaPool} (hinit : w₀.Initial) :
    (Reachable sagaStep (· = w₀) w → w₀.shared.db.tables.Conserved w.shared.db.tables) ∧
      (ReachableBy sagaStep (· = w₀) FinishersSucceed w → w₀.Settled w) := by
  constructor
  · intro hreach
    have hinv : w.Invariant False w₀.shared.db.tables := by
      apply hreach.invariant
      · rintro _ rfl
        exact hinit.invariant False
      · intro s e t hs _ hstep
        exact hs.step nofun hstep
    obtain ⟨phase,hconforms⟩ := hinv
    exact hconforms.inv.conserved hinit.wellFormed.itemIds hinit.released
  · intro hreach
    have hinv : w.Invariant True w₀.shared.db.tables := by
      apply hreach.invariant
      · rintro _ rfl
        exact hinit.invariant True
      · intro s e t hs hok hstep
        exact hs.step (fun _ => hok) hstep
    exact hinv.settled

def oneShelf : SagaPool where
  shared := { db := { tables := { items := [⟨1,"SKU-1",5⟩] } } }

def orderOf (customerName : String) (quantity : Int) (failAtStep : Option StepName := none) :
    SagaCall :=
  ⟨⟨customerName,2500,"SKU-1",quantity⟩,failAtStep⟩

/-- Alice's saga completes, Bob's loses its shipment, Carol asks for too much, and Dave's stops
with a reservation. -/
def rushHour : List SagaEvent :=
  [.start 0 { mechanism := .orchestration, call := orderOf "alice" 2 },
    .start 1 { mechanism := .choreography, call := orderOf "bob" 2 (some .createShipment) },
    .start 2 { mechanism := .choreography, call := orderOf "carol" 9 },
    .start 3 { mechanism := .orchestration, call := orderOf "dave" 1 }] ++
  (List.replicate 5 [.serve 0 {},.serve 1 {},.serve 2 {}]).flatten ++
  [.serve 3 {},.serve 3 {},.crash 3 .stopped] ++
  (List.replicate 5 [.serve 1 {},.serve 2 {}]).flatten ++ List.replicate 14 (.serve 1 {})

private theorem oneShelf_initial : oneShelf.Initial := by
  constructor
  · exact fun _ => rfl
  · exact fun _ => rfl
  · constructor <;> simp [oneShelf]
  · intro row hrow
    cases hrow

theorem rushHour_safe : ∃ w, run sagaStep oneShelf rushHour = some w ∧
    oneShelf.shared.db.tables.Conserved w.shared.db.tables ∧ oneShelf.Settled w := by
  have hrun : (run sagaStep oneShelf rushHour).isSome = true := by decide +kernel
  have halong : Along sagaStep FinishersSucceed oneShelf rushHour := by decide +kernel
  obtain ⟨w,hw⟩ := Option.isSome_iff_exists.mp hrun
  have hreach : ReachableBy sagaStep (· = oneShelf) FinishersSucceed w :=
    ReachableBy.run (.start rfl) halong hw
  have hsafe := sagas_safe (w := w) oneShelf_initial
  exact ⟨w,hw,hsafe.1 (hreach.mono fun _ _ _ => trivial),hsafe.2 hreach⟩

end SystemsLab.Saga
