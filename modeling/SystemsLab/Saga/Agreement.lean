import SystemsLab.Saga.Concurrency

/-!
# What a saga result says about the database

The coordinator ignores the outcomes of its compensations and of `completeOrderStep`. Its result
is right about the committed tables exactly if none of those that it has to run fails.
-/

namespace SystemsLab.Saga

variable {c : SagaCall} {f : Faults} {t₀ t t' : SagaTables} {ph ph' : SagaPhase} {i : Nat}

/-- `t₀` are the tables before the saga. -/
def SagaResult.Agrees (result : SagaResult) (t₀ t : SagaTables) : Prop :=
  match result.outcome, result.orderId with
  | .completed, some i => t.hasStatus i .completed ∧ 0 < t.captured i ∧ 0 < t.shipped i
  | .compensated, some i =>
    t.hasStatus i .cancelled ∧
      (∀ row ∈ t.reservations, row.orderId = i → row.status = .released) ∧ t.items = t₀.items ∧
      ∀ row ∈ t.payments, row.orderId = i → row.status = .refunded
  | .aborted, _ => t.orders = t₀.orders
  | _, none => False

namespace SagaCall

/-- The forward steps that succeed, as far as inputs, tables and assigned failures decide. -/
def Created (c : SagaCall) (f : Faults) : Prop :=
  f.runs .createOrder (c.simulates .createOrder) = true ∧ 0 < c.input.amountCents

def Reserved (c : SagaCall) (f : Faults) (t₀ : SagaTables) : Prop :=
  c.Created f ∧ f.runs .reserveInventory (c.simulates .reserveInventory) = true ∧
    t₀.Reservable c.input

def Captured (c : SagaCall) (f : Faults) (t₀ : SagaTables) : Prop :=
  c.Reserved f t₀ ∧ f.runs .capturePayment (c.simulates .capturePayment) = true

def Shipped (c : SagaCall) (f : Faults) (t₀ : SagaTables) : Prop :=
  c.Captured f t₀ ∧ f.runs .createShipment (c.simulates .createShipment) = true

/-- Whichever finishing step the saga has to run does not fail. -/
structure Finishes (c : SagaCall) (f : Faults) (t₀ : SagaTables) : Prop where
  complete : c.Shipped f t₀ → f.fails .completeOrder = false
  refund : c.Captured f t₀ → ¬ c.Shipped f t₀ → f.fails .refundPayment = false
  release : c.Reserved f t₀ → ¬ c.Shipped f t₀ → f.fails .releaseInventory = false
  cancel : c.Created f → ¬ c.Shipped f t₀ → f.fails .cancelOrder = false

end SagaCall

/-- The items less what is reserved. -/
def ReservationRef.takenFrom (reservation : ReservationRef) (items : List ItemRow) :
    List ItemRow :=
  updateWhere (·.id == reservation.itemId) (ItemRow.add (-reservation.quantity)) items

private theorem ReservationRef.returned (reservation : ReservationRef) (items : List ItemRow) :
    updateWhere (·.id == reservation.itemId) (ItemRow.add reservation.quantity)
      (reservation.takenFrom items) = items := by
  unfold ReservationRef.takenFrom updateWhere
  rw [List.map_map]
  apply List.map_id''
  intro row
  rw [Function.comp_apply]
  cases row with
  | mk id sku available =>
    by_cases hid : id = reservation.itemId
    · subst hid
      have hsum : available + -reservation.quantity + reservation.quantity = available := by omega
      simp only [ItemRow.add,beq_self_eq_true,if_true,hsum]
    · simp [hid]

/-- A forward step after the creation of the order has failed. -/
structure SagaCall.Failed (c : SagaCall) (f : Faults) (t₀ : SagaTables)
    (payment : Option (PaymentRef × PaymentStatus)) : Prop where
  created : c.Created f
  unshipped : ¬ c.Shipped f t₀
  captured : c.Captured f t₀ ↔ payment.isSome = true
  refunded : ∀ p, payment = some p → (p.2 = .refunded ↔ f.fails .refundPayment = false)

/-- The release is over, if there was one. -/
structure SagaCall.Released (c : SagaCall) (f : Faults) (t₀ : SagaTables)
    (reservation : Option (ReservationRef × ReservationStatus)) (t : SagaTables) : Prop where
  reserved : c.Reserved f t₀ ↔ reservation.isSome = true
  released : ∀ r, reservation = some r → (r.2 = .released ↔ f.fails .releaseInventory = false)
  returned : (∀ r, reservation = some r → r.2 = .released) → t.items = t₀.items

/-- What a phase tells about the steps that have been attempted. -/
def SagaPhase.Reached (c : SagaCall) (f : Faults) (t₀ : SagaTables) :
    SagaPhase → SagaTables → Prop
  | .creating, t => t = t₀
  | .aborted, t => ¬ c.Created f ∧ t = t₀
  | .reserving _, t => c.Created f ∧ t.items = t₀.items
  | .capturing _ reservation, t =>
    c.Reserved f t₀ ∧ t.items = reservation.takenFrom t₀.items
  | .shipping _ reservation _, t =>
    c.Captured f t₀ ∧ t.items = reservation.takenFrom t₀.items
  | .completing .., _ => c.Shipped f t₀
  | .refunding _ reservation _, t =>
    c.Captured f t₀ ∧ ¬ c.Shipped f t₀ ∧ t.items = reservation.takenFrom t₀.items
  | .releasing _ reservation payment, t =>
    c.Reserved f t₀ ∧ c.Failed f t₀ payment ∧ t.items = reservation.takenFrom t₀.items
  | .cancelling _ reservation payment, t =>
    c.Failed f t₀ payment ∧ c.Released f t₀ reservation t
  | .completed _ _ _ _ status, _ =>
    c.Shipped f t₀ ∧ (status = .completed ↔ f.fails .completeOrder = false)
  | .compensated _ reservation payment status, t =>
    c.Failed f t₀ payment ∧ c.Released f t₀ reservation t ∧
      (status = .cancelled ↔ f.fails .cancelOrder = false)

theorem SagaTables.reservable_congr {input : OrderSagaInput} (h : t.items = t₀.items) :
    t.Reservable input ↔ t₀.Reservable input := by
  unfold SagaTables.Reservable
  rw [h]

private theorem SagaMove.reached (h : SagaMove c f t ph ph' t') (hwf : t.WellFormed)
    (hpresent : ph.Present t) (hrec : ph.Recorded t) (hreached : ph.Reached c f t₀ t) :
    ph'.Reached c f t₀ t' := by
  cases h with
  | created row hruns hamount =>
    obtain rfl : t = t₀ := hreached
    exact ⟨⟨hruns,hamount⟩,rfl⟩
  | aborted hfails =>
    refine ⟨?_,hreached⟩
    intro hcreated
    have := hfails hcreated.1
    have := hcreated.2
    omega
  | reserved i itemId hruns hreservable =>
    obtain ⟨hcreated,hitems⟩ := hreached
    refine ⟨⟨hcreated,hruns,(SagaTables.reservable_congr hitems).mp hreservable⟩,?_⟩
    show updateWhere _ _ t.items = _
    rw [hitems]
    rfl
  | unreserved i hfails =>
    obtain ⟨hcreated,hitems⟩ := hreached
    have hunreserved : ¬ c.Reserved f t₀ := by
      intro hreserved
      apply hfails hreserved.2.1 (hpresent i rfl)
      exact (SagaTables.reservable_congr hitems).mpr hreserved.2.2
    constructor
    · refine ⟨hcreated,fun hshipped => hunreserved hshipped.1.1,?_,nofun⟩
      exact iff_of_false (fun hcaptured => hunreserved hcaptured.1) Bool.false_ne_true
    · exact ⟨iff_of_false hunreserved Bool.false_ne_true,nofun,fun _ => hitems⟩
  | captured i reservation hruns => exact ⟨⟨hreached.1,hruns⟩,hreached.2⟩
  | uncaptured i reservation hfails =>
    obtain ⟨hreserved,hitems⟩ := hreached
    have huncaptured : ¬ c.Captured f t₀ := by
      intro hcaptured
      have := hfails hcaptured.2 (hpresent i rfl)
      have := hreserved.1.2
      omega
    refine ⟨hreserved,⟨hreserved.1,fun hshipped => huncaptured hshipped.1,?_,nofun⟩,hitems⟩
    exact iff_of_false huncaptured Bool.false_ne_true
  | shipped i reservation payment hruns => exact ⟨hreached.1,hruns⟩
  | unshipped i reservation payment hfails =>
    obtain ⟨hcaptured,hitems⟩ := hreached
    refine ⟨hcaptured,?_,hitems⟩
    intro hshipped
    have habsent := hfails hshipped.2
    rw [hpresent i rfl] at habsent
    cases habsent
  | completed i reservation payment shipment hf => exact ⟨hreached,iff_of_true rfl hf⟩
  | uncompleted i reservation payment shipment hf => exact ⟨hreached,by simp [hf]⟩
  | refunded i reservation payment hf =>
    obtain ⟨hcaptured,hunshipped,hitems⟩ := hreached
    refine ⟨hcaptured.1,⟨hcaptured.1.1,hunshipped,iff_of_true hcaptured rfl,?_⟩,hitems⟩
    intro p hp
    cases hp
    exact iff_of_true rfl hf
  | unrefunded i reservation payment hf =>
    obtain ⟨hcaptured,hunshipped,hitems⟩ := hreached
    refine ⟨hcaptured.1,⟨hcaptured.1.1,hunshipped,iff_of_true hcaptured rfl,?_⟩,hitems⟩
    intro p hp
    cases hp
    simp [hf]
  | released i reservation payment hf =>
    obtain ⟨hreserved,hfailed,hitems⟩ := hreached
    refine ⟨hfailed,⟨iff_of_true hreserved rfl,?_,?_⟩⟩
    · intro r hr
      cases hr
      exact iff_of_true rfl hf
    · intro _
      show updateWhere _ _ t.items = _
      rw [hitems,reservation.returned]
  | unreleased i reservation payment hfails =>
    obtain ⟨hreserved,hfailed,hitems⟩ := hreached
    have hf : f.fails .releaseInventory = true := by
      by_contra hf
      exact (hrec i rfl).releasable hwf rfl (hfails (by simpa using hf))
    refine ⟨hfailed,⟨iff_of_true hreserved rfl,?_,?_⟩⟩
    · intro r hr
      cases hr
      simp [hf]
    · intro hreleased
      cases hreleased _ rfl
  | cancelled i reservation payment hf =>
    exact ⟨hreached.1,⟨hreached.2.1,hreached.2.2,hreached.2.3⟩,iff_of_true rfl hf⟩
  | uncancelled i reservation payment hf => exact ⟨hreached.1,hreached.2,by simp [hf]⟩

private theorem Advances.reached (hwf : t₀.WellFormed) {x : SagaPhase × SagaTables}
    (h : Advances c f (.creating,t₀) x) :
    x.1.Present x.2 ∧ x.2.WellFormed ∧ x.1.Recorded x.2 ∧ x.1.Reached c f t₀ x.2 := by
  induction h with
  | refl => exact ⟨nofun,hwf,nofun,rfl⟩
  | tail _ hadvance ih =>
    obtain ⟨hpresent,hwf,hrec,hreached⟩ := ih
    have hmove := advance_move hadvance
    exact ⟨hmove.present hpresent,hmove.wellFormed hwf hpresent,hmove.recorded hwf hrec,
      hmove.reached hwf hpresent hrec hreached⟩

namespace SagaTables.Records

variable {r : OrderRecord}

theorem hasStatus_iff (h : t.Records i r) {status : OrderStatus} :
    t.hasStatus i status ↔ r.status = status := by
  constructor
  · rintro ⟨row,hrow,hid,rfl⟩
    have hmem : row.status ∈ (t.orders.filter (·.id == i)).map OrderRow.status :=
      List.mem_map_of_mem (List.mem_filter.mpr ⟨hrow,by simpa using hid⟩)
    rw [h.order,List.mem_singleton] at hmem
    exact hmem.symm
  · rintro rfl
    exact h.hasStatus

theorem forall_rows_iff {ρ κ σ : Type} {rows : List ρ} {owner : ρ → Nat} {entry : ρ → κ × σ}
    {o : Option (κ × σ)} (h : (rows.filter (owner · == i)).map entry = o.toList) {status : σ} :
    (∀ row ∈ rows, owner row = i → (entry row).2 = status) ↔ ∀ e, o = some e → e.2 = status := by
  have hmem : ∀ e, o = some e ↔ ∃ row ∈ rows, owner row = i ∧ entry row = e := by
    intro e
    rw [← Option.mem_toList,← h]
    simp [and_assoc]
  constructor
  · intro hrows e he
    obtain ⟨row,hrow,hid,rfl⟩ := (hmem e).mp he
    exact hrows row hrow hid
  · intro hentries row hrow hid
    exact hentries (entry row) ((hmem _).mpr ⟨row,hrow,hid,rfl⟩)

theorem reservations_iff (h : t.Records i r) {status : ReservationStatus} :
    (∀ row ∈ t.reservations, row.orderId = i → row.status = status) ↔
      ∀ e, r.reservation = some e → e.2 = status :=
  forall_rows_iff h.reservations

theorem payments_iff (h : t.Records i r) {status : PaymentStatus} :
    (∀ row ∈ t.payments, row.orderId = i → row.status = status) ↔
      ∀ e, r.payment = some e → e.2 = status :=
  forall_rows_iff h.payments

end SagaTables.Records

/-- Reported results agree with the tables where the saga has ended without a failed finishing
step. -/
theorem SagaPhase.Reported.agrees_iff {result : SagaResult}
    (h : ph.Reported result.outcome result.orderId) (hrec : ph.Recorded t)
    (hreached : ph.Reached c f t₀ t) : result.Agrees t₀ t ↔ ph.Clean := by
  unfold SagaResult.Agrees
  cases ph with
  | aborted =>
    rw [h.1]
    exact iff_of_true (congrArg SagaTables.orders hreached.2) trivial
  | completed j reservation payment shipment status =>
    have hrecords := hrec j rfl
    rw [h.1,h.2]
    have hcaptured : t.captured j = 1 := hrecords.captured
    have hshipped : t.shipped j = 1 := hrecords.shipped
    show t.hasStatus j .completed ∧ 0 < t.captured j ∧ 0 < t.shipped j ↔ _
    rw [hrecords.hasStatus_iff,hcaptured,hshipped]
    simp [SagaPhase.record,SagaPhase.Clean]
  | compensated j reservation payment status =>
    have hrecords := hrec j rfl
    rw [h.1,h.2]
    show t.hasStatus j .cancelled ∧ _ ∧ t.items = t₀.items ∧ _ ↔ _
    rw [hrecords.hasStatus_iff,hrecords.reservations_iff,hrecords.payments_iff]
    constructor
    · rintro ⟨hstatus,hreleased,_,hrefunded⟩
      exact ⟨hstatus,hreleased,hrefunded⟩
    · rintro ⟨hstatus,hreleased,hrefunded⟩
      exact ⟨hstatus,hreleased,hreached.2.1.returned hreleased,hrefunded⟩
  | _ => cases h

theorem SagaPhase.Reached.clean_iff (h : ph.Reached c f t₀ t) (hended : ph.ended = true) :
    ph.Clean ↔ c.Finishes f t₀ := by
  cases ph with
  | aborted =>
    refine iff_of_true trivial ⟨?_,?_,?_,?_⟩
    · exact fun hshipped => absurd hshipped.1.1.1 h.1
    · exact fun hcaptured _ => absurd hcaptured.1.1 h.1
    · exact fun hreserved _ => absurd hreserved.1 h.1
    · exact fun hcreated _ => absurd hcreated h.1
  | completed j reservation payment shipment status =>
    obtain ⟨hshipped,hstatus⟩ := h
    show status = .completed ↔ _
    rw [hstatus]
    constructor
    · exact fun hf => ⟨fun _ => hf,fun _ hnot => absurd hshipped hnot,
        fun _ hnot => absurd hshipped hnot,fun _ hnot => absurd hshipped hnot⟩
    · exact fun hfinishes => hfinishes.complete hshipped
  | compensated j reservation payment status =>
    obtain ⟨hfailed,hreleased,hstatus⟩ := h
    constructor
    · rintro ⟨rfl,hall,hrefunded⟩
      refine ⟨fun hshipped => absurd hshipped hfailed.unshipped,?_,?_,fun _ _ => hstatus.mp rfl⟩
      · intro hcaptured _
        obtain ⟨p,hp⟩ := Option.isSome_iff_exists.mp (hfailed.captured.mp hcaptured)
        exact (hfailed.refunded p hp).mp (hrefunded p hp)
      · intro hreserved _
        obtain ⟨r,hr⟩ := Option.isSome_iff_exists.mp (hreleased.reserved.mp hreserved)
        exact (hreleased.released r hr).mp (hall r hr)
    · intro hfinishes
      refine ⟨hstatus.mpr (hfinishes.cancel hfailed.created hfailed.unshipped),?_,?_⟩
      · intro r hr
        have hreserved := hreleased.reserved.mpr (by rw [hr]; rfl)
        exact (hreleased.released r hr).mpr (hfinishes.release hreserved hfailed.unshipped)
      · intro p hp
        have hcaptured := hfailed.captured.mpr (by rw [hp]; rfl)
        exact (hfailed.refunded p hp).mpr (hfinishes.refund hcaptured hfailed.unshipped)
  | _ => cases hended

/-- The coordinator returns, and its result agrees with the committed tables exactly if the
finishing steps that it has to run succeed. -/
theorem runOrderSaga_agrees_iff (c : SagaCall) (f : Faults) (db : SagaDb)
    (hwf : db.tables.WellFormed) :
    let r := (runOrderSaga c.input c.failAtStep).eval (SagaOp.exec f) db
    ∃ result, r.1 = .ok result ∧
      (result.Agrees db.tables r.2.tables ↔ c.Finishes f db.tables) := by
  intro r
  obtain ⟨p,result,hresult,hreports,_,hpath,_⟩ := eval_advances (runOrderSaga_follows c) f db
  obtain ⟨_,_,hrec,hreached⟩ := hpath.reached hwf
  refine ⟨result,hresult,?_⟩
  rw [hreports.2.agrees_iff hrec hreached]
  exact hreached.clean_iff hreports.2.ended.1

def fiveOnTheShelf : SagaDb := { tables := { items := [⟨1,"SKU-1",5⟩] } }

/-- The shipment is made to fail, and then the refund meets a database error. -/
def lostShipment : SagaCall := orderOf "bob" 2 (some .createShipment)

def refundFails : Faults := { fails := fun step => step == .refundPayment }

private theorem fiveOnTheShelf_wellFormed : fiveOnTheShelf.tables.WellFormed := by
  constructor <;> simp [fiveOnTheShelf]

theorem lostShipment_agrees_iff :
    let r := (runOrderSaga lostShipment.input lostShipment.failAtStep).eval
      (SagaOp.exec refundFails) fiveOnTheShelf
    ∃ result, r.1 = .ok result ∧ (result.Agrees fiveOnTheShelf.tables r.2.tables ↔
      lostShipment.Finishes refundFails fiveOnTheShelf.tables) :=
  runOrderSaga_agrees_iff lostShipment refundFails fiveOnTheShelf fiveOnTheShelf_wellFormed

/-- The saga reports that it has compensated, and the payment is still captured. -/
theorem lostShipment_disagrees :
    let r := (runOrderSaga lostShipment.input lostShipment.failAtStep).eval
      (SagaOp.exec refundFails) fiveOnTheShelf
    ∃ result, r.1 = .ok result ∧ ¬ result.Agrees fiveOnTheShelf.tables r.2.tables := by
  intro r
  have hpaid : ⟨1,1,2500,.captured⟩ ∈ r.2.tables.payments := by decide +kernel
  refine ⟨_,rfl,?_⟩
  intro hagrees
  cases hagrees.2.2.2 _ hpaid rfl

end SystemsLab.Saga
