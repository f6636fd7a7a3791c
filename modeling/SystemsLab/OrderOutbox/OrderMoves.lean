import SystemsLab.OrderOutbox.Orders

/-!
# What a step may do

Most steps only take their call on. The others use up an id, insert an order, commit an order with
its event, hand an event to the broker, mark it, or read what is to be drained.
-/

namespace SystemsLab.OrderOutbox

/-- A step of a call that leaves the tables and the broker as they are. -/
inductive OrderCall.Quiet : OrderCall → OrderCall → Prop
  | begun (opts : TransactionalOutboxOptions) :
      Quiet (.transactional opts .connecting) (.transactional opts .beginning)
  | entered (opts : TransactionalOutboxOptions) (now : Int) :
      Quiet (.transactional opts .beginning) (.transactional opts (.insertingOrder now))
  | failed (opts : TransactionalOutboxOptions) (phase : TransactionalPhase) (reason : String) :
      (OrderCall.transactional opts phase).hasEnded = false →
      Quiet (.transactional opts phase) (.transactional opts (.rollingBack reason))
  | rolledBack (opts : TransactionalOutboxOptions) (reason : String) :
      Quiet (.transactional opts (.rollingBack reason))
        (.transactional opts (.returned (.notCommitted reason)))
  | refused (opts : NaiveOptions) (orderId : Nat) (brokerError : String) :
      publishToBroker (opts.orderEvent orderId) .always = .error brokerError →
      Quiet (.orderThenPublish opts (.publishing orderId))
        (.orderThenPublish opts (.returned ⟨orderId,false,some brokerError⟩))
  | notInserted (opts : NaiveOptions) (code : Option String) (reason : String) :
      Quiet (.publishThenOrder opts .insertingOrder)
        (.publishThenOrder opts (.returned (.orderNotCommitted code reason)))
  | passed (limit : Nat) (phase : DrainPhase) (result : DrainOutboxResult) (row : OutboxEventRow)
      (rest : List OutboxEventRow) :
      phase = .publishing result row rest ∨ phase = .marking result row rest →
      Quiet (.drain limit phase)
        (.drain limit (.next { result with failedIds := result.failedIds ++ [row.id] } rest))
  | threw (c : OrderCall) : c.hasEnded = false → Quiet c c.threw

inductive OrdersMove (w : OrdersWorld) : OrdersWorld → Prop
  | skipped (ms orderIds eventIds : Nat) :
      OrdersMove w { w with
        clock := w.clock + ms
        orderSeq := w.orderSeq + orderIds
        eventSeq := w.eventSeq + eventIds }
  | started (n : Nat) (request : OrderRequest) : w.call n = none →
      OrdersMove w (w.put n request.call)
  | stepped (n : Nat) (c c' : OrderCall) : w.call n = some c → c.Quiet c' →
      OrdersMove w (w.put n c')
  | insertedOrder (n : Nat) (opts : TransactionalOutboxOptions) (now : Int) :
      w.call n = some (.transactional opts (.insertingOrder now)) →
      (opts.order w.orderSeq).valid = true →
      OrdersMove w { w.put n (.transactional opts (.insertingEvent now (opts.order w.orderSeq))) with
        orderSeq := w.orderSeq + 1 }
  | insertedEvent (n : Nat) (opts : TransactionalOutboxOptions) (now : Int) (order : OrderRow) :
      w.call n = some (.transactional opts (.insertingEvent now order)) →
      (opts.event w.eventSeq order.id now).valid = true →
      OrdersMove w { w.put n (.transactional opts
          (.committing order (opts.event w.eventSeq order.id now))) with
        eventSeq := w.eventSeq + 1 }
  | committed (n : Nat) (opts : TransactionalOutboxOptions) (order : OrderRow)
      (event : OutboxEventRow) (phase : TransactionalPhase) :
      w.call n = some (.transactional opts (.committing order event)) →
      phase = .returned (.committed order.id event.id) ∨ phase = .threw →
      OrdersMove w (w.commit n order event (.transactional opts phase))
  | inserted (n : Nat) (opts : NaiveOptions) (phase : OrderThenPublishPhase) :
      w.call n = some (.orderThenPublish opts .insertingOrder) →
      phase = .publishing w.orderSeq ∨ phase = .threw →
      (opts.order w.orderSeq opts.amountCents).valid = true →
      OrdersMove w { w.put n (.orderThenPublish opts phase) with
        orders := w.orders ++ [opts.order w.orderSeq opts.amountCents]
        orderSeq := w.orderSeq + 1
        created := w.created ++ [(n,w.orderSeq)] }
  | announced (n : Nat) (opts : NaiveOptions) :
      w.call n = some (.publishThenOrder opts .publishing) →
      OrdersMove w (w.deliver n opts.customerEvent (.publishThenOrder opts .insertingOrder))
  | selected (n limit : Nat) (ordered : List OutboxEventRow) :
      w.call n = some (.drain limit .selecting) →
      ordered.Perm (w.outboxEvents.filter (·.publishedAt.isNone)) →
      ordered.Pairwise (fun r q => r.createdAt ≤ q.createdAt) →
      OrdersMove w { w.put n
          (.drain limit (.next ⟨(ordered.take limit).length,[],[]⟩ (ordered.take limit))) with
        selected := w.selected ++ (ordered.take limit).map fun row => (n,row.id) }
  | delivered (n limit : Nat) (result : DrainOutboxResult) (row : OutboxEventRow)
      (rest : List OutboxEventRow) (phase : DrainPhase) :
      w.call n = some (.drain limit (.publishing result row rest)) →
      phase = .marking result row rest ∨
        phase = .next { result with failedIds := result.failedIds ++ [row.id] } rest →
      OrdersMove w (w.deliver n row.brokerEvent (.drain limit phase))
  | marked (n limit : Nat) (result result' : DrainOutboxResult) (row : OutboxEventRow)
      (rest : List OutboxEventRow) :
      w.call n = some (.drain limit (.marking result row rest)) →
      result' = { result with publishedIds := result.publishedIds ++ [row.id] } ∨
        result' = { result with failedIds := result.failedIds ++ [row.id] } →
      OrdersMove w (w.markPublished n row.id (.drain limit (.next result' rest)))

variable {w w' : OrdersWorld} {n : Nat}

private theorem customerOrder_invalid (opts : NaiveOptions) (id : Nat) :
    (opts.order id (-opts.amountCents.natAbs)).valid = false := by
  simp [OrderRow.valid,NaiveOptions.order]

private theorem insertOrder_some {order : OrderRow} {c : OrderCall}
    (h : w.insertOrder n order c = some w') : order.valid = true ∧
      w' = { w.put n c with
        orders := w.orders ++ [order]
        orderSeq := w.orderSeq + 1
        created := w.created ++ [(n,order.id)] } := by
  unfold OrdersWorld.insertOrder at h
  split at h
  · rename_i hvalid
    exact ⟨hvalid,(Option.some.inj h).symm⟩
  · cases h

private theorem insertOrder_invalid {order : OrderRow} (c : OrderCall)
    (horder : order.valid = false) :
    w.insertOrder n order c = none := by
  rw [OrdersWorld.insertOrder,if_neg]
  rw [horder]
  nofun

theorem performTransactionalOrderCreation_move {opts : TransactionalOutboxOptions}
    {phase : TransactionalPhase} (hc : w.call n = some (.transactional opts phase))
    (h : w.performTransactionalOrderCreation n opts phase = some w') : OrdersMove w w' := by
  unfold OrdersWorld.performTransactionalOrderCreation at h
  cases phase with
  | connecting =>
    cases h
    exact .stepped n _ _ hc (.begun opts)
  | beginning =>
    cases h
    exact .stepped n _ _ hc (.entered opts _)
  | insertingOrder now =>
    dsimp only at h
    split at h
    · rename_i hvalid
      cases h
      exact .insertedOrder n opts now hc hvalid
    · cases h
  | insertingEvent now order =>
    dsimp only at h
    split at h
    · rename_i hvalid
      cases h
      exact .insertedEvent n opts now order hc hvalid
    · cases h
  | committing order event =>
    cases h
    exact .committed n opts order event _ hc (.inl rfl)
  | rollingBack reason =>
    cases h
    exact .stepped n _ _ hc (.rolledBack opts reason)
  | returned result => cases h
  | threw => cases h

theorem query_move {c : OrderCall} (hc : w.call n = some c) (h : w.query n c = some w') :
    OrdersMove w w' := by
  cases c with
  | transactional opts phase => exact performTransactionalOrderCreation_move hc h
  | orderThenPublish opts phase =>
    simp only [OrdersWorld.query,OrdersWorld.performNaiveOrderThenBrokerPublish] at h
    cases phase with
    | insertingOrder =>
      obtain ⟨hvalid,rfl⟩ := insertOrder_some h
      exact .inserted n opts _ hc (.inl rfl) hvalid
    | publishing orderId =>
      simp only [publishToBroker] at h
      cases h
      exact .stepped n _ _ hc (.refused opts orderId _ rfl)
    | returned result => cases h
    | threw => cases h
  | publishThenOrder opts phase =>
    simp only [OrdersWorld.query,OrdersWorld.performNaiveBrokerPublishThenOrder] at h
    cases phase with
    | publishing =>
      simp only [publishToBroker] at h
      cases h
      exact .announced n opts hc
    | insertingOrder =>
      rw [insertOrder_invalid _ (customerOrder_invalid opts _)] at h
      cases h
    | returned result => cases h
    | threw => cases h
  | drain limit phase =>
    simp only [OrdersWorld.query,OrdersWorld.drainOutbox] at h
    cases phase with
    | publishing result row rest =>
      cases h
      exact .delivered n limit result row rest _ hc (.inl rfl)
    | marking result row rest =>
      cases h
      exact .marked n limit result _ row rest hc (.inl rfl)
    | selecting => cases h
    | returned result => cases h
    | threw => cases h

theorem failRequest_move {c : OrderCall} {code : Option String} {reason : String}
    (hc : w.call n = some c) (h : w.failRequest n code reason c = some w') : OrdersMove w w' := by
  cases c with
  | transactional opts phase =>
    simp only [OrdersWorld.failRequest] at h
    cases phase with
    | connecting =>
      cases h
      exact .stepped n _ _ hc (.threw _ rfl)
    | rollingBack reason =>
      cases h
      exact .stepped n _ _ hc (.threw _ rfl)
    | returned result => cases h
    | threw => cases h
    | _ =>
      cases h
      exact .stepped n _ _ hc (.failed opts _ reason rfl)
  | orderThenPublish opts phase =>
    cases phase <;> cases h
    exact .stepped n _ _ hc (.threw _ rfl)
  | publishThenOrder opts phase =>
    cases phase <;> cases h
    exact .stepped n _ _ hc (.notInserted opts code reason)
  | drain limit phase =>
    cases phase with
    | selecting =>
      cases h
      exact .stepped n _ _ hc (.threw _ rfl)
    | publishing result row rest =>
      cases h
      exact .stepped n _ _ hc (.passed limit _ result row rest (.inl rfl))
    | marking result row rest =>
      cases h
      exact .stepped n _ _ hc (.passed limit _ result row rest (.inr rfl))
    | returned result => cases h
    | threw => cases h

theorem loseReply_move {c : OrderCall} {code : Option String} {reason : String}
    (hc : w.call n = some c) (h : w.loseReply n code reason c = some w') : OrdersMove w w' := by
  cases c with
  | transactional opts phase =>
    cases phase <;> cases h
    exact .committed n opts _ _ _ hc (.inr rfl)
  | orderThenPublish opts phase =>
    simp only [OrdersWorld.loseReply] at h
    cases phase with
    | insertingOrder =>
      obtain ⟨hvalid,rfl⟩ := insertOrder_some h
      exact .inserted n opts _ hc (.inr rfl) hvalid
    | _ => cases h
  | publishThenOrder opts phase =>
    simp only [OrdersWorld.loseReply] at h
    cases phase with
    | insertingOrder =>
      rw [insertOrder_invalid _ (customerOrder_invalid opts _)] at h
      cases h
    | _ => cases h
  | drain limit phase =>
    cases phase with
    | publishing result row rest =>
      cases h
      exact .delivered n limit result row rest _ hc (.inr rfl)
    | marking result row rest =>
      cases h
      exact .marked n limit result _ row rest hc (.inr rfl)
    | selecting => cases h
    | returned result => cases h
    | threw => cases h

theorem ordersStep_move {e : OrdersEvent} (h : ordersStep w e = some w') : OrdersMove w w' := by
  cases e with
  | start n request =>
    simp only [ordersStep] at h
    split at h
    · cases h
    · rename_i hnone
      cases h
      exact .started n request hnone
  | query n =>
    simp only [ordersStep] at h
    split at h
    · rename_i c hc
      exact query_move hc h
    · cases h
  | select n ordered =>
    simp only [ordersStep] at h
    split at h
    · rename_i limit hc
      unfold OrdersWorld.selectUnpublished at h
      split at h
      · rename_i hordered
        cases h
        exact .selected n limit ordered hc hordered.1 hordered.2
      · cases h
    · cases h
  | fail n code reason =>
    simp only [ordersStep] at h
    split at h
    · rename_i c hc
      exact failRequest_move hc h
    · cases h
  | loseReply n code reason =>
    simp only [ordersStep] at h
    split at h
    · rename_i c hc
      exact loseReply_move hc h
    · cases h
  | crash n =>
    simp only [ordersStep] at h
    split at h
    · rename_i c hc
      split at h
      · cases h
      · rename_i hrunning
        cases h
        exact .stepped n _ _ hc (.threw c (by simpa using hrunning))
    · cases h
  | advance ms =>
    cases h
    exact .skipped ms 0 0
  | skip orderIds eventIds =>
    cases h
    have hmove := OrdersMove.skipped (w := w) 0 orderIds eventIds
    rwa [Int.natCast_zero,Int.add_zero] at hmove

end SystemsLab.OrderOutbox
