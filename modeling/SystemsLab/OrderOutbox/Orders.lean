import SystemsLab.Framework.OrderedSelect
import SystemsLab.Framework.Transition

/-!
# Orders and their outbox events

`performTransactionalOrderCreation` inserts an order and its outbox event in one transaction; the
two naive dual writes insert an order and call the broker one after the other. `drainOutbox` reads
the events that are not published, hands each to the broker and marks it. A step is one statement
or one call to the broker, and each of them may fail.
-/

namespace SystemsLab.OrderOutbox

inductive EventPayload
  | ofOrder (orderId : Nat) (amountCents : Int)
  | ofCustomer (customerName : String) (amountCents : Int)
  deriving DecidableEq, Repr

structure BrokerEvent where
  eventType : String
  aggregateType : String
  aggregateId : Nat
  payload : EventPayload
  deriving DecidableEq, Repr

inductive BrokerFailureMode
  | always
  | never
  deriving DecidableEq, Repr

def publishToBroker (event : BrokerEvent) : BrokerFailureMode → Except String Unit
  | .always => .error ("simulated broker publish failure for " ++
      s!"{event.aggregateType}:{event.aggregateId} ({event.eventType})")
  | .never => .ok ()

structure OrderRow where
  id : Nat
  customerName : String
  amountCents : Int
  deriving DecidableEq, Repr

structure OutboxEventRow where
  id : Nat
  aggregateType : String
  aggregateId : Nat
  eventType : String
  payload : EventPayload
  createdAt : Int
  publishedAt : Option Int := none
  deriving DecidableEq, Repr

/-- The check on `orders`, and the range of an `integer`. -/
def OrderRow.valid (order : OrderRow) : Bool :=
  decide (0 < order.amountCents) && decide (order.amountCents ≤ maxInteger)

/-- The checks on `outbox_events`. -/
def OutboxEventRow.valid (event : OutboxEventRow) : Bool :=
  event.aggregateType == "order" && event.eventType == "OrderCreated"

def OutboxEventRow.brokerEvent (event : OutboxEventRow) : BrokerEvent where
  eventType := event.eventType
  aggregateType := event.aggregateType
  aggregateId := event.aggregateId
  payload := event.payload

structure TransactionalOutboxOptions where
  customerName : String
  amountCents : Int
  injectOutboxInsertFailure : Bool
  deriving DecidableEq, Repr

inductive TransactionalOutboxResult
  | committed (orderId outboxEventId : Nat)
  | notCommitted (reason : String)
  deriving DecidableEq, Repr

/-- The options of both naive dual writes. -/
structure NaiveOptions where
  customerName : String
  amountCents : Int
  deriving DecidableEq, Repr

structure NaiveBrokerFailsResult where
  orderId : Nat
  brokerPublished : Bool
  brokerError : Option String := none
  deriving DecidableEq, Repr

inductive NaiveDbFailsResult
  | orderCommitted (orderId : Nat)
  | orderNotCommitted (dbErrorCode : Option String) (dbErrorMessage : String)
  deriving DecidableEq, Repr

structure DrainOutboxResult where
  attempted : Nat
  publishedIds : List Nat := []
  failedIds : List Nat := []
  deriving DecidableEq, Repr

/-- What `performTransactionalOrderCreation` does next. `now` is the start of its transaction. -/
inductive TransactionalPhase
  | connecting
  | beginning
  | insertingOrder (now : Int)
  | insertingEvent (now : Int) (order : OrderRow)
  | committing (order : OrderRow) (event : OutboxEventRow)
  | rollingBack (reason : String)
  | returned (result : TransactionalOutboxResult)
  | threw
  deriving DecidableEq, Repr

inductive OrderThenPublishPhase
  | insertingOrder
  | publishing (orderId : Nat)
  | returned (result : NaiveBrokerFailsResult)
  | threw
  deriving DecidableEq, Repr

inductive PublishThenOrderPhase
  | publishing
  | insertingOrder
  | returned (result : NaiveDbFailsResult)
  | threw
  deriving DecidableEq, Repr

inductive DrainPhase
  | selecting
  | publishing (result : DrainOutboxResult) (row : OutboxEventRow) (rest : List OutboxEventRow)
  | marking (result : DrainOutboxResult) (row : OutboxEventRow) (rest : List OutboxEventRow)
  | returned (result : DrainOutboxResult)
  | threw
  deriving DecidableEq, Repr

/-- The loop over the rows that were selected. -/
def DrainPhase.next (result : DrainOutboxResult) : List OutboxEventRow → DrainPhase
  | [] => .returned result
  | row::rest => .publishing result row rest

inductive OrderCall
  | transactional (opts : TransactionalOutboxOptions) (phase : TransactionalPhase)
  | orderThenPublish (opts : NaiveOptions) (phase : OrderThenPublishPhase)
  | publishThenOrder (opts : NaiveOptions) (phase : PublishThenOrderPhase)
  | drain (limit : Nat) (phase : DrainPhase)
  deriving DecidableEq, Repr

def OrderCall.hasEnded : OrderCall → Bool
  | .transactional _ (.returned _) | .transactional _ .threw => true
  | .orderThenPublish _ (.returned _) | .orderThenPublish _ .threw => true
  | .publishThenOrder _ (.returned _) | .publishThenOrder _ .threw => true
  | .drain _ (.returned _) | .drain _ .threw => true
  | _ => false

def OrderCall.threw : OrderCall → OrderCall
  | .transactional opts _ => .transactional opts .threw
  | .orderThenPublish opts _ => .orderThenPublish opts .threw
  | .publishThenOrder opts _ => .publishThenOrder opts .threw
  | .drain limit _ => .drain limit .threw

/-- A call as it is made. -/
inductive OrderRequest
  | performTransactionalOrderCreation (opts : TransactionalOutboxOptions)
  | performNaiveOrderThenBrokerPublish (opts : NaiveOptions)
  | performNaiveBrokerPublishThenOrder (opts : NaiveOptions)
  | drainOutbox (limit : Option Nat)
  deriving DecidableEq, Repr

def OrderRequest.call : OrderRequest → OrderCall
  | .performTransactionalOrderCreation opts => .transactional opts .connecting
  | .performNaiveOrderThenBrokerPublish opts => .orderThenPublish opts .insertingOrder
  | .performNaiveBrokerPublishThenOrder opts => .publishThenOrder opts .publishing
  | .drainOutbox limit => .drain (limit.getD 100) .selecting

/-- `delivered` is what the broker has accepted, with the call that handed it over. `created` (the
orders, with the calls that inserted them) and `selected` (what each drain has read) are not part
of the program's state. -/
structure OrdersWorld where
  orders : List OrderRow := []
  outboxEvents : List OutboxEventRow := []
  orderSeq : Nat := 1
  eventSeq : Nat := 1
  clock : Int := 0
  delivered : List (Nat × BrokerEvent) := []
  call : Nat → Option OrderCall := fun _ => none
  created : List (Nat × Nat) := []
  selected : List (Nat × Nat) := []

/-- A request that is answered, one that fails, and one that has taken effect although it fails.
`select` answers a drain: `ordered` is how the server has sorted all the rows, which is up to it
among rows of one timestamp. A failed statement may use up ids, which `skip` models. -/
inductive OrdersEvent
  | start (call : Nat) (request : OrderRequest)
  | query (call : Nat)
  | select (call : Nat) (ordered : List OutboxEventRow)
  | fail (call : Nat) (code : Option String) (reason : String)
  | loseReply (call : Nat) (code : Option String) (reason : String)
  | crash (call : Nat)
  | advance (ms : Nat)
  | skip (orderIds eventIds : Nat)
  deriving DecidableEq, Repr

def TransactionalOutboxOptions.order (opts : TransactionalOutboxOptions) (id : Nat) : OrderRow where
  id := id
  customerName := opts.customerName
  amountCents := opts.amountCents

def NaiveOptions.order (opts : NaiveOptions) (id : Nat) (amountCents : Int) : OrderRow where
  id := id
  customerName := opts.customerName
  amountCents := amountCents

/-- The row that the second `INSERT` of the transaction asks for. -/
def TransactionalOutboxOptions.event (opts : TransactionalOutboxOptions) (id orderId : Nat)
    (now : Int) : OutboxEventRow where
  id := id
  aggregateType := "order"
  aggregateId := orderId
  eventType := if opts.injectOutboxInsertFailure then "OrderCreatedTypoBug" else "OrderCreated"
  payload := .ofOrder orderId opts.amountCents
  createdAt := now

/-- What `performNaiveOrderThenBrokerPublish` hands to the broker. -/
def NaiveOptions.orderEvent (opts : NaiveOptions) (orderId : Nat) : BrokerEvent where
  eventType := "OrderCreated"
  aggregateType := "order"
  aggregateId := orderId
  payload := .ofOrder orderId opts.amountCents

/-- What `performNaiveBrokerPublishThenOrder` hands to the broker: there is no order id yet. -/
def NaiveOptions.customerEvent (opts : NaiveOptions) : BrokerEvent where
  eventType := "OrderCreated"
  aggregateType := "order"
  aggregateId := 0
  payload := .ofCustomer opts.customerName opts.amountCents

namespace OrdersWorld

def put (w : OrdersWorld) (n : Nat) (c : OrderCall) : OrdersWorld :=
  { w with call := Function.update w.call n (some c) }

/-- The `INSERT` of a naive dual write, a transaction of its own. -/
def insertOrder (w : OrdersWorld) (n : Nat) (order : OrderRow) (c : OrderCall) :
    Option OrdersWorld :=
  if order.valid then
    some { w.put n c with
      orders := w.orders ++ [order]
      orderSeq := w.orderSeq + 1
      created := w.created ++ [(n,order.id)] }
  else none

def commit (w : OrdersWorld) (n : Nat) (order : OrderRow) (event : OutboxEventRow)
    (c : OrderCall) : OrdersWorld :=
  { w.put n c with
    orders := w.orders ++ [order]
    outboxEvents := w.outboxEvents ++ [event]
    created := w.created ++ [(n,order.id)] }

def deliver (w : OrdersWorld) (n : Nat) (event : BrokerEvent) (c : OrderCall) : OrdersWorld :=
  { w.put n c with delivered := w.delivered ++ [(n,event)] }

/-- `UPDATE outbox_events SET published_at = now() WHERE id = $1`. -/
def markPublished (w : OrdersWorld) (n id : Nat) (c : OrderCall) : OrdersWorld :=
  { w.put n c with
    outboxEvents := updateWhere (OutboxEventRow.id · == id)
      (fun row => { row with publishedAt := some w.clock }) w.outboxEvents }

def performTransactionalOrderCreation (w : OrdersWorld) (n : Nat)
    (opts : TransactionalOutboxOptions) : TransactionalPhase → Option OrdersWorld
  | .connecting => some (w.put n (.transactional opts .beginning))
  | .beginning => some (w.put n (.transactional opts (.insertingOrder w.clock)))
  | .insertingOrder now =>
    let order := opts.order w.orderSeq
    if order.valid then
      some { w.put n (.transactional opts (.insertingEvent now order)) with
        orderSeq := w.orderSeq + 1 }
    else none
  | .insertingEvent now order =>
    let event := opts.event w.eventSeq order.id now
    if event.valid then
      some { w.put n (.transactional opts (.committing order event)) with
        eventSeq := w.eventSeq + 1 }
    else none
  | .committing order event =>
    some (w.commit n order event (.transactional opts (.returned (.committed order.id event.id))))
  | .rollingBack reason => some (w.put n (.transactional opts (.returned (.notCommitted reason))))
  | _ => none

def performNaiveOrderThenBrokerPublish (w : OrdersWorld) (n : Nat) (opts : NaiveOptions) :
    OrderThenPublishPhase → Option OrdersWorld
  | .insertingOrder =>
    w.insertOrder n (opts.order w.orderSeq opts.amountCents)
      (.orderThenPublish opts (.publishing w.orderSeq))
  | .publishing orderId =>
    match publishToBroker (opts.orderEvent orderId) .always with
    | .ok _ => some (w.deliver n (opts.orderEvent orderId)
        (.orderThenPublish opts (.returned ⟨orderId,true,none⟩)))
    | .error brokerError =>
      some (w.put n (.orderThenPublish opts (.returned ⟨orderId,false,some brokerError⟩)))
  | _ => none

def performNaiveBrokerPublishThenOrder (w : OrdersWorld) (n : Nat) (opts : NaiveOptions) :
    PublishThenOrderPhase → Option OrdersWorld
  | .publishing =>
    match publishToBroker opts.customerEvent .never with
    | .ok _ => some (w.deliver n opts.customerEvent (.publishThenOrder opts .insertingOrder))
    | .error _ => some (w.put n (.publishThenOrder opts .threw))
  | .insertingOrder =>
    w.insertOrder n (opts.order w.orderSeq (-opts.amountCents.natAbs))
      (.publishThenOrder opts (.returned (.orderCommitted w.orderSeq)))
  | _ => none

def drainOutbox (w : OrdersWorld) (n limit : Nat) : DrainPhase → Option OrdersWorld
  | .publishing result row rest =>
    some (w.deliver n row.brokerEvent (.drain limit (.marking result row rest)))
  | .marking result row rest =>
    let result := { result with publishedIds := result.publishedIds ++ [row.id] }
    some (w.markPublished n row.id (.drain limit (.next result rest)))
  | _ => none

/-- The drain reads the rows that are not published, oldest first. -/
def selectUnpublished (w : OrdersWorld) (n limit : Nat) (ordered : List OutboxEventRow) :
    Option OrdersWorld :=
  if ordered.Perm (w.outboxEvents.filter (·.publishedAt.isNone)) ∧
      ordered.Pairwise (fun r q => r.createdAt ≤ q.createdAt) then
    let rows := ordered.take limit
    some { w.put n (.drain limit (.next ⟨rows.length,[],[]⟩ rows)) with
      selected := w.selected ++ rows.map fun row => (n,row.id) }
  else none

/-- A failed row is put down as such, and the loop goes on. -/
def drainFailed (w : OrdersWorld) (n limit : Nat) (result : DrainOutboxResult)
    (row : OutboxEventRow) (rest : List OutboxEventRow) : OrdersWorld :=
  w.put n (.drain limit (.next { result with failedIds := result.failedIds ++ [row.id] } rest))

/-- The next request of the call fails. -/
def failRequest (w : OrdersWorld) (n : Nat) (code : Option String) (reason : String) :
    OrderCall → Option OrdersWorld
  | .transactional opts phase =>
    match phase with
    -- outside the `try`, and inside its `catch`
    | .connecting | .rollingBack _ => some (w.put n (.transactional opts .threw))
    | .returned _ | .threw => none
    | _ => some (w.put n (.transactional opts (.rollingBack reason)))
  | .orderThenPublish opts phase =>
    match phase with
    | .insertingOrder => some (w.put n (.orderThenPublish opts .threw))
    | _ => none
  | .publishThenOrder opts phase =>
    match phase with
    | .insertingOrder =>
      some (w.put n (.publishThenOrder opts (.returned (.orderNotCommitted code reason))))
    | _ => none
  | .drain limit phase =>
    match phase with
    | .selecting => some (w.put n (.drain limit .threw))
    | .publishing result row rest => some (w.drainFailed n limit result row rest)
    | .marking result row rest => some (w.drainFailed n limit result row rest)
    | _ => none

/-- The next request of the call takes effect, but the call only sees an error. After a `COMMIT`
the connection is gone, so that the `ROLLBACK` throws. -/
def loseReply (w : OrdersWorld) (n : Nat) (code : Option String) (reason : String) :
    OrderCall → Option OrdersWorld
  | .transactional opts phase =>
    match phase with
    | .committing order event => some (w.commit n order event (.transactional opts .threw))
    | _ => none
  | .orderThenPublish opts phase =>
    match phase with
    | .insertingOrder =>
      w.insertOrder n (opts.order w.orderSeq opts.amountCents) (.orderThenPublish opts .threw)
    | _ => none
  | .publishThenOrder opts phase =>
    match phase with
    | .insertingOrder =>
      w.insertOrder n (opts.order w.orderSeq (-opts.amountCents.natAbs))
        (.publishThenOrder opts (.returned (.orderNotCommitted code reason)))
    | _ => none
  | .drain limit phase =>
    match phase with
    | .publishing result row rest =>
      let result := { result with failedIds := result.failedIds ++ [row.id] }
      some (w.deliver n row.brokerEvent (.drain limit (.next result rest)))
    | .marking result row rest =>
      let result := { result with failedIds := result.failedIds ++ [row.id] }
      some (w.markPublished n row.id (.drain limit (.next result rest)))
    | _ => none

def query (w : OrdersWorld) (n : Nat) : OrderCall → Option OrdersWorld
  | .transactional opts phase => w.performTransactionalOrderCreation n opts phase
  | .orderThenPublish opts phase => w.performNaiveOrderThenBrokerPublish n opts phase
  | .publishThenOrder opts phase => w.performNaiveBrokerPublishThenOrder n opts phase
  | .drain limit phase => w.drainOutbox n limit phase

end OrdersWorld

def ordersStep (w : OrdersWorld) : OrdersEvent → Option OrdersWorld
  | .start n request =>
    match w.call n with
    | some _ => none
    | none => some (w.put n request.call)
  | .query n =>
    match w.call n with
    | some c => w.query n c
    | none => none
  | .select n ordered =>
    match w.call n with
    | some (.drain limit .selecting) => w.selectUnpublished n limit ordered
    | _ => none
  | .fail n code reason =>
    match w.call n with
    | some c => w.failRequest n code reason c
    | none => none
  | .loseReply n code reason =>
    match w.call n with
    | some c => w.loseReply n code reason c
    | none => none
  | .crash n =>
    match w.call n with
    | some c => if c.hasEnded then none else some (w.put n c.threw)
    | none => none
  | .advance ms => some { w with clock := w.clock + ms }
  | .skip orderIds eventIds =>
    some { w with
      orderSeq := w.orderSeq + orderIds
      eventSeq := w.eventSeq + eventIds }

namespace OrdersWorld

def eventsOf (w : OrdersWorld) (orderId : Nat) : List OutboxEventRow :=
  w.outboxEvents.filter (·.aggregateId = orderId)

def countOutboxEventsForOrder (w : OrdersWorld) (orderId : Nat) : Nat := (w.eventsOf orderId).length

end OrdersWorld

structure OrderWithOutboxEvent where
  orderId : Nat
  customerName : String
  amountCents : Int
  outboxEventId : Nat
  eventType : String
  publishedAt : Option Int
  deriving DecidableEq, Repr

/-- `orders JOIN outbox_events`, in the order of a nested loop. -/
def OrdersWorld.findOrderWithOutboxEventByCustomerName (w : OrdersWorld) (customerName : String) :
    List OrderWithOutboxEvent :=
  (w.orders.filter (·.customerName = customerName)).flatMap fun order =>
    (w.eventsOf order.id).map fun event =>
      ⟨order.id,order.customerName,order.amountCents,event.id,event.eventType,event.publishedAt⟩

end SystemsLab.OrderOutbox
