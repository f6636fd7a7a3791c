import SystemsLab.Framework.Issued
import SystemsLab.OrderOutbox.OrderMoves

/-!
# An order and its event are recorded together

An order of the transactional path has exactly one outbox event, and an order of a naive dual write
has none; which ids an event is published under does not matter for that, nor whether it is.
-/

namespace SystemsLab.OrderOutbox

/-- What a call is for, whatever it has done so far. -/
inductive OrderPurpose
  | transactional (opts : TransactionalOutboxOptions)
  | orderThenPublish (opts : NaiveOptions)
  | publishThenOrder (opts : NaiveOptions)
  | drain
  deriving DecidableEq, Repr

def OrderCall.purpose : OrderCall → OrderPurpose
  | .transactional opts _ => .transactional opts
  | .orderThenPublish opts _ => .orderThenPublish opts
  | .publishThenOrder opts _ => .publishThenOrder opts
  | .drain _ _ => .drain

/-- The order that a call has been asked to create. -/
def OrderPurpose.order (id : Nat) : OrderPurpose → Option OrderRow
  | .transactional opts => some (opts.order id)
  | .orderThenPublish opts => some (opts.order id opts.amountCents)
  | _ => none

/-- The events that are recorded along with the order. -/
def OrderPurpose.events (id : Nat) : OrderPurpose → List BrokerEvent
  | .transactional opts => [⟨"OrderCreated","order",id,.ofOrder id opts.amountCents⟩]
  | _ => []

/-- What is known of a call that has returned, or that has got beyond its `INSERT`. -/
def OrderCall.Reports (w : OrdersWorld) (n : Nat) : OrderCall → Prop
  | .transactional _ (.returned (.committed orderId outboxEventId)) =>
    (n,orderId) ∈ w.created ∧ ∃ event ∈ w.eventsOf orderId, event.id = outboxEventId
  | .transactional _ (.returned (.notCommitted _)) => n ∉ w.created.map Prod.fst
  | .orderThenPublish _ (.publishing orderId) => (n,orderId) ∈ w.created
  | .orderThenPublish _ (.returned result) =>
    (n,result.orderId) ∈ w.created ∧ result.brokerPublished = false
  | .publishThenOrder _ (.returned result) => ∀ orderId, result ≠ .orderCommitted orderId
  | _ => True

/-- Orders and their events as they were recorded, and what the calls say about them. -/
structure OrdersWorld.Recorded (w : OrdersWorld) : Prop where
  once : (w.created.map Prod.fst).Nodup
  orderIds : (w.orders.map OrderRow.id).Nodup
  eventIds : (w.outboxEvents.map OutboxEventRow.id).Nodup
  created : w.created.map Prod.snd = w.orders.map OrderRow.id
  recorded : ∀ n id, (n,id) ∈ w.created → ∃ c order, w.call n = some c ∧
    c.purpose.order id = some order ∧ order ∈ w.orders ∧ order.valid = true ∧
      (w.eventsOf id).map OutboxEventRow.brokerEvent = c.purpose.events id
  owned : ∀ event ∈ w.outboxEvents, event.aggregateId ∈ w.orders.map OrderRow.id
  reports : ∀ n c, w.call n = some c → c.Reports w n
  joined : ∀ customerName, (w.findOrderWithOutboxEventByCustomerName customerName).map
      OrderWithOutboxEvent.orderId =
    (w.orders.filter fun order => order.customerName = customerName ∧
      w.countOutboxEventsForOrder order.id = 1).map OrderRow.id

def OutboxEventRow.intent (event : OutboxEventRow) : Nat × BrokerEvent :=
  (event.id,event.brokerEvent)

namespace OrdersWorld

/-- The events as they were recorded, whether or not they are published by now. -/
def intents (w : OrdersWorld) : List (Nat × BrokerEvent) :=
  w.outboxEvents.map OutboxEventRow.intent

variable {w : OrdersWorld}

theorem eventIds_eq (w : OrdersWorld) :
    w.outboxEvents.map OutboxEventRow.id = w.intents.map Prod.fst := by
  rw [intents,List.map_map]
  rfl

private theorem eventsOf_brokerEvent (w : OrdersWorld) (id : Nat) :
    (w.eventsOf id).map OutboxEventRow.brokerEvent =
      (w.intents.map Prod.snd).filter (·.aggregateId = id) := by
  rw [intents,List.map_map,List.filter_map]
  rfl

theorem intents_markPublished (w : OrdersWorld) (n id : Nat) (c : OrderCall) :
    (w.markPublished n id c).intents = w.intents := by
  show (updateWhere _ _ w.outboxEvents).map OutboxEventRow.intent = _
  refine map_updateWhere OutboxEventRow.intent ?_ _
  intro row
  rfl

theorem mem_intents {event : OutboxEventRow} (h : event ∈ w.outboxEvents) :
    event.intent ∈ w.intents :=
  List.mem_map_of_mem h

end OrdersWorld

/-- The order that an open transaction has inserted. -/
def OrderCall.pendingOrder : OrderCall → Option Nat
  | .transactional _ (.insertingEvent _ order) => some order.id
  | .transactional _ (.committing order _) => some order.id
  | _ => none

def OrderCall.pendingEvent : OrderCall → Option Nat
  | .transactional _ (.committing _ event) => some event.id
  | _ => none

/-- Whether a call may still create an order. -/
def OrderCall.mayCreate : OrderCall → Bool
  | .transactional _ phase =>
    match phase with
    | .rollingBack _ | .returned _ | .threw => false
    | _ => true
  | .orderThenPublish _ phase => phase == .insertingOrder
  | _ => false

/-- The rows that an open transaction has inserted are those it was asked for, and a call reports
what has happened. -/
def OrderCall.Fits (created : List (Nat × Nat)) (intents : List (Nat × BrokerEvent)) (n : Nat) :
    OrderCall → Prop
  | .transactional opts (.insertingEvent _ order) =>
    order = opts.order order.id ∧ order.valid = true
  | .transactional opts (.committing order event) =>
    order = opts.order order.id ∧ order.valid = true ∧
      OrderPurpose.events order.id (.transactional opts) = [event.brokerEvent] ∧
        event.publishedAt = none
  | .transactional _ (.rollingBack _) => n ∉ created.map Prod.fst
  | .transactional _ (.returned (.notCommitted _)) => n ∉ created.map Prod.fst
  | .transactional opts (.returned (.committed orderId outboxEventId)) =>
    (n,orderId) ∈ created ∧ ∃ event ∈ OrderPurpose.events orderId (.transactional opts),
      (outboxEventId,event) ∈ intents
  | .orderThenPublish _ (.publishing orderId) => (n,orderId) ∈ created
  | .orderThenPublish _ (.returned result) =>
    (n,result.orderId) ∈ created ∧ result.brokerPublished = false
  | .publishThenOrder _ (.returned result) => ∀ orderId, result ≠ .orderCommitted orderId
  | _ => True

namespace OrderCall

variable {c c' : OrderCall} {n : Nat} {created created' : List (Nat × Nat)}
  {intents intents' : List (Nat × BrokerEvent)}

private theorem threw_purpose (c : OrderCall) : c.threw.purpose = c.purpose := by
  cases c <;> rfl

private theorem threw_mayCreate (c : OrderCall) : c.threw.mayCreate = false := by
  cases c <;> rfl

private theorem Quiet.purpose (h : c.Quiet c') : c'.purpose = c.purpose := by
  cases h with
  | threw => exact threw_purpose c
  | _ => rfl

private theorem Quiet.pendingOrder (h : c.Quiet c') : c'.pendingOrder = none := by
  cases h with
  | threw => cases c <;> rfl
  | _ => rfl

private theorem Quiet.pendingEvent (h : c.Quiet c') : c'.pendingEvent = none := by
  cases h with
  | threw => cases c <;> rfl
  | _ => rfl

private theorem Quiet.mayCreate (h : c.Quiet c') (hnew : c'.mayCreate = true) :
    c.mayCreate = true := by
  cases h with
  | begun => rfl
  | entered => rfl
  | threw =>
    rw [threw_mayCreate] at hnew
    cases hnew
  | _ => cases hnew

private theorem Quiet.fits (h : c.Quiet c') (hfits : c.Fits created intents n)
    (huntried : c.mayCreate = true → n ∉ created.map Prod.fst) : c'.Fits created intents n := by
  cases h with
  | begun => trivial
  | entered => trivial
  | failed opts phase reason hrunning =>
    cases phase with
    | rollingBack _ => exact hfits
    | returned _ => cases hrunning
    | threw => cases hrunning
    | _ => exact huntried rfl
  | rolledBack => exact hfits
  | refused => exact ⟨hfits,rfl⟩
  | notInserted => nofun
  | passed => trivial
  | threw => cases c <;> trivial

theorem Fits.mono (h : c.Fits created intents n) (hcreated : created ⊆ created')
    (hintents : intents ⊆ intents')
    (hothers : n ∉ created.map Prod.fst → n ∉ created'.map Prod.fst) :
    c.Fits created' intents' n := by
  unfold Fits at h ⊢
  split at h
  · exact h
  · exact h
  · exact hothers h
  · exact hothers h
  · obtain ⟨hmem,event,hevent,hin⟩ := h
    exact ⟨hcreated hmem,event,hevent,hintents hin⟩
  · exact hcreated h
  · exact ⟨hcreated h.1,h.2⟩
  · exact h
  · trivial

private theorem call_purpose_untried (request : OrderRequest) :
    request.call.pendingOrder = none ∧ request.call.pendingEvent = none ∧
      ∀ created intents n, request.call.Fits created intents n := by
  cases request <;> exact ⟨rfl,rfl,fun _ _ _ => trivial⟩

end OrderCall

structure OrdersWorld.Sound (w : OrdersWorld) : Prop where
  orderIds : Issued 1 (w.orders.map OrderRow.id) (heldBy OrderCall.pendingOrder w.call) w.orderSeq
  eventIds : Issued 1 (w.intents.map Prod.fst) (heldBy OrderCall.pendingEvent w.call) w.eventSeq
  created : w.created.map Prod.snd = w.orders.map OrderRow.id
  once : (w.created.map Prod.fst).Nodup
  tried : ∀ n, n ∈ w.created.map Prod.fst → ∃ c, w.call n = some c ∧ c.mayCreate = false
  recorded : ∀ n id, (n,id) ∈ w.created → ∃ c order, w.call n = some c ∧
    c.purpose.order id = some order ∧ order ∈ w.orders ∧ order.valid = true ∧
      (w.intents.map Prod.snd).filter (·.aggregateId = id) = c.purpose.events id
  owned : ∀ intent ∈ w.intents, intent.2.aggregateId ∈ w.orders.map OrderRow.id
  fits : ∀ n c, w.call n = some c → c.Fits w.created w.intents n

namespace OrdersWorld.Sound

variable {w w' : OrdersWorld} {n : Nat} {c c' : OrderCall}

theorem start : ({} : OrdersWorld).Sound where
  orderIds := .start 1
  eventIds := .start 1
  created := rfl
  once := .nil
  tried := nofun
  recorded := nofun
  owned := nofun
  fits := nofun

private theorem untried (h : w.Sound) (hc : w.call n = some c) (hmay : c.mayCreate = true) :
    n ∉ w.created.map Prod.fst := by
  intro hmem
  obtain ⟨d,hd,hnot⟩ := h.tried n hmem
  rw [hc] at hd
  cases hd
  rw [hmay] at hnot
  cases hnot

theorem keep (h : w.Sound)
    (hcall : w'.call = Function.update w.call n (some c')) (horders : w'.orders = w.orders)
    (hintents : w'.intents = w.intents) (hcreated : w'.created = w.created)
    (horderIds : Issued 1 (w.orders.map OrderRow.id) (heldBy OrderCall.pendingOrder w'.call)
      w'.orderSeq)
    (heventIds : Issued 1 (w.intents.map Prod.fst) (heldBy OrderCall.pendingEvent w'.call)
      w'.eventSeq)
    (hpurpose : ∀ c, w.call n = some c → c'.purpose = c.purpose)
    (hmay : n ∈ w.created.map Prod.fst → c'.mayCreate = false)
    (hfits : c'.Fits w.created w.intents n) : w'.Sound where
  orderIds := by rwa [horders]
  eventIds := by rwa [hintents]
  created := by rw [hcreated,horders,h.created]
  once := by rw [hcreated]; exact h.once
  tried m hm := by
    rw [hcreated] at hm
    obtain ⟨d,hd,hnot⟩ := h.tried m hm
    rw [hcall]
    by_cases hmn : m = n
    · subst hmn
      exact ⟨c',Function.update_self _ _ _,hmay hm⟩
    · exact ⟨d,by rwa [Function.update_of_ne hmn],hnot⟩
  recorded m id hm := by
    rw [hcreated] at hm
    obtain ⟨d,order,hd,horder,hmem,hvalid,hevents⟩ := h.recorded m id hm
    rw [hcall,horders,hintents]
    by_cases hmn : m = n
    · subst hmn
      rw [← hpurpose d hd] at horder hevents
      exact ⟨c',order,Function.update_self _ _ _,horder,hmem,hvalid,hevents⟩
    · exact ⟨d,order,by rwa [Function.update_of_ne hmn],horder,hmem,hvalid,hevents⟩
  owned intent hi := by
    rw [hintents] at hi
    rw [horders]
    exact h.owned intent hi
  fits m d hd := by
    rw [hcall] at hd
    rw [hcreated,hintents]
    rcases update_eq_some hd with ⟨rfl,rfl⟩ | ⟨_,hd⟩
    · exact hfits
    · exact h.fits m d hd

private theorem keepQuiet (h : w.Sound) (hcall : w'.call = Function.update w.call n (some c'))
    (horders : w'.orders = w.orders) (hintents : w'.intents = w.intents)
    (hcreated : w'.created = w.created) (horderSeq : w'.orderSeq = w.orderSeq)
    (heventSeq : w'.eventSeq = w.eventSeq) (hpendingOrder : c'.pendingOrder = none)
    (hpendingEvent : c'.pendingEvent = none)
    (hpurpose : ∀ c, w.call n = some c → c'.purpose = c.purpose)
    (hmay : n ∈ w.created.map Prod.fst → c'.mayCreate = false)
    (hfits : c'.Fits w.created w.intents n) : w'.Sound := by
  refine h.keep hcall horders hintents hcreated ?_ ?_ hpurpose hmay hfits
  · rw [horderSeq,hcall]
    refine h.orderIds.release fun m id hm => ?_
    rcases heldBy_update hm with ⟨_,hnew⟩ | ⟨_,hold⟩
    · rw [hpendingOrder] at hnew
      cases hnew
    · exact hold
  · rw [heventSeq,hcall]
    refine h.eventIds.release fun m id hm => ?_
    rcases heldBy_update hm with ⟨_,hnew⟩ | ⟨_,hold⟩
    · rw [hpendingEvent] at hnew
      cases hnew
    · exact hold

private theorem stepped (h : w.Sound) (hc : w.call n = some c) (hquiet : c.Quiet c') :
    (w.put n c').Sound := by
  refine h.keepQuiet rfl rfl rfl rfl rfl rfl hquiet.pendingOrder hquiet.pendingEvent ?_ ?_ ?_
  · intro d hd
    rw [hc] at hd
    cases hd
    exact hquiet.purpose
  · intro hmem
    cases hmay : c'.mayCreate with
    | false => rfl
    | true => exact absurd hmem (h.untried hc (hquiet.mayCreate hmay))
  · exact hquiet.fits (h.fits n c hc) (h.untried hc)

theorem drained (h : w.Sound) {limit : Nat} {phase phase' : DrainPhase}
    (hc : w.call n = some (.drain limit phase))
    (hcall : w'.call = Function.update w.call n (some (.drain limit phase')))
    (horders : w'.orders = w.orders) (hintents : w'.intents = w.intents)
    (hcreated : w'.created = w.created) (horderSeq : w'.orderSeq = w.orderSeq)
    (heventSeq : w'.eventSeq = w.eventSeq) : w'.Sound := by
  refine h.keepQuiet hcall horders hintents hcreated horderSeq heventSeq rfl rfl ?_ (fun _ => rfl)
    trivial
  intro d hd
  rw [hc] at hd
  cases hd
  rfl

private theorem add (h : w.Sound) {order : OrderRow} {intents : List (Nat × BrokerEvent)}
    (hc : w.call n = some c) (hmay : c.mayCreate = true)
    (hcall : w'.call = Function.update w.call n (some c'))
    (horders : w'.orders = w.orders ++ [order]) (hintents : w'.intents = w.intents ++ intents)
    (hcreated : w'.created = w.created ++ [(n,order.id)])
    (horderIds : Issued 1 (w.orders.map OrderRow.id ++ [order.id])
      (heldBy OrderCall.pendingOrder w'.call) w'.orderSeq)
    (heventIds : Issued 1 (w.intents.map Prod.fst ++ intents.map Prod.fst)
      (heldBy OrderCall.pendingEvent w'.call) w'.eventSeq)
    (hpurpose : c'.purpose = c.purpose) (hdone : c'.mayCreate = false)
    (horder : c.purpose.order order.id = some order) (hvalid : order.valid = true)
    (hevents : intents.map Prod.snd = c.purpose.events order.id)
    (hfits : c'.Fits w'.created w'.intents n) : w'.Sound := by
  have huntried := h.untried hc hmay
  have hnew : order.id ∉ w.orders.map OrderRow.id := by
    have hnodup := List.nodup_append'.mp horderIds.nodup
    exact fun hmem => hnodup.2.2 hmem (List.mem_singleton_self _)
  have hown : ∀ event ∈ c.purpose.events order.id, event.aggregateId = order.id := by
    cases c <;> simp [OrderCall.purpose,OrderPurpose.events]
  have hothers : ∀ id ∈ w.orders.map OrderRow.id,
      (c.purpose.events order.id).filter (·.aggregateId = id) = [] := by
    intro id hid
    refine List.filter_eq_nil_iff.mpr fun event hevent heq => ?_
    rw [hown event hevent,decide_eq_true_iff] at heq
    exact hnew (heq ▸ hid)
  have hnone : (w.intents.map Prod.snd).filter (·.aggregateId = order.id) = [] := by
    refine List.filter_eq_nil_iff.mpr fun event hevent heq => ?_
    obtain ⟨intent,hintent,rfl⟩ := List.mem_map.mp hevent
    rw [decide_eq_true_iff] at heq
    exact hnew (heq ▸ h.owned intent hintent)
  refine ⟨?_,?_,?_,?_,?_,?_,?_,?_⟩
  · rwa [horders,List.map_append]
  · rwa [hintents,List.map_append]
  · rw [hcreated,horders,List.map_append,List.map_append,h.created]
    rfl
  · rw [hcreated,List.map_append]
    exact List.nodup_append'.mpr ⟨h.once,List.nodup_singleton _,by simpa using huntried⟩
  · intro m hm
    rw [hcreated,List.map_append,List.mem_append] at hm
    rw [hcall]
    by_cases hmn : m = n
    · subst hmn
      exact ⟨c',Function.update_self _ _ _,hdone⟩
    · rw [Function.update_of_ne hmn]
      refine h.tried m (hm.resolve_right fun hlast => hmn ?_)
      simpa using hlast
  · intro m id hm
    rw [hcreated,List.mem_append] at hm
    rw [hcall,horders,hintents,List.map_append,List.filter_append,hevents]
    rcases hm with hm | hm
    · obtain ⟨d,row,hd,hrow,hmem,hrowValid,hrowEvents⟩ := h.recorded m id hm
      have hmn : m ≠ n := by
        rintro rfl
        exact huntried (List.mem_map_of_mem (f := Prod.fst) hm)
      have hid : id ∈ w.orders.map OrderRow.id := by
        rw [← h.created]
        exact List.mem_map_of_mem (f := Prod.snd) hm
      refine ⟨d,row,by rwa [Function.update_of_ne hmn],hrow,List.mem_append_left _ hmem,hrowValid,?_⟩
      rw [hothers id hid,List.append_nil,hrowEvents]
    · obtain ⟨rfl,rfl⟩ := Prod.mk.inj (List.mem_singleton.mp hm)
      refine ⟨c',order,Function.update_self _ _ _,by rwa [hpurpose],by simp,hvalid,?_⟩
      rw [hnone,List.nil_append,hpurpose]
      refine List.filter_eq_self.mpr fun event hevent => ?_
      rw [hown event hevent]
      exact decide_eq_true rfl
  · intro intent hintent
    rw [hintents,List.mem_append] at hintent
    rw [horders,List.map_append,List.mem_append]
    rcases hintent with hintent | hintent
    · exact .inl (h.owned intent hintent)
    · have hmem : intent.2 ∈ c.purpose.events order.id :=
        hevents ▸ List.mem_map_of_mem hintent
      rw [hown _ hmem]
      exact .inr (List.mem_singleton_self _)
  · intro m d hd
    rw [hcall] at hd
    rcases update_eq_some hd with ⟨rfl,rfl⟩ | ⟨hmn,hd⟩
    · exact hfits
    · refine (h.fits m d hd).mono ?_ ?_ ?_
      · rw [hcreated]
        exact List.subset_append_left _ _
      · rw [hintents]
        exact List.subset_append_left _ _
      · intro hm
        rw [hcreated,List.map_append,List.mem_append]
        rintro (hold | hlast)
        · exact hm hold
        · exact hmn (by simpa using hlast)

theorem skipped (h : w.Sound) (ms orderIds eventIds : Nat) :
    ({ w with
      clock := w.clock + ms
      orderSeq := w.orderSeq + orderIds
      eventSeq := w.eventSeq + eventIds } : OrdersWorld).Sound :=
  ⟨h.orderIds.skip (Nat.le_add_right _ _),h.eventIds.skip (Nat.le_add_right _ _),h.created,h.once,
    h.tried,h.recorded,h.owned,h.fits⟩

theorem started (h : w.Sound) (request : OrderRequest) (hnone : w.call n = none) :
    (w.put n request.call).Sound := by
  obtain ⟨hpendingOrder,hpendingEvent,hfits⟩ := OrderCall.call_purpose_untried request
  refine h.keepQuiet rfl rfl rfl rfl rfl rfl hpendingOrder hpendingEvent ?_ ?_ (hfits _ _ _)
  · intro c hc
    rw [hnone] at hc
    cases hc
  · intro hmem
    obtain ⟨c,hc,_⟩ := h.tried n hmem
    rw [hnone] at hc
    cases hc

private theorem insertedOrder (h : w.Sound) {opts : TransactionalOutboxOptions} {now : Int}
    (hc : w.call n = some (.transactional opts (.insertingOrder now)))
    (hvalid : (opts.order w.orderSeq).valid = true) :
    ({ w.put n (.transactional opts (.insertingEvent now (opts.order w.orderSeq))) with
      orderSeq := w.orderSeq + 1 } : OrdersWorld).Sound := by
  refine h.keep rfl rfl rfl rfl ?_ ?_ ?_ ?_ ⟨rfl,hvalid⟩
  · refine h.orderIds.reserve (k := n) fun m id hm => ?_
    rcases heldBy_update hm with ⟨hmn,hid⟩ | ⟨_,hold⟩
    · exact .inl ⟨hmn,(Option.some.inj hid).symm⟩
    · exact .inr hold
  · refine h.eventIds.release fun m id hm => ?_
    rcases heldBy_update hm with ⟨_,hnew⟩ | ⟨_,hold⟩
    · cases hnew
    · exact hold
  · intro d hd
    rw [hc] at hd
    cases hd
    rfl
  · intro hmem
    exact absurd hmem (h.untried hc rfl)

private theorem insertedEvent (h : w.Sound) {opts : TransactionalOutboxOptions} {now : Int}
    {order : OrderRow} (hc : w.call n = some (.transactional opts (.insertingEvent now order)))
    (hvalid : (opts.event w.eventSeq order.id now).valid = true) :
    ({ w.put n (.transactional opts (.committing order (opts.event w.eventSeq order.id now))) with
      eventSeq := w.eventSeq + 1 } : OrdersWorld).Sound := by
  have hfits := h.fits n _ hc
  have hevents : OrderPurpose.events order.id (.transactional opts) =
      [(opts.event w.eventSeq order.id now).brokerEvent] := by
    cases hinject : opts.injectOutboxInsertFailure with
    | false => simp [OrderPurpose.events,TransactionalOutboxOptions.event,
        OutboxEventRow.brokerEvent,hinject]
    | true => simp [OutboxEventRow.valid,TransactionalOutboxOptions.event,hinject] at hvalid
  refine h.keep rfl rfl rfl rfl ?_ ?_ ?_ ?_ ⟨hfits.1,hfits.2,hevents,rfl⟩
  · refine h.orderIds.release fun m id hm => ?_
    rcases heldBy_update hm with ⟨hmn,hid⟩ | ⟨_,hold⟩
    · rw [hmn,heldBy_eq hc]
      exact hid
    · exact hold
  · refine h.eventIds.reserve (k := n) fun m id hm => ?_
    rcases heldBy_update hm with ⟨hmn,hid⟩ | ⟨_,hold⟩
    · exact .inl ⟨hmn,(Option.some.inj hid).symm⟩
    · exact .inr hold
  · intro d hd
    rw [hc] at hd
    cases hd
    rfl
  · intro hmem
    exact absurd hmem (h.untried hc rfl)

theorem committed (h : w.Sound) {opts : TransactionalOutboxOptions} {order : OrderRow}
    {event : OutboxEventRow} {phase : TransactionalPhase}
    (hc : w.call n = some (.transactional opts (.committing order event)))
    (hphase : phase = .returned (.committed order.id event.id) ∨ phase = .threw) :
    (w.commit n order event (.transactional opts phase)).Sound := by
  obtain ⟨horder,hvalid,hevents,_⟩ := h.fits n _ hc
  have hintents : (w.outboxEvents ++ [event]).map OutboxEventRow.intent =
      w.intents ++ [event.intent] := List.map_append ..
  refine h.add hc rfl rfl rfl hintents rfl ?_ ?_ rfl ?_ ?_ hvalid ?_ ?_
  · refine h.orderIds.settle (heldBy_eq hc) fun m id hm => ?_
    rcases heldBy_update hm with ⟨_,hnew⟩ | hold
    · rcases hphase with rfl | rfl <;> cases hnew
    · exact hold
  · refine h.eventIds.settle (heldBy_eq hc) fun m id hm => ?_
    rcases heldBy_update hm with ⟨_,hnew⟩ | hold
    · rcases hphase with rfl | rfl <;> cases hnew
    · exact hold
  · rcases hphase with rfl | rfl <;> rfl
  · exact congrArg some horder.symm
  · exact hevents.symm
  · rcases hphase with rfl | rfl
    · refine ⟨List.mem_append_right _ (List.mem_singleton_self _),event.brokerEvent,?_,?_⟩
      · rw [hevents]
        exact List.mem_singleton_self _
      · refine List.mem_map_of_mem (f := OutboxEventRow.intent) ?_
        exact List.mem_append_right _ (List.mem_singleton_self _)
    · trivial

private theorem inserted (h : w.Sound) {opts : NaiveOptions} {phase : OrderThenPublishPhase}
    (hc : w.call n = some (.orderThenPublish opts .insertingOrder))
    (hphase : phase = .publishing w.orderSeq ∨ phase = .threw)
    (hvalid : (opts.order w.orderSeq opts.amountCents).valid = true) :
    ({ w.put n (.orderThenPublish opts phase) with
      orders := w.orders ++ [opts.order w.orderSeq opts.amountCents]
      orderSeq := w.orderSeq + 1
      created := w.created ++ [(n,w.orderSeq)] } : OrdersWorld).Sound := by
  have hintents : w.intents = w.intents ++ [] := (List.append_nil _).symm
  refine h.add hc rfl rfl rfl hintents rfl ?_ ?_ rfl ?_ rfl hvalid rfl ?_
  · refine h.orderIds.insert.release fun m id hm => ?_
    rcases heldBy_update hm with ⟨_,hnew⟩ | ⟨_,hold⟩
    · cases hnew
    · exact hold
  · rw [List.map_nil,List.append_nil]
    refine h.eventIds.release fun m id hm => ?_
    rcases heldBy_update hm with ⟨_,hnew⟩ | ⟨_,hold⟩
    · cases hnew
    · exact hold
  · rcases hphase with rfl | rfl <;> rfl
  · rcases hphase with rfl | rfl
    · exact List.mem_append_right _ (List.mem_singleton_self _)
    · trivial

theorem move (h : w.Sound) (hmove : OrdersMove w w') : w'.Sound := by
  cases hmove with
  | skipped ms orderIds eventIds => exact h.skipped ms orderIds eventIds
  | started n request hnone => exact h.started request hnone
  | stepped n c c' hc hquiet => exact h.stepped hc hquiet
  | insertedOrder n opts now hc hvalid => exact h.insertedOrder hc hvalid
  | insertedEvent n opts now order hc hvalid => exact h.insertedEvent hc hvalid
  | committed n opts order event phase hc hphase => exact h.committed hc hphase
  | inserted n opts phase hc hphase hvalid => exact h.inserted hc hphase hvalid
  | announced n opts hc =>
    refine h.keepQuiet rfl rfl rfl rfl rfl rfl rfl rfl ?_ (fun _ => rfl) trivial
    intro d hd
    rw [hc] at hd
    cases hd
    rfl
  | selected n limit ordered hc _ _ => exact h.drained hc rfl rfl rfl rfl rfl rfl
  | delivered n limit result row rest phase hc _ => exact h.drained hc rfl rfl rfl rfl rfl rfl
  | marked n limit result result' row rest hc _ =>
    exact h.drained hc rfl rfl (w.intents_markPublished ..) rfl rfl rfl

theorem reachable (h : Reachable ordersStep (· = {}) w) : w.Sound :=
  ReachableBy.invariant (by rintro s rfl; exact start)
    (fun _ _ _ hs _ hstep => hs.move (ordersStep_move hstep)) h

private theorem mem_orders (h : w.Sound) {order : OrderRow} (horder : order ∈ w.orders) :
    ∃ n, (n,order.id) ∈ w.created := by
  have hmem : order.id ∈ w.created.map Prod.snd := by
    rw [h.created]
    exact List.mem_map_of_mem horder
  obtain ⟨⟨n,id⟩,hcreated,heq⟩ := List.mem_map.mp hmem
  exact ⟨n,by rwa [← show id = order.id from heq]⟩

private theorem count_le_one (h : w.Sound) {order : OrderRow} (horder : order ∈ w.orders) :
    w.countOutboxEventsForOrder order.id ≤ 1 := by
  obtain ⟨n,hcreated⟩ := h.mem_orders horder
  obtain ⟨c,_,_,_,_,_,hevents⟩ := h.recorded n order.id hcreated
  rw [← w.eventsOf_brokerEvent] at hevents
  have hlength := congrArg List.length hevents
  rw [List.length_map] at hlength
  rw [OrdersWorld.countOutboxEventsForOrder,hlength]
  cases c <;> simp [OrderCall.purpose,OrderPurpose.events]

private theorem joined (h : w.Sound) (customerName : String) :
    (w.findOrderWithOutboxEventByCustomerName customerName).map OrderWithOutboxEvent.orderId =
      (w.orders.filter fun order => order.customerName = customerName ∧
        w.countOutboxEventsForOrder order.id = 1).map OrderRow.id := by
  have hone : ∀ orders : List OrderRow, (∀ order ∈ orders, order ∈ w.orders) →
      (orders.flatMap fun order => (w.eventsOf order.id).map fun _ => order.id) =
        (orders.filter fun order => w.countOutboxEventsForOrder order.id = 1).map OrderRow.id := by
    intro orders hsub
    induction orders with
    | nil => rfl
    | cons order orders ih =>
      have hle := h.count_le_one (hsub order List.mem_cons_self)
      rw [List.flatMap_cons,ih fun o ho => hsub o (List.mem_cons_of_mem _ ho),List.filter_cons,
        List.map_const']
      change List.replicate (w.countOutboxEventsForOrder order.id) order.id ++ _ = _
      rcases Nat.le_one_iff_eq_zero_or_eq_one.mp hle with hcount | hcount <;> simp [hcount]
  rw [OrdersWorld.findOrderWithOutboxEventByCustomerName,List.map_flatMap]
  simp only [List.map_map,Function.comp_def]
  rw [hone _ fun order horder => List.mem_of_mem_filter horder,List.filter_filter]
  congr 2
  funext order
  simp [Bool.and_comm]

private theorem reports (h : w.Sound) (hc : w.call n = some c) : c.Reports w n := by
  have hfits := h.fits n c hc
  unfold OrderCall.Fits at hfits
  unfold OrderCall.Reports
  split
  · obtain ⟨hcreated,event,hevent,hintent⟩ := hfits
    obtain ⟨row,hrow,heq⟩ := List.mem_map.mp hintent
    obtain ⟨rfl,rfl⟩ := Prod.mk.inj heq
    refine ⟨hcreated,row,List.mem_filter.mpr ⟨hrow,?_⟩,rfl⟩
    exact decide_eq_true (congrArg BrokerEvent.aggregateId (List.mem_singleton.mp hevent))
  · exact hfits
  · exact hfits
  · exact hfits
  · exact hfits
  · trivial

end OrdersWorld.Sound

/-- In every interleaving of order calls and drains, with any failures, lost replies and crashes,
a transactional order and its event are there together or not at all, and a naive order never has
an event. -/
theorem orders_recorded {w : OrdersWorld} (h : Reachable ordersStep (· = {}) w) : w.Recorded := by
  have hsound := OrdersWorld.Sound.reachable h
  refine ⟨hsound.once,hsound.orderIds.nodup,?_,hsound.created,?_,?_,fun n c => hsound.reports,
    hsound.joined⟩
  · rw [w.eventIds_eq]
    exact hsound.eventIds.nodup
  · intro n id hmem
    rw [w.eventsOf_brokerEvent]
    exact hsound.recorded n id hmem
  · intro event hevent
    exact hsound.owned event.intent (OrdersWorld.mem_intents hevent)

/-- An order with its event, one whose event is refused, and the two naive dual writes. -/
def fourOrders : List OrdersEvent :=
  [.start 0 (.performTransactionalOrderCreation ⟨"Ada",3200,false⟩),
    .query 0,.query 0,.query 0,.query 0,.query 0,
    .start 1 (.performTransactionalOrderCreation ⟨"Grace",3200,true⟩),
    .query 1,.query 1,.query 1,.fail 1 (some "23514") "outbox_events_event_type_valid",.query 1,
    .start 2 (.performNaiveOrderThenBrokerPublish ⟨"Edsger",4999⟩),.query 2,.query 2,
    .start 3 (.performNaiveBrokerPublishThenOrder ⟨"Barbara",4999⟩),.query 3,
    .fail 3 (some "23514") "orders_amount_cents_positive"]

theorem orders_recorded_fourOrders : ∃ w : OrdersWorld, w.Recorded ∧
    w.orders.map OrderRow.customerName = ["Ada","Edsger"] ∧ w.outboxEvents.length = 1 ∧
      w.delivered.map (fun d => d.2.aggregateId) = [0] := by
  have hend : (run ordersStep {} fourOrders).any (fun w =>
      w.orders.map OrderRow.customerName == ["Ada","Edsger"] && w.outboxEvents.length == 1 &&
        w.delivered.map (fun d => d.2.aggregateId) == [0]) = true := by decide
  obtain ⟨w,_,hresult,hreachable⟩ := exists_run_of_any hend
  simp only [Bool.and_eq_true,beq_iff_eq] at hresult
  exact ⟨w,orders_recorded hreachable,hresult.1.1,hresult.1.2,hresult.2⟩

end SystemsLab.OrderOutbox
