import SystemsLab.Framework.HeadOfLine
import SystemsLab.OrderOutbox.Draining

/-!
# Drains that run by themselves

Without interference a drain is one round over the head of the unpublished events, and an event that
the broker does not take stays at the head. So the events behind `limit` such events are never
published, and all others are, once each.
-/

namespace SystemsLab.OrderOutbox

variable {rejects : BrokerEvent → Bool} {limit k n : Nat} {w w' : OrdersWorld}

/-- What a drain asks for because of one row; the broker takes the event unless it `rejects` it. -/
def rowSchedule (rejects : BrokerEvent → Bool) (n : Nat) (row : OutboxEventRow) : List OrdersEvent :=
  if rejects row.brokerEvent then [.fail n none "rejected"] else [.query n,.query n]

def drainSchedule (rejects : BrokerEvent → Bool) (limit n : Nat) (ordered : List OutboxEventRow) :
    List OrdersEvent :=
  .start n (.drainOutbox (some limit))::.select n ordered::
    (ordered.take limit).flatMap (rowSchedule rejects n)

/-- `k` drains one after the other, with nothing but time between them. -/
inductive DrainsAlone (rejects : BrokerEvent → Bool) (limit : Nat) :
    Nat → OrdersWorld → OrdersWorld → Prop
  | zero (w : OrdersWorld) : DrainsAlone rejects limit 0 w w
  | wait {k : Nat} {w w' : OrdersWorld} (ms : Nat) : DrainsAlone rejects limit k w w' →
      DrainsAlone rejects limit k w { w' with clock := w'.clock + ms }
  | drain {k : Nat} {w w' w'' : OrdersWorld} (n : Nat) (ordered : List OutboxEventRow) :
      DrainsAlone rejects limit k w w' →
      run ordersStep w' (drainSchedule rejects limit n ordered) = some w'' →
      DrainsAlone rejects limit (k + 1) w w''

namespace OrdersWorld

def unpublished (w : OrdersWorld) : List OutboxEventRow :=
  w.outboxEvents.filter (·.publishedAt.isNone)

end OrdersWorld

def OutboxEventRow.stuck (rejects : BrokerEvent → Bool) (row : OutboxEventRow) : Bool :=
  rejects row.brokerEvent

/-- Marks all rows with the given ids. -/
def markAll (now : Int) (ids : List Nat) (rows : List OutboxEventRow) : List OutboxEventRow :=
  updateWhere (fun row => decide (row.id ∈ ids)) (fun row => { row with publishedAt := some now })
    rows

private theorem markAll_nil (now : Int) (rows : List OutboxEventRow) : markAll now
    [] rows = rows := by
  simp [markAll,updateWhere]

private theorem markAll_append (now : Int) (ids ids' : List Nat) (rows : List OutboxEventRow) :
    markAll now (ids ++ ids') rows = markAll now ids' (markAll now ids rows) := by
  simp only [markAll,updateWhere,List.map_map]
  refine List.map_congr_left fun row _ => ?_
  simp only [Function.comp_apply]
  by_cases hid : row.id ∈ ids
  · by_cases hid' : row.id ∈ ids' <;> simp [hid,hid']
  · by_cases hid' : row.id ∈ ids' <;> simp [hid,hid']

private theorem markAll_singleton (now : Int) (id : Nat) (rows : List OutboxEventRow) :
    markAll now [id] rows = updateWhere (OutboxEventRow.id · == id)
      (fun row => { row with publishedAt := some now }) rows := by
  simp only [markAll,updateWhere]
  refine List.map_congr_left fun row _ => ?_
  by_cases hid : row.id = id <;> simp [hid]

private theorem mem_markAll (now : Int) (ids : List Nat) {rows : List OutboxEventRow}
    {row : OutboxEventRow} (hrow : row ∈ rows) :
    ∃ publishedAt, { row with publishedAt } ∈ markAll now ids rows := by
  by_cases hid : row.id ∈ ids
  · exact ⟨some now,mem_updateWhere.mpr ⟨row,hrow,by simp [hid]⟩⟩
  · exact ⟨row.publishedAt,mem_updateWhere.mpr ⟨row,hrow,by simp [hid]⟩⟩

/-- The rows that the broker takes. -/
def taken (rejects : BrokerEvent → Bool) (rows : List OutboxEventRow) : List OutboxEventRow :=
  rows.filter fun row => !row.stuck rejects

private theorem taken_cons (rejects : BrokerEvent → Bool) (row : OutboxEventRow)
    (rows : List OutboxEventRow) : taken rejects (row::rows) =
      if rejects row.brokerEvent then taken rejects rows else row::taken rejects rows := by
  unfold taken OutboxEventRow.stuck
  cases h : rejects row.brokerEvent <;> simp [h]

theorem row_run {result : DrainOutboxResult} {row : OutboxEventRow} {rest : List OutboxEventRow}
    (hc : w.call n = some (.drain limit (.publishing result row rest)))
    (hrun : run ordersStep w (rowSchedule rejects n row) = some w') :
    (∃ result', w'.call n = some (.drain limit (.next result' rest))) ∧ w'.clock = w.clock ∧
      w'.outboxEvents =
        markAll w.clock ((taken rejects [row]).map OutboxEventRow.id) w.outboxEvents ∧
      w'.delivered = w.delivered ++ (taken rejects [row]).map fun row => (n,row.brokerEvent) := by
  unfold rowSchedule at hrun
  rw [taken_cons]
  split at hrun
  · rename_i hstuck
    obtain ⟨v,hfail,hend⟩ := run_cons_some hrun
    obtain rfl : v = w' := by simpa using hend
    simp only [ordersStep,hc,OrdersWorld.failRequest] at hfail
    cases hfail
    rw [if_pos hstuck]
    exact ⟨⟨_,Function.update_self _ _ _⟩,rfl,(markAll_nil ..).symm,(List.append_nil _).symm⟩
  · rename_i hstuck
    obtain ⟨v,hpublish,hrest⟩ := run_cons_some hrun
    simp only [ordersStep,hc,OrdersWorld.query,OrdersWorld.drainOutbox] at hpublish
    cases hpublish
    obtain ⟨u,hmark,hend⟩ := run_cons_some hrest
    obtain rfl : u = w' := by simpa using hend
    have hmarking : (w.deliver n row.brokerEvent (.drain limit (.marking result row rest))).call n =
        some (.drain limit (.marking result row rest)) := Function.update_self _ _ _
    simp only [ordersStep,hmarking,OrdersWorld.query,OrdersWorld.drainOutbox] at hmark
    cases hmark
    rw [if_neg hstuck]
    exact ⟨⟨_,Function.update_self _ _ _⟩,rfl,(markAll_singleton ..).symm,rfl⟩

theorem loop_run (rows : List OutboxEventRow) {w : OrdersWorld} {result : DrainOutboxResult}
    (hc : w.call n = some (.drain limit (.next result rows)))
    (hrun : run ordersStep w (rows.flatMap (rowSchedule rejects n)) = some w') :
    w'.outboxEvents =
        markAll w.clock ((taken rejects rows).map OutboxEventRow.id) w.outboxEvents ∧
      w'.delivered = w.delivered ++ (taken rejects rows).map fun row => (n,row.brokerEvent) := by
  induction rows generalizing w result with
  | nil =>
    obtain rfl : w = w' := by simpa using hrun
    exact ⟨(markAll_nil ..).symm,(List.append_nil _).symm⟩
  | cons row rows ih =>
    rw [List.flatMap_cons,run_append] at hrun
    obtain ⟨v,hrow,hrest⟩ := Option.bind_eq_some_iff.mp hrun
    obtain ⟨⟨result',hc'⟩,hclock,hevents,hdelivered⟩ := row_run hc hrow
    obtain ⟨hevents',hdelivered'⟩ := ih hc' hrest
    have hsplit : taken rejects (row::rows) = taken rejects [row] ++ taken rejects rows := by
      rw [taken_cons,taken_cons]
      split <;> rfl
    rw [hevents',hdelivered',hclock,hevents,hdelivered,hsplit,List.map_append,List.map_append,
      markAll_append,List.append_assoc]
    exact ⟨rfl,rfl⟩

theorem drain_run {ordered : List OutboxEventRow}
    (hrun : run ordersStep w (drainSchedule rejects limit n ordered) = some w') :
    ordered.Perm w.unpublished ∧ (ordered.Pairwise fun r q => r.createdAt ≤ q.createdAt) ∧
      w'.outboxEvents = markAll w.clock
        ((taken rejects (ordered.take limit)).map OutboxEventRow.id) w.outboxEvents ∧
      w'.delivered = w.delivered ++
        (taken rejects (ordered.take limit)).map fun row => (n,row.brokerEvent) := by
  obtain ⟨v,hstart,hselected⟩ := run_cons_some hrun
  obtain ⟨u,hselect,hrows⟩ := run_cons_some hselected
  simp only [ordersStep] at hstart
  split at hstart
  · cases hstart
  · cases hstart
    have hselecting : (w.put n (OrderRequest.drainOutbox (some limit)).call).call n =
        some (.drain limit .selecting) := Function.update_self _ _ _
    simp only [ordersStep,hselecting] at hselect
    unfold OrdersWorld.selectUnpublished at hselect
    split at hselect
    · rename_i hordered
      have hread := Option.some.inj hselect
      have hnext : u.call n = some (.drain limit (.next ⟨(ordered.take limit).length,[],[]⟩
          (ordered.take limit))) := by
        rw [← hread]
        exact Function.update_self _ _ _
      have hloop := loop_run _ hnext hrows
      rw [← hread] at hloop
      exact ⟨hordered.1,hordered.2,hloop⟩
    · cases hselect

private theorem unpublished_markAll (now : Int) (ids : List Nat) (rows : List OutboxEventRow) :
    (markAll now ids rows).filter (·.publishedAt.isNone) =
      (rows.filter (·.publishedAt.isNone)).filter fun row => row.id ∉ ids := by
  induction rows with
  | nil => rfl
  | cons row rows ih =>
    have hcons : markAll now ids (row::rows) =
        (if row.id ∈ ids then { row with publishedAt := some now } else row)::markAll now ids rows := by
      simp [markAll,updateWhere]
    rw [hcons,List.filter_cons,List.filter_cons,ih]
    by_cases hid : row.id ∈ ids <;> cases hpublished : row.publishedAt <;> simp [hid,hpublished]

/-- A drain by itself is a round over the head of the unpublished events. -/
theorem drain_round {ordered : List OutboxEventRow}
    (hids : (w.outboxEvents.map OutboxEventRow.id).Nodup)
    (hrun : run ordersStep w (drainSchedule rejects limit n ordered) = some w') :
    Round (OutboxEventRow.stuck rejects) OutboxEventRow.createdAt limit w.unpublished
      w'.unpublished := by
  obtain ⟨hperm,hsorted,hevents,_⟩ := drain_run hrun
  refine ⟨ordered,hperm,hsorted,?_⟩
  have hnodup : (ordered.map OutboxEventRow.id).Nodup :=
    ((hperm.map _).nodup_iff).mpr (hids.sublist (List.filter_sublist.map _))
  rw [OrdersWorld.unpublished,hevents,unpublished_markAll]
  change List.Perm (w.unpublished.filter _) _
  have hsplit : ∀ p : OutboxEventRow → Bool, ordered.filter p =
      (ordered.take limit).filter p ++ (ordered.drop limit).filter p := by
    intro p
    rw [← List.filter_append,List.take_append_drop]
  refine (hperm.symm.filter _).trans (List.Perm.of_eq ?_)
  rw [hsplit]
  have htake := hnodup
  rw [← List.take_append_drop limit ordered,List.map_append,List.nodup_append'] at htake
  congr 1
  · refine List.filter_congr fun row hrow => ?_
    have htaken : row.id ∈ (taken rejects (ordered.take limit)).map OutboxEventRow.id ↔
        row.stuck rejects = false := by
      constructor
      · intro hmem
        obtain ⟨q,hq,heq⟩ := List.mem_map.mp hmem
        obtain ⟨hqtake,hqstuck⟩ := List.mem_filter.mp hq
        rw [← eq_of_key_eq htake.1 hqtake hrow heq]
        simpa using hqstuck
      · intro hstuck
        exact List.mem_map_of_mem (List.mem_filter.mpr ⟨hrow,by rw [hstuck]; rfl⟩)
    cases hstuck : row.stuck rejects <;> simp [htaken,hstuck]
  · refine List.filter_eq_self.mpr fun row hrow => decide_eq_true fun hmem => ?_
    obtain ⟨q,hq,heq⟩ := List.mem_map.mp hmem
    refine htake.2.2 (List.mem_map_of_mem (List.mem_of_mem_filter hq)) ?_
    rw [heq]
    exact List.mem_map_of_mem hrow

namespace DrainsAlone

theorem reachable (h : DrainsAlone rejects limit k w w')
    (hw : Reachable ordersStep (· = {}) w) : Reachable ordersStep (· = {}) w' := by
  induction h with
  | zero => exact hw
  | wait ms _ ih => exact .next (ih hw) trivial (show ordersStep _ (.advance ms) = _ from rfl)
  | drain n ordered _ hrun ih => exact (ih hw).run hrun

private theorem rounds (h : DrainsAlone rejects limit k w w')
    (hw : Reachable ordersStep (· = {}) w) :
    Rounds (OutboxEventRow.stuck rejects) OutboxEventRow.createdAt limit k w.unpublished
      w'.unpublished := by
  induction h with
  | zero => exact .zero _
  | wait ms _ ih => exact ih hw
  | drain n ordered hdrains hrun ih =>
    refine .succ (ih hw) (drain_round ?_ hrun)
    exact (orders_recorded (hdrains.reachable hw)).eventIds

theorem kept (h : DrainsAlone rejects limit k w w') {event : OutboxEventRow}
    (hevent : event ∈ w.outboxEvents) :
    ∃ publishedAt, { event with publishedAt } ∈ w'.outboxEvents := by
  induction h with
  | zero => exact ⟨event.publishedAt,hevent⟩
  | wait ms _ ih => exact ih hevent
  | drain n ordered _ hrun ih =>
    obtain ⟨publishedAt,hold⟩ := ih hevent
    obtain ⟨_,_,hevents,_⟩ := drain_run hrun
    rw [hevents]
    obtain ⟨publishedAt',hnew⟩ := mem_markAll _ _ hold
    exact ⟨publishedAt',hnew⟩

end DrainsAlone

private theorem taken_subset (rejects : BrokerEvent → Bool) (limit : Nat)
    {ordered : List OutboxEventRow}
    (hperm : ordered.Perm w.unpublished) :
    taken rejects (ordered.take limit) ⊆ w.unpublished :=
  fun _ hrow => hperm.subset (List.mem_of_mem_take (List.mem_of_mem_filter hrow))

private theorem unpublished_known {row : OutboxEventRow} (hrow : row ∈ w.unpublished) :
    row.intent ∈ w.intents :=
  OrdersWorld.mem_intents (List.mem_of_mem_filter hrow)

private theorem count_other (hsound : w.DrainSound) {rows : List OutboxEventRow}
    (hrows : rows ⊆ w.unpublished) {event : OutboxEventRow} (hintent : event.intent ∈ w.intents)
    (hid : event.id ∉ rows.map OutboxEventRow.id) :
    (rows.map OutboxEventRow.brokerEvent).count event.brokerEvent = 0 := by
  refine List.count_eq_zero.mpr fun hmem => ?_
  obtain ⟨row,hrow,heq⟩ := List.mem_map.mp hmem
  refine hsound.brokerEvent_ne (unpublished_known (hrows hrow)) hintent ?_ heq
  exact fun hsame => hid (hsame ▸ List.mem_map_of_mem hrow)

private theorem count_own (hsound : w.DrainSound) {rows : List OutboxEventRow}
    (hrows : rows ⊆ w.unpublished) (hn : (rows.map OutboxEventRow.id).Nodup)
    {event : OutboxEventRow} (hevent : event ∈ rows) :
    (rows.map OutboxEventRow.brokerEvent).count event.brokerEvent = 1 := by
  refine List.count_eq_one_of_mem ?_ (List.mem_map_of_mem hevent)
  refine List.Nodup.map_on (fun row hrow q hq heq => ?_) hn.of_map
  by_contra hne
  have hid : row.id ≠ q.id := fun hid => hne (eq_of_key_eq hn hrow hq hid)
  exact hsound.brokerEvent_ne (unpublished_known (hrows hrow)) (unpublished_known (hrows hq)) hid heq

private theorem deliveriesOf_drain {ordered : List OutboxEventRow}
    (hrun : run ordersStep w (drainSchedule rejects limit n ordered) = some w')
    (event : OutboxEventRow) : w'.deliveriesOf event = w.deliveriesOf event +
      ((taken rejects (ordered.take limit)).map OutboxEventRow.brokerEvent).count
        event.brokerEvent := by
  obtain ⟨_,_,_,hdelivered⟩ := drain_run hrun
  rw [OrdersWorld.deliveriesOf,hdelivered,List.map_append,List.count_append,List.map_map]
  rfl

private theorem DrainsAlone.delivered (h : DrainsAlone rejects limit k w w')
    (hw : Reachable ordersStep (· = {}) w) {event : OutboxEventRow}
    (hevent : event ∈ w.unpublished) :
    event ∈ w'.unpublished ∧ w'.deliveriesOf event = w.deliveriesOf event ∨
      event ∉ w'.unpublished ∧ w'.deliveriesOf event = w.deliveriesOf event + 1 := by
  induction h with
  | zero => exact .inl ⟨hevent,rfl⟩
  | wait ms _ ih => exact ih hw hevent
  | @drain k w w' w'' n ordered hdrains hrun ih =>
    have hsound := OrdersWorld.DrainSound.reachable (hdrains.reachable hw)
    have hids := (orders_recorded (hdrains.reachable hw)).eventIds
    have hround := drain_round hids hrun
    obtain ⟨hperm,_,hevents,_⟩ := drain_run hrun
    have hdeliveries := deliveriesOf_drain hrun event
    have htaken := taken_subset rejects limit hperm
    obtain ⟨hrow,hnone⟩ := List.mem_filter.mp hevent
    have hnone : event.publishedAt = none := by simpa using hnone
    obtain ⟨publishedAt,hkept⟩ := hdrains.kept hrow
    have hintent : event.intent ∈ w'.intents := by
      have hkeptIntent := OrdersWorld.mem_intents hkept
      exact hkeptIntent
    have hunpublished : w''.unpublished = w'.unpublished.filter fun row =>
        row.id ∉ (taken rejects (ordered.take limit)).map OutboxEventRow.id := by
      rw [OrdersWorld.unpublished,hevents,unpublished_markAll]
      rfl
    rcases ih hw hevent with ⟨hon,hcount⟩ | ⟨hoff,hcount⟩
    · by_cases hid : event.id ∈ (taken rejects (ordered.take limit)).map OutboxEventRow.id
      · refine .inr ⟨?_,?_⟩
        · rw [hunpublished]
          exact fun hmem => of_decide_eq_true (List.mem_filter.mp hmem).2 hid
        · obtain ⟨row,hmem,heq⟩ := List.mem_map.mp hid
          have hsame := eq_of_key_eq hids (List.mem_of_mem_filter (htaken hmem))
            (List.mem_of_mem_filter hon) heq
          have hnodup : ((taken rejects (ordered.take limit)).map OutboxEventRow.id).Nodup := by
            have hordered := (hperm.map OutboxEventRow.id).nodup_iff.mpr
              (hids.sublist (List.filter_sublist.map _))
            exact hordered.sublist
              ((List.filter_sublist.trans (List.take_sublist _ _)).map OutboxEventRow.id)
          rw [hdeliveries,count_own hsound htaken hnodup (hsame ▸ hmem),hcount]
      · refine .inl ⟨?_,?_⟩
        · rw [hunpublished]
          exact List.mem_filter.mpr ⟨hon,decide_eq_true hid⟩
        · rw [hdeliveries,count_other hsound htaken hintent hid,hcount,Nat.add_zero]
    · have hid : event.id ∉ (taken rejects (ordered.take limit)).map OutboxEventRow.id := by
        intro hmem
        obtain ⟨row,hmem,heq⟩ := List.mem_map.mp hmem
        obtain ⟨hin,hrowNone⟩ := List.mem_filter.mp (htaken hmem)
        have hsame : row = { event with publishedAt } := eq_of_key_eq hids hin hkept heq
        have hpublishedAt : publishedAt = none := by
          rw [hsame] at hrowNone
          simpa using hrowNone
        have hsame : row = event := by rw [hsame,hpublishedAt,← hnone]
        exact hoff (hsame ▸ htaken hmem)
      refine .inr ⟨fun hmem => hoff (hround.mem_of_mem hmem),?_⟩
      rw [hdeliveries,count_other hsound htaken hintent hid,hcount]

/-- Whether an event is marked can be read off the list. -/
theorem DrainsAlone.isPublished_iff (h : DrainsAlone rejects limit k w w')
    (hw : Reachable ordersStep (· = {}) w) {event : OutboxEventRow}
    (hevent : event ∈ w.unpublished) : w'.IsPublished event.id ↔ event ∉ w'.unpublished := by
  have hids := (orders_recorded (h.reachable hw)).eventIds
  obtain ⟨hrow,hnone⟩ := List.mem_filter.mp hevent
  have hnone : event.publishedAt = none := by simpa using hnone
  obtain ⟨publishedAt,hkept⟩ := h.kept hrow
  constructor
  · rintro ⟨row,hin,hid,hsome⟩ hmem
    rw [eq_of_key_eq hids hin (List.mem_of_mem_filter hmem) hid,hnone] at hsome
    cases hsome
  · intro hoff
    refine ⟨_,hkept,rfl,?_⟩
    cases publishedAt with
    | some _ => rfl
    | none =>
      rw [← hnone] at hkept
      exact absurd (List.mem_filter.mpr ⟨hkept,by rw [hnone]; rfl⟩) hoff

/-- After `k` drains by themselves an event has been published once, and delivered once, or is as it
was. An event that the broker takes is published in time if fewer than `limit` events that it does
not take are in the way, and never if `limit` of them are ahead. -/
theorem drainOutbox_progress (hw : Reachable ordersStep (· = {}) w)
    (h : DrainsAlone rejects limit k w w') {event : OutboxEventRow}
    (hevent : event ∈ w.unpublished) :
    (w'.IsPublished event.id ∧ w'.deliveriesOf event = w.deliveriesOf event + 1 ∨
      ¬ w'.IsPublished event.id ∧ w'.deliveriesOf event = w.deliveriesOf event) ∧
    (rejects event.brokerEvent = true ∨
      limit ≤ ahead (OutboxEventRow.stuck rejects) OutboxEventRow.createdAt event w.unpublished →
        ¬ w'.IsPublished event.id) ∧
    (rejects event.brokerEvent = false →
      blocking (OutboxEventRow.stuck rejects) OutboxEventRow.createdAt event w.unpublished < limit →
      waiting (OutboxEventRow.stuck rejects) OutboxEventRow.createdAt event w.unpublished ≤
        k * (limit -
          blocking (OutboxEventRow.stuck rejects) OutboxEventRow.createdAt event w.unpublished) →
      w'.IsPublished event.id) := by
  have hrounds := h.rounds hw
  have hiff := h.isPublished_iff hw hevent
  refine ⟨?_,?_,?_⟩
  · rcases h.delivered hw hevent with ⟨hon,hcount⟩ | ⟨hoff,hcount⟩
    · exact .inr ⟨fun hpublished => hiff.mp hpublished hon,hcount⟩
    · exact .inl ⟨hiff.mpr hoff,hcount⟩
  · rintro (hrejects | hahead) hpublished
    · refine hiff.mp hpublished ?_
      have hpos : 0 < w'.unpublished.countP fun q => OutboxEventRow.stuck rejects q && q == event := by
        rw [hrounds.countP_stuck fun q hq => (Bool.and_eq_true _ _ ▸ hq).1]
        refine List.countP_pos_iff.mpr ⟨event,hevent,?_⟩
        rw [OutboxEventRow.stuck,hrejects]
        simp
      obtain ⟨q,hq,heq⟩ := List.countP_pos_iff.mp hpos
      have hsame : q = event := beq_iff_eq.mp (Bool.and_eq_true _ _ ▸ heq).2
      exact hsame ▸ hq
    · exact hiff.mp hpublished (hrounds.starved hevent hahead)
  · intro hrejects hlimit hrun
    exact hiff.mpr (hrounds.served hrejects hrun hlimit)

/-- Three orders, ten milliseconds apart, each with its event. -/
def threeOrders : List OrdersEvent :=
  ["Ada","Grace","Edsger"].zipIdx.flatMap fun (customerName,n) =>
    .start n (.performTransactionalOrderCreation ⟨customerName,3200,false⟩)::
      List.replicate 5 (.query n) ++ [.advance 10]

def laterEvent (id : Nat) (createdAt : Int) : OutboxEventRow :=
  { adasEvent with id, aggregateId := id, payload := .ofOrder id 3200, createdAt }

def rejectsAda (event : BrokerEvent) : Bool := event.aggregateId == 1

/-- Ada's event is rejected whenever it is handed over. Behind it, two drains of two events publish
the other two, and two drains of one event publish nothing. -/
theorem rejectedAhead_progress : ∃ w two one : OrdersWorld,
    w.unpublished = [adasEvent,laterEvent 2 10,laterEvent 3 20] ∧
    (DrainsAlone rejectsAda 2 2 w two ∧ two.IsPublished 3 ∧
      two.deliveriesOf (laterEvent 3 20) = w.deliveriesOf (laterEvent 3 20) + 1) ∧
    DrainsAlone rejectsAda 1 2 w one ∧ ¬ one.IsPublished 3 := by
  let all : List OutboxEventRow := [adasEvent,laterEvent 2 10,laterEvent 3 20]
  have hstart : (run ordersStep {} threeOrders).any (fun w => w.unpublished == all &&
      ((run ordersStep w (drainSchedule rejectsAda 2 3 all)).bind fun v =>
        run ordersStep v (drainSchedule rejectsAda 2 4 [adasEvent,laterEvent 3 20])).isSome &&
      ((run ordersStep w (drainSchedule rejectsAda 1 3 all)).bind fun v =>
        run ordersStep v (drainSchedule rejectsAda 1 4 all)).isSome) = true := by
    decide +kernel
  obtain ⟨w,_,hresult,hreachable⟩ := exists_run_of_any hstart
  simp only [Bool.and_eq_true,beq_iff_eq,Option.isSome_iff_exists,Option.bind_eq_some_iff] at hresult
  obtain ⟨⟨hlist,two,v,hfirst,hsecond⟩,one,u,hfirst',hsecond'⟩ := hresult
  have hevent : laterEvent 3 20 ∈ w.unpublished := by simp [hlist,all]
  have htwo : DrainsAlone rejectsAda 2 2 w two := .drain 4 _ (.drain 3 _ (.zero w) hfirst) hsecond
  have hone : DrainsAlone rejectsAda 1 2 w one := .drain 4 _ (.drain 3 _ (.zero w) hfirst') hsecond'
  obtain ⟨hcounted,_,hserved⟩ := drainOutbox_progress hreachable htwo hevent
  obtain ⟨_,hstarved,_⟩ := drainOutbox_progress hreachable hone hevent
  have hin : two.IsPublished 3 := by
    apply hserved rfl
    · rw [hlist]
      decide
    · rw [hlist]
      decide
  refine ⟨w,two,one,hlist,⟨htwo,hin,?_⟩,hone,hstarved (.inr ?_)⟩
  · rcases hcounted with hpublished | hnot
    · exact hpublished.2
    · exact absurd hin hnot.1
  · rw [hlist]
    decide

end SystemsLab.OrderOutbox
