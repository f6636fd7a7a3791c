import SystemsLab.Capstone.CheckoutSafety
import SystemsLab.Capstone.Notified
import SystemsLab.Framework.Issued

/-!
# From the checkout to the notification

Checkouts and protected workers share one database: an event that a checkout has committed is there
for the workers to claim. However they interleave, a notification is sent only for a committed order,
with what that order says, and all of those sent under one idempotency key are for one event.
-/

namespace SystemsLab.Capstone

open SystemsLab.Outbox SystemsLab.Resilience

/-- `checkout.outbox` holds the events as they were inserted, `pipeline.rows` as they are now. -/
structure CapstoneWorld where
  checkout : CheckoutWorld
  pipeline : PipelineWorld

inductive CapstoneEvent
  | checkout (event : CheckoutEvent)
  | worker (event : PipelineEvent)

def capstoneStep (f : Fleet) (w : CapstoneWorld) : CapstoneEvent → Option CapstoneWorld
  | .checkout e => (checkoutStep w.checkout e).map fun checkout =>
      let inserted := checkout.outbox.drop w.checkout.outbox.length
      { checkout, pipeline := { w.pipeline with rows := w.pipeline.rows ++ inserted } }
  | .worker e => (pipelineStep f w.pipeline e).map fun pipeline => { w with pipeline }

/-- Seats on sale, and no orders yet. -/
def CapstoneWorld.Fresh (w : CapstoneWorld) : Prop :=
  w.checkout.Fresh ∧ w.pipeline.Fresh ∧ w.pipeline.rows = []

/-- What the event of an order says. -/
def OrderRow.payload (order : OrderRow) : EventPayload where
  orderPublicId := order.publicId
  correlationId := order.correlationId
  customerEmail := order.customerEmail
  amountCents := order.amountCents

structure CapstoneWorld.EndToEnd (w : CapstoneWorld) : Prop where
  keys : (w.checkout.orders.map OrderRow.idempotencyKey).Nodup
  confirmed : ∀ order ∈ w.checkout.orders,
    w.pipeline.rows.countP (·.payload.orderPublicId == order.publicId) = 1
  ordered : ∀ row ∈ w.pipeline.rows, ∃ order ∈ w.checkout.orders, row.payload = order.payload
  sent : ∀ s ∈ w.pipeline.sends, ∃ row ∈ w.pipeline.rows, row.id = s.eventId ∧
    ∃ order ∈ w.checkout.orders, row.payload = order.payload ∧ order.publicId = s.dedupeKey
  once : ∀ s ∈ w.pipeline.sends, ∀ t ∈ w.pipeline.sends, ∀ order ∈ w.checkout.orders,
    ∀ other ∈ w.checkout.orders, order.publicId = s.dedupeKey → other.publicId = t.dedupeKey →
      order.idempotencyKey = other.idempotencyKey → s.eventId = t.eventId
  notified : ∀ orderPublicId, w.pipeline.Notified orderPublicId →
    ∃ order ∈ w.checkout.orders, order.publicId = orderPublicId
  published : ∀ row ∈ w.pipeline.rows, row.status = .published →
    w.pipeline.Notified row.payload.orderPublicId

/-- The id of the event that an open transaction has inserted. -/
def CheckoutCall.emitted (c : CheckoutCall) : Option Nat :=
  match c.phase with
  | .committing event => some event.id
  | _ => none

inductive EmitMove (w : CheckoutWorld) : CheckoutWorld → Prop
  | kept {w' : CheckoutWorld} : w'.outbox = w.outbox → w'.commits = w.commits →
      w'.outboxSeq = w.outboxSeq → (∀ n c, w'.call n = some c → c.emitted ≠ none →
        w.call n = some c) → EmitMove w w'
  | emitted (n : Nat) (c : CheckoutCall) (uuid : String) : w.call n = some c →
      EmitMove w { w.put n { c with phase := .committing (c.orderConfirmed w.outboxSeq uuid) } with
        outboxSeq := w.outboxSeq + 1 }
  | committed (n : Nat) (c : CheckoutCall) (event : OutboxRow EventPayload) :
      w.call n = some c → c.phase = .committing event → EmitMove w (w.commitOrder n c event)

variable {w w' : CheckoutWorld} {n : Nat} {c : CheckoutCall} {f : Fleet}

private theorem EmitMove.of_put {d : CheckoutCall} (houtbox : w'.outbox = w.outbox)
    (hcommits : w'.commits = w.commits) (hseq : w'.outboxSeq = w.outboxSeq)
    (hcall : w'.call = Function.update w.call n (some d)) (hd : d.emitted = none) :
    EmitMove w w' := by
  refine .kept houtbox hcommits hseq fun m b hb hemitted => ?_
  rw [hcall] at hb
  rcases update_eq_some hb with ⟨_,rfl⟩ | ⟨_,hb⟩
  · exact absurd hd hemitted
  · exact hb

private theorem insertOrder_emit (h : insertOrder w n c = some w') : EmitMove w w' := by
  simp only [insertOrder] at h
  split at h
  · cases h
    exact .of_put rfl rfl rfl rfl rfl
  · split at h
    · cases h
      exact .of_put rfl rfl rfl rfl rfl
    · split at h
      · cases h
      · split at h
        · cases h
          exact .of_put rfl rfl rfl rfl rfl
        · split at h
          · cases h
          · split at h <;> cases h <;> exact .of_put rfl rfl rfl rfl rfl

private theorem updateSeat_emit (h : updateSeat w n c = some w') : EmitMove w w' := by
  unfold updateSeat at h
  split at h
  · split at h <;> cases h
    exact .of_put rfl rfl rfl rfl rfl
  · cases h
    exact .of_put rfl rfl rfl rfl rfl

private theorem checkoutIdempotent_emit {uuid : String} (hc : w.call n = some c)
    (h : checkoutIdempotent w n c uuid = some w') : EmitMove w w' := by
  unfold checkoutIdempotent at h
  split at h
  · exact insertOrder_emit h
  · exact updateSeat_emit h
  · cases h
    exact .emitted n c uuid hc
  · rename_i event hp
    cases h
    exact .committed n c event hc hp
  all_goals cases h <;> exact .of_put rfl rfl rfl rfl rfl

private theorem checkoutStep_emit {e : CheckoutEvent} (h : checkoutStep w e = some w') :
    EmitMove w w' := by
  cases e with
  | reserve opts token now =>
    simp only [checkoutStep,reserveSeat] at h
    split at h
    · split at h
      · split at h <;> cases h
        exact .kept rfl rfl rfl fun _ _ hb _ => hb
      · cases h
        exact .kept rfl rfl rfl fun _ _ hb _ => hb
    · cases h
  | start n input uuid =>
    simp only [checkoutStep] at h
    split at h <;> cases h
    exact .of_put rfl rfl rfl rfl rfl
  | query n uuid =>
    simp only [checkoutStep] at h
    split at h
    · rename_i c hc
      exact checkoutIdempotent_emit hc h
    · cases h
  | abort n =>
    simp only [checkoutStep] at h
    split at h
    · split at h <;> cases h
      exact .of_put rfl rfl rfl rfl rfl
    · cases h
  | advance us =>
    cases h
    exact .kept rfl rfl rfl fun _ _ hb _ => hb

structure CheckoutWorld.Emits (w : CheckoutWorld) : Prop where
  ids : ∃ first, Issued first (w.outbox.map OutboxRow.id) (heldBy CheckoutCall.emitted w.call)
    w.outboxSeq
  events : ∀ n c event, w.call n = some c → c.phase = .committing event →
    ∃ id uuid, event = c.orderConfirmed id uuid
  payloads : ∀ x ∈ w.commits, x.event.payload = x.order.payload
  pending : ∀ event ∈ w.outbox, event.status = .pending

private theorem CheckoutCall.emitted_eq {event : OutboxRow EventPayload}
    (h : c.phase = .committing event) :
    c.emitted = some event.id := by
  rw [CheckoutCall.emitted,h]

namespace CheckoutWorld.Emits

theorem start (h : w.Fresh) : w.Emits := by
  obtain ⟨_,_,_,houtbox,_,_,_,hcall,hcommits⟩ := h
  have hidle : heldBy CheckoutCall.emitted w.call = fun _ => none := by
    rw [hcall]
    rfl
  refine ⟨⟨w.outboxSeq,?_⟩,?_,?_,?_⟩
  · rw [houtbox,hidle]
    exact .start w.outboxSeq
  · intro n c event hc
    rw [hcall] at hc
    cases hc
  · rw [hcommits]
    exact fun _ hx => absurd hx List.not_mem_nil
  · rw [houtbox]
    exact fun _ hx => absurd hx List.not_mem_nil

theorem move (h : w.Emits) (hmove : EmitMove w w') : w'.Emits := by
  obtain ⟨first,hids⟩ := h.ids
  cases hmove with
  | kept houtbox hcommits hseq hkept =>
    refine ⟨⟨first,?_⟩,fun n c event hc hp => ?_,?_,?_⟩
    · rw [houtbox,hseq]
      refine hids.release fun n id hn => ?_
      obtain ⟨c,hc,hemitted⟩ := Option.bind_eq_some_iff.mp hn
      exact (heldBy_eq (hkept n c hc (by rw [hemitted]; nofun))).trans hemitted
    · refine h.events n c event (hkept n c hc ?_) hp
      rw [CheckoutCall.emitted_eq hp]
      nofun
    · rw [hcommits]
      exact h.payloads
    · rw [houtbox]
      exact h.pending
  | emitted n c uuid hc =>
    refine ⟨⟨first,?_⟩,fun m b event hb hp => ?_,h.payloads,h.pending⟩
    · refine hids.reserve (k := n) fun m id hm => ?_
      rcases heldBy_update hm with ⟨hmn,hid⟩ | ⟨_,hold⟩
      · exact .inl ⟨hmn,(Option.some.inj hid).symm⟩
      · exact .inr hold
    · rcases update_eq_some hb with ⟨_,rfl⟩ | ⟨_,hb⟩
      · exact ⟨w.outboxSeq,uuid,(CheckoutPhase.committing.inj hp).symm⟩
      · exact h.events m b event hb hp
  | committed n c event hc hp =>
    obtain ⟨id,uuid,hevent⟩ := h.events n c event hc hp
    refine ⟨⟨first,?_⟩,fun m b other hb hother => ?_,fun x hx => ?_,fun row hrow => ?_⟩
    · change Issued first ((w.outbox ++ [event]).map OutboxRow.id) _ _
      rw [List.map_append]
      refine hids.settle ((heldBy_eq hc).trans (CheckoutCall.emitted_eq hp)) fun m i hm => ?_
      rcases heldBy_update hm with ⟨_,hnone⟩ | hold
      · cases hnone
      · exact hold
    · rcases update_eq_some hb with ⟨_,rfl⟩ | ⟨_,hb⟩
      · cases hother
      · exact h.events m b other hb hother
    · rcases List.mem_append.mp hx with hx | hx
      · exact h.payloads x hx
      · rw [List.mem_singleton.mp hx,hevent]
        rfl
    · rcases List.mem_append.mp hrow with hrow | hrow
      · exact h.pending row hrow
      · rw [List.mem_singleton.mp hrow,hevent]
        rfl

end CheckoutWorld.Emits

private theorem EmitMove.outbox (hmove : EmitMove w w') : ∃ more, w'.outbox = w.outbox ++ more := by
  cases hmove with
  | kept houtbox => exact ⟨[],houtbox.trans (List.append_nil _).symm⟩
  | emitted => exact ⟨[],(List.append_nil _).symm⟩
  | committed n c event => exact ⟨[event],rfl⟩

structure CapstoneWorld.Sound (w : CapstoneWorld) : Prop where
  checkout : w.checkout.Sound
  emits : w.checkout.Emits
  traced : w.pipeline.Traced
  rows : w.pipeline.rows.map eventKey = w.checkout.outbox.map eventKey

namespace CapstoneWorld.Sound

variable {w w' : CapstoneWorld}

theorem start (h : w.Fresh) : w.Sound := by
  obtain ⟨hcheckout,⟨hids,hworker,_,hsends,houtcome,hcallLog,_,_,_⟩,hrows⟩ := h
  refine ⟨sound_of_fresh hcheckout,.start hcheckout,⟨hids,?_,fun v => ?_,?_,?_,?_,?_⟩,?_⟩
  · intro row hrow
    rw [hrows] at hrow
    cases hrow
  · rw [hworker]
    exact .of_plain rfl nofun
  · intro s hs
    rw [hsends] at hs
    cases hs
  · rw [houtcome]
    nofun
  · rw [houtcome]
    nofun
  · intro entry hentry
    rw [hcallLog] at hentry
    cases hentry
  · rw [hrows,hcheckout.2.2.2.1]

theorem step {e : CapstoneEvent} (h : w.Sound) (hstep : capstoneStep f w e = some w') :
    w'.Sound := by
  cases e with
  | checkout e =>
    obtain ⟨checkout,hcheckout,rfl⟩ := Option.map_eq_some_iff.mp hstep
    have hmove := checkoutStep_move hcheckout
    have hemit := checkoutStep_emit hcheckout
    have hemits := h.emits.move hemit
    obtain ⟨more,hmore⟩ := hemit.outbox
    have hinserted : checkout.outbox.drop w.checkout.outbox.length = more := by
      rw [hmore,List.drop_left]
    have hkeys : (w.pipeline.rows ++ more).map eventKey = checkout.outbox.map eventKey := by
      rw [hmore,List.map_append,List.map_append,h.rows]
    have hids : ((w.pipeline.rows ++ more).map OutboxRow.id).Nodup := by
      obtain ⟨first,hissued⟩ := hemits.ids
      have hfst := congrArg (List.map Prod.fst) hkeys
      rw [List.map_map,List.map_map] at hfst
      exact hfst ▸ hissued.nodup
    refine ⟨⟨h.checkout.locked.move hmove,h.checkout.booked.move h.checkout.locked hmove,
      h.checkout.recorded.move h.checkout.locked hmove⟩,hemits,?_,?_⟩
    · dsimp only
      rw [hinserted]
      refine h.traced.insert hids fun row hrow => hemits.pending row ?_
      rw [hmore]
      exact List.mem_append_right _ hrow
    · dsimp only
      rw [hinserted]
      exact hkeys
  | worker e =>
    obtain ⟨pipeline,hpipeline,rfl⟩ := Option.map_eq_some_iff.mp hstep
    exact ⟨h.checkout,h.emits,h.traced.step hpipeline,
      (pipelineStep_keys hpipeline).trans h.rows⟩

theorem reachable (h : Reachable (capstoneStep f) Fresh w) : w.Sound :=
  ReachableBy.invariant (fun _ => start) (fun _ _ _ hs _ hstep => hs.step hstep) h

private theorem payloads (h : w.Sound) :
    w.pipeline.rows.map OutboxRow.payload = w.checkout.orders.map OrderRow.payload := by
  have hrecorded := h.checkout.recorded
  have hsnd := congrArg (List.map Prod.snd) h.rows
  rw [List.map_map,List.map_map] at hsnd
  refine Eq.trans hsnd ?_
  rw [hrecorded.outbox,hrecorded.orders,List.map_map,List.map_map]
  exact List.map_congr_left h.emits.payloads

private theorem publicIds (h : w.Sound) :
    w.pipeline.rows.map (·.payload.orderPublicId) = w.checkout.orders.map OrderRow.publicId := by
  have hids := congrArg (List.map EventPayload.orderPublicId) h.payloads
  rw [List.map_map,List.map_map] at hids
  exact hids

private theorem publicIds_nodup (h : w.Sound) :
    (w.pipeline.rows.map (·.payload.orderPublicId)).Nodup := by
  rw [h.publicIds]
  exact h.checkout.locked.publicIds.nodup

private theorem ordered (h : w.Sound) {row : OutboxRow EventPayload}
    (hrow : row ∈ w.pipeline.rows) :
    ∃ order ∈ w.checkout.orders, row.payload = order.payload := by
  have hmem : row.payload ∈ w.checkout.orders.map OrderRow.payload :=
    h.payloads ▸ List.mem_map_of_mem hrow
  obtain ⟨order,horder,heq⟩ := List.mem_map.mp hmem
  exact ⟨order,horder,heq.symm⟩

private theorem sent (h : w.Sound) {s : SendCall} (hs : s ∈ w.pipeline.sends) :
    ∃ row ∈ w.pipeline.rows, row.id = s.eventId ∧ ∃ order ∈ w.checkout.orders,
      row.payload = order.payload ∧ order.publicId = s.dedupeKey := by
  obtain ⟨payload,hknown,hkey⟩ := h.traced.sends s hs
  obtain ⟨row,hrow,heq⟩ := List.mem_map.mp hknown
  obtain ⟨order,horder,hpayload⟩ := h.ordered hrow
  refine ⟨row,hrow,congrArg Prod.fst heq,order,horder,hpayload,?_⟩
  rw [← hkey,← show row.payload = payload from congrArg Prod.snd heq,hpayload]
  rfl

private theorem endToEnd (h : w.Sound) : w.EndToEnd where
  keys := h.checkout.locked.keys.nodup
  confirmed order horder := by
    have hmem : order.publicId ∈ w.pipeline.rows.map (·.payload.orderPublicId) := by
      rw [h.publicIds]
      exact List.mem_map_of_mem horder
    obtain ⟨row,hrow,hid⟩ := List.mem_map.mp hmem
    rw [← hid]
    exact countP_key_eq_one h.publicIds_nodup hrow
  ordered row hrow := h.ordered hrow
  sent s hs := h.sent hs
  once s hs t ht order horder other hother hkey hkey' hsame := by
    have heq : order = other := eq_of_key_eq h.checkout.locked.keys.nodup horder hother hsame
    obtain ⟨row,hrow,hid,mine,_,hpayload,hmine⟩ := h.sent hs
    obtain ⟨row',hrow',hid',theirs,_,hpayload',htheirs⟩ := h.sent ht
    have hrows : row = row' := by
      refine eq_of_key_eq h.publicIds_nodup hrow hrow' ?_
      rw [hpayload,hpayload']
      change mine.publicId = theirs.publicId
      rw [hmine,htheirs,← hkey,← hkey',heq]
    rw [← hid,← hid',hrows]
  notified orderPublicId hnotified := by
    obtain ⟨entry,hentry,hkey,_⟩ := hnotified
    obtain ⟨s,hs,hsame⟩ := h.traced.logged entry hentry
    obtain ⟨_,_,_,order,horder,_,hid⟩ := h.sent hs
    exact ⟨order,horder,hid.trans (hsame.trans hkey)⟩
  published := h.traced.published

end CapstoneWorld.Sound

/-- Any number of reservations, checkouts and workers, in any interleaving, with any crashes, clocks
and outcomes of the sends. -/
theorem capstone_endToEnd {w : CapstoneWorld} (h : Reachable (capstoneStep f) CapstoneWorld.Fresh w) :
    w.EndToEnd := (CapstoneWorld.Sound.reachable h).endToEnd

/-- The clicks on one seat, and a worker that notifies the customer. -/
def paidAndNotified : List CapstoneEvent :=
  doubleClick.map .checkout ++ [.worker (.claim "w" 0 (fun _ => false) .acknowledged),
    .worker (.enter "w"),.worker (.settle 0 .success 5),.worker (.resume "w"),
    .worker (.record "w" .acknowledged),.worker (.mark "w" 0 .acknowledged)]

def openingDay : CapstoneWorld := ⟨oneSeat,{ rows := [], clock := 0 }⟩

private theorem openingDay_fresh : openingDay.Fresh :=
  ⟨oneSeat_fresh,⟨List.nodup_nil,rfl,rfl,rfl,rfl,rfl,rfl,rfl,fun _ h => absurd h List.not_mem_nil⟩,rfl⟩

theorem capstone_endToEnd_paidAndNotified : ∃ w : CapstoneWorld,
    w.pipeline.rows.map (·.status) = [.published] ∧ w.EndToEnd := by
  have hend : (run (capstoneStep {}) openingDay paidAndNotified).any
      (·.pipeline.rows.map (·.status) == [.published]) = true := by decide +kernel
  obtain ⟨w,hrun,hpublished,_⟩ := exists_run_of_any hend
  have hreachable : Reachable (capstoneStep {}) CapstoneWorld.Fresh w :=
    Reachable.run (.start openingDay_fresh) hrun
  exact ⟨w,eq_of_beq hpublished,capstone_endToEnd hreachable⟩

end SystemsLab.Capstone
