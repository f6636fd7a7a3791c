import SystemsLab.Capstone.PipelineInvariant
import SystemsLab.Framework.Transition

/-!
# Who is notified

Every send is made for an event of the table, with the public id of that event's order. An event is
marked as published only after a send for its order has succeeded, whatever becomes of the worker
that made it, and whatever the breaker, the timeouts and the retries do in between.
-/

namespace SystemsLab.Capstone

open SystemsLab.Outbox SystemsLab.Resilience

/-- A send for the order has succeeded. -/
def PipelineWorld.Notified (w : PipelineWorld) (orderPublicId : String) : Prop :=
  ∃ entry ∈ w.callLog, entry.dedupeKey = orderPublicId ∧ entry.success = true

/-- What no statement of a worker changes. -/
def eventKey (row : OutboxRow EventPayload) : Nat × EventPayload := (row.id,row.payload)

@[simp] theorem eventKey_claim (workerId : String) (t : Int) (row : OutboxRow EventPayload) :
    eventKey (row.claim workerId t) = eventKey row := rfl

@[simp] theorem eventKey_publish (now : Int) (row : OutboxRow EventPayload) :
    eventKey (row.publish now) = eventKey row := rfl

@[simp] theorem eventKey_fail (row : OutboxRow EventPayload) :
    eventKey row.fail = eventKey row := rfl

/-- An event of the table that is about `payload`. -/
def PipelineWorld.Known (w : PipelineWorld) (id : Nat) (payload : EventPayload) : Prop :=
  (id,payload) ∈ w.rows.map eventKey

/-- Neither waiting for a send nor through with one that has succeeded. -/
def ProtectedPhase.plain : ProtectedPhase → Bool
  | .sending _ _ _ _ _ => false
  | .recordingSuccess _ => false
  | .markingPublished _ => false
  | _ => true

structure ProtectedPhase.Fits (w : PipelineWorld) (phase : ProtectedPhase) : Prop where
  known : ∀ event, phase.event = some event → w.Known event.id event.payload
  awaited : ∀ call event attempt send since, phase = .sending call event attempt send since →
    ∃ s, w.sends.reverse[send]? = some s ∧ s.dedupeKey = event.payload.orderPublicId
  succeeded : ∀ event, phase = .recordingSuccess event ∨ phase = .markingPublished event →
    w.Notified event.payload.orderPublicId

structure PipelineWorld.Traced (w : PipelineWorld) : Prop where
  ids : (w.rows.map OutboxRow.id).Nodup
  published : ∀ row ∈ w.rows, row.status = .published → w.Notified row.payload.orderPublicId
  workers : ∀ v, (w.worker v).phase.Fits w
  sends : ∀ s ∈ w.sends, ∃ payload, w.Known s.eventId payload ∧
    payload.orderPublicId = s.dedupeKey
  made : ∀ send outcome, w.outcome send = some outcome → send < w.sends.length
  settled : ∀ send s, w.sends.reverse[send]? = some s → w.outcome send = some .success →
    w.Notified s.dedupeKey
  logged : ∀ entry ∈ w.callLog, ∃ s ∈ w.sends, s.dedupeKey = entry.dedupeKey

/-- More events, more sends, more calls that have settled. -/
structure Grows (w w' : PipelineWorld) : Prop where
  rows : w.rows.map eventKey <+: w'.rows.map eventKey
  sends : w.sends <:+ w'.sends
  callLog : w.callLog <+: w'.callLog

variable {w w' : PipelineWorld} {f : Fleet} {v : String} {phase : ProtectedPhase}
  {event : ClaimedEvent} {b : ProtectedWorker}

namespace Grows

private theorem known (h : Grows w w') {id : Nat} {payload : EventPayload}
    (hknown : w.Known id payload) :
    w'.Known id payload := h.rows.subset hknown

private theorem notified (h : Grows w w') {orderPublicId : String}
    (hnotified : w.Notified orderPublicId) :
    w'.Notified orderPublicId := by
  obtain ⟨entry,hentry,hsuccess⟩ := hnotified
  exact ⟨entry,h.callLog.subset hentry,hsuccess⟩

private theorem send (h : Grows w w') {send : Nat} {s : SendCall}
    (hs : w.sends.reverse[send]? = some s) :
    w'.sends.reverse[send]? = some s := by
  obtain ⟨more,hmore⟩ := h.sends
  have hlt : send < w.sends.reverse.length := (List.getElem?_eq_some_iff.mp hs).1
  rw [← hmore,List.reverse_append,List.getElem?_append_left hlt,hs]

private theorem fits (h : Grows w w') (hfits : phase.Fits w) : phase.Fits w' where
  known event hevent := h.known (hfits.known event hevent)
  awaited call event attempt index since hphase := by
    obtain ⟨s,hs,hkey⟩ := hfits.awaited call event attempt index since hphase
    exact ⟨s,h.send hs,hkey⟩
  succeeded event hphase := h.notified (hfits.succeeded event hphase)

end Grows

namespace ProtectedPhase.Fits

theorem of_plain (hplain : phase.plain = true)
    (hknown : ∀ event, phase.event = some event → w.Known event.id event.payload) :
    phase.Fits w where
  known := hknown
  awaited call event attempt send since hphase := by
    rw [hphase] at hplain
    cases hplain
  succeeded event hphase := by
    rcases hphase with hphase | hphase <;> rw [hphase] at hplain <;> cases hplain

theorem keep (h : phase.Fits w) {phase' : ProtectedPhase} (hplain : phase'.plain = true)
    (hevent : phase'.event = none ∨ phase'.event = phase.event) : phase'.Fits w := by
  refine .of_plain hplain fun event hbusy => ?_
  rcases hevent with hnone | hsame
  · rw [hnone] at hbusy
    cases hbusy
  · exact h.known event (hsame.symm.trans hbusy)

private theorem notified (hknown : w.Known event.id event.payload)
    (hnotified : w.Notified event.payload.orderPublicId)
    (hphase : phase = .recordingSuccess event ∨ phase = .markingPublished event) :
    phase.Fits w := by
  rcases hphase with rfl | rfl <;> refine ⟨?_,nofun,?_⟩
  all_goals
    intro event' hevent'
    simp only [ProtectedPhase.event,Option.some.injEq,ProtectedPhase.recordingSuccess.injEq,
      ProtectedPhase.markingPublished.injEq,reduceCtorEq,or_false,false_or] at hevent'
    rw [← hevent']
    assumption

end ProtectedPhase.Fits

private theorem claimNextEvent_payload {rows rows' : List (OutboxRow EventPayload)}
    {locked : Nat → Bool}
    {now leaseMs : Int} (h : claimNextEvent rows locked now v leaseMs = (rows',some event)) :
    ∃ old ∈ rows, event.id = old.id ∧ event.payload = old.payload ∧
      rows' = updateWhere (·.id == old.id) (·.claim v (now + leaseMs)) rows := by
  unfold claimNextEvent claimRow at h
  split at h
  · cases h
  · rename_i old hold
    cases h
    exact ⟨old,(selectSkipLocked_some hold).1,rfl,rfl,rfl⟩

namespace PipelineWorld.Traced

private theorem written (h : w.Traced) (hkeys : w'.rows.map eventKey = w.rows.map eventKey)
    (hpublished : ∀ row ∈ w'.rows, row.status = .published → w.Notified row.payload.orderPublicId)
    (hsends : w'.sends = w.sends) (hcallLog : w'.callLog = w.callLog)
    (houtcome : w'.outcome = w.outcome) (hworker : w'.worker = Function.update w.worker v b)
    (hb : b.phase.Fits w) : w'.Traced := by
  have hgrows : Grows w w' :=
    ⟨hkeys ▸ List.prefix_rfl,hsends ▸ List.suffix_rfl,hcallLog ▸ List.prefix_rfl⟩
  have hids : w'.rows.map OutboxRow.id = w.rows.map OutboxRow.id := by
    have hfst := congrArg (List.map Prod.fst) hkeys
    rw [List.map_map,List.map_map] at hfst
    exact hfst
  refine ⟨hids ▸ h.ids,fun row hrow hstatus => hgrows.notified (hpublished row hrow hstatus),
    fun u => ?_,fun s hs => ?_,?_,fun send s hs ho => ?_,?_⟩
  · rw [hworker]
    by_cases hu : u = v
    · rw [hu,Function.update_self]
      exact hgrows.fits hb
    · rw [Function.update_of_ne hu]
      exact hgrows.fits (h.workers u)
  · obtain ⟨payload,hknown,hkey⟩ := h.sends s (hsends ▸ hs)
    exact ⟨payload,hgrows.known hknown,hkey⟩
  · rw [houtcome,hsends]
    exact h.made
  · rw [hsends] at hs
    rw [houtcome] at ho
    exact hgrows.notified (h.settled send s hs ho)
  · rw [hcallLog,hsends]
    exact h.logged

private theorem moved (h : w.Traced) (hrows : w'.rows = w.rows) (hsends : w'.sends = w.sends)
    (hcallLog : w'.callLog = w.callLog) (houtcome : w'.outcome = w.outcome)
    (hworker : w'.worker = Function.update w.worker v b) (hb : b.phase.Fits w) : w'.Traced :=
  h.written (congrArg _ hrows) (hrows ▸ h.published) hsends hcallLog houtcome hworker hb

theorem insert (h : w.Traced) {inserted : List (OutboxRow EventPayload)}
    (hids : ((w.rows ++ inserted).map OutboxRow.id).Nodup)
    (hpending : ∀ row ∈ inserted, row.status = .pending) :
    ({ w with rows := w.rows ++ inserted } : PipelineWorld).Traced := by
  have hgrows : Grows w { w with rows := w.rows ++ inserted } :=
    ⟨List.map_append ▸ List.prefix_append _ _,List.suffix_rfl,List.prefix_rfl⟩
  refine ⟨hids,fun row hrow hstatus => ?_,fun u => hgrows.fits (h.workers u),fun s hs => ?_,
    h.made,h.settled,h.logged⟩
  · rcases List.mem_append.mp hrow with hrow | hrow
    · exact h.published row hrow hstatus
    · rw [hpending row hrow] at hstatus
      cases hstatus
  · obtain ⟨payload,hknown,hkey⟩ := h.sends s hs
    exact ⟨payload,hgrows.known hknown,hkey⟩

private theorem sent (h : w.Traced) {s : SendCall} (hrows : w'.rows = w.rows)
    (hsends : w'.sends = s::w.sends) (hcallLog : w'.callLog = w.callLog)
    (houtcome : w'.outcome = w.outcome) (hworker : w'.worker = Function.update w.worker v b)
    (hknown : w.Known event.id event.payload) (hid : s.eventId = event.id)
    (hkey : s.dedupeKey = event.payload.orderPublicId)
    (hphase : ∃ call attempt since,
      b.phase = .sending call event attempt w.sends.length since) : w'.Traced := by
  have hgrows : Grows w w' :=
    ⟨hrows ▸ List.prefix_rfl,hsends ▸ List.suffix_cons _ _,hcallLog ▸ List.prefix_rfl⟩
  have hnew : w'.sends.reverse[w.sends.length]? = some s := by
    rw [hsends,List.reverse_cons,List.getElem?_append_right (by rw [List.length_reverse])]
    rw [List.length_reverse,Nat.sub_self]
    rfl
  refine ⟨hrows ▸ h.ids,?_,fun u => ?_,fun t ht => ?_,fun send outcome ho => ?_,
    fun send t ht ho => ?_,?_⟩
  · rw [hrows]
    exact fun row hrow hstatus => hgrows.notified (h.published row hrow hstatus)
  · rw [hworker]
    by_cases hu : u = v
    · obtain ⟨call,attempt,since,hphase⟩ := hphase
      rw [hu,Function.update_self,hphase]
      refine ⟨fun event' hevent' => ?_,fun _ event' _ _ _ heq => ?_,by simp⟩
      · cases hevent'
        exact hgrows.known hknown
      · cases heq
        exact ⟨s,hnew,hkey⟩
    · rw [Function.update_of_ne hu]
      exact hgrows.fits (h.workers u)
  · rw [hsends] at ht
    rcases List.mem_cons.mp ht with rfl | ht
    · rw [hid]
      exact ⟨event.payload,hgrows.known hknown,hkey.symm⟩
    · obtain ⟨payload,hpayload,hsame⟩ := h.sends t ht
      exact ⟨payload,hgrows.known hpayload,hsame⟩
  · rw [houtcome] at ho
    rw [hsends]
    exact Nat.lt_succ_of_lt (h.made send outcome ho)
  · rw [houtcome] at ho
    have hlt := h.made send .success ho
    have hold : w.sends.reverse[send]? = some t := by
      rw [hsends,List.reverse_cons,List.getElem?_append_left (by rwa [List.length_reverse])] at ht
      exact ht
    exact hgrows.notified (h.settled send t hold ho)
  · rw [hcallLog,hsends]
    intro entry hentry
    obtain ⟨t,ht,hsame⟩ := h.logged entry hentry
    exact ⟨t,List.mem_cons_of_mem s ht,hsame⟩

theorem settle (h : w.Traced) {index : Nat} {call : SendCall} {outcome : SendOutcome}
    (latencyMs : Int) (hcall : w.sends.reverse[index]? = some call) : ({ w with
      outcome := Function.update w.outcome index (some outcome)
      callLog := w.callLog ++ [⟨w.clock,call.dedupeKey,outcome == .success,latencyMs⟩] } :
      PipelineWorld).Traced := by
  have hmem : call ∈ w.sends := List.mem_reverse.mp (List.mem_of_getElem? hcall)
  have hgrows : Grows w { w with
      outcome := Function.update w.outcome index (some outcome)
      callLog := w.callLog ++ [⟨w.clock,call.dedupeKey,outcome == .success,latencyMs⟩] } :=
    ⟨List.prefix_rfl,List.suffix_rfl,List.prefix_append _ _⟩
  refine ⟨h.ids,fun row hrow hstatus => hgrows.notified (h.published row hrow hstatus),
    fun u => hgrows.fits (h.workers u),h.sends,fun send o ho => ?_,fun send s hs ho => ?_,
    fun entry hentry => ?_⟩
  · rcases update_eq_some ho with ⟨rfl,_⟩ | ⟨_,ho⟩
    · have hlt := (List.getElem?_eq_some_iff.mp hcall).1
      rwa [List.length_reverse] at hlt
    · exact h.made send o ho
  · rcases update_eq_some ho with ⟨rfl,rfl⟩ | ⟨_,ho⟩
    · obtain rfl : call = s := Option.some.inj (hcall.symm.trans hs)
      exact ⟨_,List.mem_append_right _ (List.mem_singleton_self _),rfl,rfl⟩
    · exact hgrows.notified (h.settled send s hs ho)
  · rcases List.mem_append.mp hentry with hentry | hentry
    · exact h.logged entry hentry
    · rw [List.mem_singleton.mp hentry]
      exact ⟨call,hmem,rfl⟩

private theorem of_sent (h : w.Traced) (call : CallPhase) {success : Bool}
    (hevent : (w.worker v).phase.event = some event)
    (hsuccess : success = true → w.Notified event.payload.orderPublicId) :
    (w.sent f v call event success).Traced := by
  have hknown := (h.workers v).known event hevent
  refine h.moved rfl rfl rfl rfl rfl ?_
  cases success with
  | true => exact .notified hknown (hsuccess rfl) (.inl rfl)
  | false => exact (h.workers v).keep rfl (.inr hevent.symm)

private theorem of_attemptFailed (h : w.Traced) (call : CallPhase) (attempt : Nat)
    (retryable : Bool)
    (hevent : (w.worker v).phase.event = some event) :
    (w.attemptFailed f v call event attempt retryable).Traced := by
  unfold PipelineWorld.attemptFailed
  split
  · exact h.moved rfl rfl rfl rfl rfl ((h.workers v).keep rfl (.inr hevent.symm))
  · exact h.of_sent call hevent nofun

private theorem of_attempt (h : w.Traced) (call : CallPhase) (attempt : Nat)
    (hevent : (w.worker v).phase.event = some event) :
    (w.attempt f v call event attempt).Traced := by
  unfold PipelineWorld.attempt
  split
  · exact h.sent rfl rfl rfl rfl rfl ((h.workers v).known event hevent) rfl rfl ⟨_,_,_,rfl⟩
  · exact h.of_sent call hevent nofun

theorem of_claim (h : w.Traced) {now : Int} {locked : Nat → Bool} {commit : Commit}
    (hstep : pipelineStep f w (.claim v now locked commit) = some w') : w'.Traced := by
  simp only [pipelineStep] at hstep
  split at hstep
  · rename_i emptyPolls hp
    split at hstep
    · split at hstep
      · cases hstep
        refine h.moved rfl rfl rfl rfl rfl ((h.workers v).keep rfl (.inr ?_))
        rw [hp]
        rfl
      · rename_i rows event hclaim
        obtain ⟨old,hold,hid,hpayload,rfl⟩ := claimNextEvent_payload hclaim
        have hkeys : (updateWhere (·.id == old.id) (·.claim v (now + DEFAULT_LEASE_MS))
            w.rows).map eventKey = w.rows.map eventKey :=
          map_updateWhere eventKey (eventKey_claim _ _) w.rows
        have hpublished : ∀ row ∈ updateWhere (·.id == old.id)
            (·.claim v (now + DEFAULT_LEASE_MS)) w.rows, row.status = .published →
            w.Notified row.payload.orderPublicId := by
          intro row hrow hstatus
          obtain ⟨r,hr,rfl⟩ := mem_updateWhere.mp hrow
          split at hstatus
          · cases hstatus
          · rw [if_neg ‹_›]
            exact h.published r hr hstatus
        have hhalt : (w.worker v).halt.phase.Fits w := (h.workers v).keep rfl (.inl rfl)
        cases commit with
        | acknowledged =>
          cases hstep
          refine h.written hkeys hpublished rfl rfl rfl rfl (.of_plain rfl fun event' heq => ?_)
          cases heq
          rw [PipelineWorld.Known,hid,hpayload]
          exact List.mem_map_of_mem hold
        | replyLost =>
          cases hstep
          exact h.written hkeys hpublished rfl rfl rfl rfl hhalt
        | rolledBack =>
          cases hstep
          exact h.moved rfl rfl rfl rfl rfl hhalt
    · cases hstep
  · cases hstep

private theorem of_enter (h : w.Traced) (hstep : pipelineStep f w (.enter v) = some w') :
    w'.Traced := by
  simp only [pipelineStep] at hstep
  split at hstep
  · rename_i event hp
    have hfits := h.workers v
    split at hstep
    · cases hstep
      refine h.moved rfl rfl rfl rfl rfl (hfits.keep rfl (.inr ?_))
      rw [hp]
      rfl
    · have hadmitted : ∀ b : CircuitBreaker, ({ w.put v { w.worker v with
          callsBefore := w.callLog.length, start := w.clock } with
          breaker := Function.update w.breaker (f.instanceOf v) b } : PipelineWorld).Traced :=
        fun _ => h.moved rfl rfl rfl rfl rfl hfits
      have hevent : ∀ b : CircuitBreaker, (({ w.put v { w.worker v with
          callsBefore := w.callLog.length, start := w.clock } with
          breaker := Function.update w.breaker (f.instanceOf v) b } :
            PipelineWorld).worker v).phase.event = some event := by
        intro b
        change ProtectedPhase.event (Function.update w.worker v _ v).phase = some event
        rw [Function.update_self]
        change (w.worker v).phase.event = some event
        rw [hp]
        rfl
      split at hstep <;> cases hstep
      · exact (hadmitted _).of_attempt _ 1 (hevent _)
      · exact (hadmitted _).moved rfl rfl rfl rfl rfl
          (((hadmitted _).workers v).keep rfl (.inr (hevent _).symm))
  · cases hstep

private theorem of_resume (h : w.Traced) (hstep : pipelineStep f w (.resume v) = some w') :
    w'.Traced := by
  simp only [pipelineStep] at hstep
  split at hstep
  · rename_i call event attempt send since hp
    have hevent : (w.worker v).phase.event = some event := by
      rw [hp]
      rfl
    split at hstep
    · rename_i hsuccess
      cases hstep
      obtain ⟨s,hs,hkey⟩ := (h.workers v).awaited call event attempt send since hp
      exact h.of_sent call hevent fun _ => hkey ▸ h.settled send s hs hsuccess
    · cases hstep
      exact h.of_attemptFailed call attempt true hevent
    · cases hstep
      exact h.of_attemptFailed call attempt false hevent
    · cases hstep
  · cases hstep

private theorem of_record (h : w.Traced) {commit : Commit}
    (hstep : pipelineStep f w (.record v commit) = some w') : w'.Traced := by
  have hfits := h.workers v
  simp only [pipelineStep] at hstep
  split at hstep
  · rename_i event hp
    have hevent : (w.worker v).phase.event = some event := by
      rw [hp]
      rfl
    have hknown := hfits.known event hevent
    have hnotified := hfits.succeeded event (.inl hp)
    cases commit <;> cases hstep
    · exact h.moved rfl rfl rfl rfl rfl (.notified hknown hnotified (.inr rfl))
    all_goals exact h.moved rfl rfl rfl rfl rfl (hfits.keep rfl (.inr hevent.symm))
  · rename_i event circuitOpen hp
    have hevent : (w.worker v).phase.event = some event := by
      rw [hp]
      rfl
    cases commit <;> cases hstep
    · exact h.moved rfl rfl rfl rfl rfl (hfits.keep rfl (.inr hevent.symm))
    all_goals exact h.moved rfl rfl rfl rfl rfl (hfits.keep rfl (.inl rfl))
  · cases hstep

private theorem marked_published (h : w.Traced)
    {g : OutboxRow EventPayload → OutboxRow EventPayload}
    (hg : ∀ row, eventKey (g row) = eventKey row)
    (hevent : (w.worker v).phase.event = some event)
    (hdone : ∀ row, (g row).status = .published → w.Notified event.payload.orderPublicId) :
    ∀ row ∈ updateLocked w.rows event.id v g, row.status = .published →
      w.Notified row.payload.orderPublicId := by
  intro row hrow hstatus
  obtain ⟨r,hr,rfl⟩ := mem_updateWhere.mp hrow
  split at hstatus
  · rename_i hhit
    have hid : r.id = event.id := beq_iff_eq.mp (Bool.and_eq_true_iff.mp hhit).1
    obtain ⟨q,hq,hkey⟩ := List.mem_map.mp ((h.workers v).known event hevent)
    have hsame : r = q := eq_of_key_eq h.ids hr hq (hid.trans (congrArg Prod.fst hkey).symm)
    have hpayload : (g r).payload = event.payload :=
      (congrArg Prod.snd (hg r)).trans (hsame ▸ congrArg Prod.snd hkey)
    rw [if_pos hhit,hpayload]
    exact hdone r hstatus
  · rw [if_neg ‹_›]
    exact h.published r hr hstatus

private theorem of_mark (h : w.Traced) {now : Int} {commit : Commit}
    (hstep : pipelineStep f w (.mark v now commit) = some w') : w'.Traced := by
  have hfits := h.workers v
  simp only [pipelineStep] at hstep
  split at hstep
  · rename_i event hp
    have hevent : (w.worker v).phase.event = some event := by
      rw [hp]
      rfl
    have hkeys : (markPublished w.rows now event.id v).map eventKey = w.rows.map eventKey :=
      map_updateWhere eventKey (eventKey_publish now) w.rows
    have hpublished : ∀ row ∈ markPublished w.rows now event.id v, row.status = .published →
        w.Notified row.payload.orderPublicId :=
      h.marked_published (eventKey_publish now) hevent fun _ _ => hfits.succeeded event (.inr hp)
    cases commit <;> cases hstep
    · exact h.written hkeys hpublished rfl rfl rfl rfl (hfits.keep rfl (.inl rfl))
    · exact h.written hkeys hpublished rfl rfl rfl rfl (hfits.keep rfl (.inr hevent.symm))
    · exact h.moved rfl rfl rfl rfl rfl (hfits.keep rfl (.inr hevent.symm))
  · rename_i event circuitOpen hp
    have hevent : (w.worker v).phase.event = some event := by
      rw [hp]
      rfl
    have hkeys : (markPublishFailed w.rows event.id v).map eventKey = w.rows.map eventKey :=
      map_updateWhere eventKey eventKey_fail w.rows
    have hpublished : ∀ row ∈ markPublishFailed w.rows event.id v, row.status = .published →
        w.Notified row.payload.orderPublicId := by
      refine h.marked_published eventKey_fail hevent fun row hstatus => ?_
      unfold OutboxRow.fail at hstatus
      dsimp only at hstatus
      split at hstatus <;> cases hstatus
    cases commit <;> cases hstep
    · exact h.written hkeys hpublished rfl rfl rfl rfl (hfits.keep rfl (.inl rfl))
    · exact h.written hkeys hpublished rfl rfl rfl rfl (hfits.keep rfl (.inl rfl))
    · exact h.moved rfl rfl rfl rfl rfl (hfits.keep rfl (.inl rfl))
  · cases hstep

theorem step {e : PipelineEvent} (h : w.Traced) (hstep : pipelineStep f w e = some w') :
    w'.Traced := by
  cases e with
  | claim => exact h.of_claim hstep
  | enter => exact h.of_enter hstep
  | resume => exact h.of_resume hstep
  | record => exact h.of_record hstep
  | mark => exact h.of_mark hstep
  | finish v =>
    simp only [pipelineStep] at hstep
    split at hstep
    · split at hstep <;> cases hstep
      exact h.moved rfl rfl rfl rfl rfl ((h.workers v).keep rfl (.inl rfl))
    · cases hstep
  | settle send outcome latencyMs =>
    simp only [pipelineStep] at hstep
    split at hstep <;> cases hstep
    rename_i call hcall _
    exact h.settle latencyMs hcall
  | timeout v =>
    simp only [pipelineStep] at hstep
    split at hstep
    · rename_i call event attempt send since hp
      split at hstep <;> cases hstep
      refine h.of_attemptFailed call attempt true ?_
      rw [hp]
      rfl
    · cases hstep
  | wake v =>
    simp only [pipelineStep] at hstep
    split at hstep <;> cases hstep
    rename_i call event attempt hp
    refine h.of_attempt call (attempt + 1) ?_
    rw [hp]
    rfl
  | crash v =>
    cases hstep
    exact h.moved rfl rfl rfl rfl rfl ((h.workers v).keep rfl (.inl rfl))
  | advance ms =>
    cases hstep
    exact h.moved rfl rfl rfl rfl (Function.update_eq_self "" w.worker).symm (h.workers "")

end PipelineWorld.Traced

/-- No worker adds an event, takes one away or changes what it says. -/
theorem pipelineStep_keys {e : PipelineEvent} (h : pipelineStep f w e = some w') :
    w'.rows.map eventKey = w.rows.map eventKey := by
  cases pipelineStep_move h with
  | claimed old event b n _ _ _ _ _ _ hrows =>
    rw [hrows]
    exact map_updateWhere eventKey (eventKey_claim _ _) w.rows
  | marked event g b hg hrows =>
    rw [hrows]
    rcases hg with ⟨_,rfl⟩ | ⟨_,rfl⟩
    · exact map_updateWhere eventKey (eventKey_publish _) w.rows
    · exact map_updateWhere eventKey eventKey_fail w.rows
  | sent _ _ _ _ _ _ _ _ hrows => rw [hrows]
  | turnedAway _ _ _ hrows => rw [hrows]
  | moved _ _ hsame => rw [hsame.rows]

end SystemsLab.Capstone
