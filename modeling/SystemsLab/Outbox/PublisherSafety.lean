import SystemsLab.Outbox.Leases
import SystemsLab.Outbox.Publisher

/-!
# Publishers share the outbox safely

The publishers refine the lease table. Their own part of the invariant ties the event each
of them carries to its row and to the broker's deliveries.
-/

namespace SystemsLab.Outbox

variable {π : Type*}

def PublisherWorld.state (w : PublisherWorld π) : OutboxState π where
  rows := w.rows
  clock := w.clock
  log := w.log
  current worker := (w.phase worker).event.map fun event => event.lease worker

structure PublisherWorld.Sound (w : PublisherWorld π) : Prop where
  table : w.state.Sound
  carried : ∀ worker event, (w.phase worker).event = some event →
    ∀ row ∈ w.rows, row.id = event.id → row.brokerEvent = event.brokerEvent
  sent : ∀ worker event, w.phase worker = .markingPublished event →
    event.brokerEvent ∈ w.deliveries
  published : ∀ row ∈ w.rows, row.status = .published → row.brokerEvent ∈ w.deliveries

private theorem PublisherWorld.state_put (w : PublisherWorld π) (worker : String)
    (phase : PublisherPhase π) : (w.put worker phase).state = { w.state with
      current := Function.update w.state.current worker
        (phase.event.map fun event => event.lease worker) } := by
  simp only [PublisherWorld.state,PublisherWorld.put,OutboxState.mk.injEq,true_and]
  funext v
  by_cases hv : v = worker
  · subst hv
    rw [Function.update_self,Function.update_self]
  · rw [Function.update_of_ne hv,Function.update_of_ne hv]

private theorem claimNextEvent_some {rows rows' : List (OutboxRow π)} {locked : Nat → Bool}
    {now : Int}
    {workerId : String} {leaseMs : Int} {event : ClaimedEvent π}
    (h : claimNextEvent rows locked now workerId leaseMs = (rows',some event)) :
    ∃ old ∈ rows, old.claimable now = true ∧ event.brokerEvent = old.brokerEvent ∧
      event.id = old.id ∧ event.lease workerId = old.lease workerId (now + leaseMs) ∧
      rows' = updateWhere (·.id == old.id) (·.claim workerId (now + leaseMs)) rows := by
  simp only [claimNextEvent,Prod.mk.injEq,Option.map_eq_some_iff] at h
  obtain ⟨hrows,row,hrow,rfl⟩ := h
  obtain ⟨old,hold,hc,rfl,hupd⟩ := claimRow_some (Prod.ext hrows hrow)
  exact ⟨old,hold,hc,rfl,rfl,rfl,hupd⟩

private theorem PublisherWorld.Sound.put {w : PublisherWorld π} (h : w.Sound) (worker : String)
    (phase : PublisherPhase π) (deliveries : List (BrokerEvent π))
    (hevent : ∀ event, phase.event = some event → (w.phase worker).event = some event)
    (hgrow : ∀ m ∈ w.deliveries, m ∈ deliveries)
    (hsent : ∀ event, phase = .markingPublished event → event.brokerEvent ∈ deliveries) :
    PublisherWorld.Sound { w.put worker phase with deliveries } := by
  have hphase : ∀ v event, ((w.put worker phase).phase v).event = some event →
      (w.phase v).event = some event := by
    intro v event hv
    by_cases hvw : v = worker
    · subst hvw
      simp only [PublisherWorld.put,Function.update_self] at hv
      exact hevent event hv
    · simpa [PublisherWorld.put,hvw] using hv
  refine ⟨?_,?_,?_,?_⟩
  · show OutboxState.Sound { w.state with current := (w.put worker phase).state.current }
    apply h.table.abandoned
    intro v l hl
    obtain ⟨event,he,rfl⟩ := Option.map_eq_some_iff.mp hl
    exact Option.map_eq_some_iff.mpr ⟨event,hphase v event he,rfl⟩
  · exact fun v event hv => h.carried v event (hphase v event hv)
  · intro v event hv
    by_cases hvw : v = worker
    · subst hvw
      simp only [PublisherWorld.put,Function.update_self] at hv
      exact hsent event hv
    · simp only [PublisherWorld.put,Function.update_of_ne hvw] at hv
      exact hgrow _ (h.sent v event hv)
  · exact fun row hrow hs => hgrow _ (h.published row hrow hs)

private theorem PublisherWorld.Sound.claimed {w : PublisherWorld π} (h : w.Sound)
    {old : OutboxRow π} (hold : old ∈ w.rows) {now t : Int} (hnow : now ≤ w.clock)
    (hc : old.claimable now = true) {worker : String} (hidle : w.phase worker = .idle)
    {event : ClaimedEvent π} (hevent : event.brokerEvent = old.brokerEvent)
    (hid : event.id = old.id) (hlease : event.lease worker = old.lease worker t) :
    PublisherWorld.Sound { w.put worker (.publishing event) with
      rows := updateWhere (·.id == old.id) (·.claim worker t) w.rows
      log := .granted (event.lease worker) w.clock::w.log } := by
  have hmem : ∀ row ∈ updateWhere (·.id == old.id) (·.claim worker t) w.rows,
      ∃ r ∈ w.rows, r.id = row.id ∧ r.brokerEvent = row.brokerEvent ∧
        (row.status = .published → row = r) := by
    intro row hrow
    obtain ⟨r,hr,rfl⟩ := mem_updateWhere.mp hrow
    by_cases hi : r.id = old.id
    · exact ⟨r,hr,by simp [hi,OutboxRow.claim,OutboxRow.brokerEvent]⟩
    · exact ⟨r,hr,by simp [hi]⟩
  refine ⟨?_,?_,?_,?_⟩
  · have ht := h.table.claimed hold hnow hc worker (t := t)
    rw [← hlease] at ht
    show OutboxState.Sound { rows := _, clock := _, log := _
                             current := (w.put worker (.publishing event)).state.current }
    rw [PublisherWorld.state_put]
    exact ht
  · intro v e hv row hrow hrid
    obtain ⟨r,hr,hri,hmsg,_⟩ := hmem row hrow
    rw [← hmsg]
    by_cases hvw : v = worker
    · subst hvw
      simp only [PublisherWorld.put,Function.update_self,PublisherPhase.event,
        Option.some.injEq] at hv
      subst hv
      obtain rfl := eq_of_key_eq h.table.keys hr hold ((hri.trans hrid).trans hid)
      exact hevent.symm
    · simp only [PublisherWorld.put,Function.update_of_ne hvw] at hv
      exact h.carried v e hv r hr (hri.trans hrid)
  · intro v e hv
    by_cases hvw : v = worker
    · subst hvw
      simp [PublisherWorld.put] at hv
    · simp only [PublisherWorld.put,Function.update_of_ne hvw] at hv
      exact h.sent v e hv
  · intro row hrow hs
    obtain ⟨r,hr,_,_,heq⟩ := hmem row hrow
    obtain rfl := heq hs
    exact h.published _ hr hs

/-- A finalising update, followed by whatever the publisher does next with its event. -/
theorem PublisherWorld.Sound.finalised {w : PublisherWorld π} (h : w.Sound)
    {f : OutboxRow π → OutboxRow π} (hf : Finalises f)
    (hmsg : ∀ r, (f r).brokerEvent = r.brokerEvent) {worker : String}
    {event : ClaimedEvent π} (hevent : (w.phase worker).event = some event)
    (hpub : (∃ r, (f r).status = .published) → event.brokerEvent ∈ w.deliveries) :
    PublisherWorld.Sound { w with
      rows := updateLocked w.rows event.id worker f
      log := .settled (event.lease worker)::w.log } := by
  have hcur : w.state.current worker = some (event.lease worker) :=
    Option.map_eq_some_iff.mpr ⟨event,hevent,rfl⟩
  refine ⟨h.table.finalised hf hcur,?_,h.sent,?_⟩
  · intro v e hv row hrow hid
    obtain ⟨r,hr,rfl⟩ := mem_updateWhere.mp hrow
    split at hid
    · rw [if_pos ‹_›,hmsg]
      exact h.carried v e hv r hr ((hf.id r).symm.trans hid)
    · rw [if_neg ‹_›]
      exact h.carried v e hv r hr hid
  · intro row hrow hs
    obtain ⟨r,hr,rfl⟩ := mem_updateWhere.mp hrow
    split at hs
    · rename_i hhit
      simp only [Bool.and_eq_true,beq_iff_eq] at hhit
      rw [if_pos (by simp [hhit]),hmsg,h.carried worker event hevent r hr hhit.1]
      exact hpub ⟨r,hs⟩
    · rw [if_neg ‹_›]
      exact h.published r hr hs

/-- One event of the publishers: a claim committed, a finalising update committed, or a
change of phases, deliveries and clock that leaves the table alone. -/
inductive PublisherMove (w : PublisherWorld π) : PublisherEvent → PublisherWorld π → Prop
  | claimed {worker leaseMs now locked commit} (old : OutboxRow π) (event : ClaimedEvent π)
      (t : Int) (phase : PublisherPhase π) : w.phase worker = .idle → old ∈ w.rows →
      now ≤ w.clock → old.claimable now = true → event.brokerEvent = old.brokerEvent →
      event.id = old.id → event.lease worker = old.lease worker t →
      phase = .publishing event ∨ phase = .idle →
      PublisherMove w (.claim worker leaseMs now locked commit) { w.put worker phase with
        rows := updateWhere (·.id == old.id) (·.claim worker t) w.rows
        log := .granted (event.lease worker) w.clock::w.log }
  | published {worker now commit error} (event : ClaimedEvent π) (phase : PublisherPhase π) :
      w.phase worker = .markingPublished event →
      phase.event = some event ∨ phase.event = none → (∀ ev, phase ≠ .markingPublished ev) →
      PublisherMove w (.markPublished worker now commit error) { w.put worker phase with
        rows := markPublished w.rows now event.id worker
        log := .settled (event.lease worker)::w.log }
  | failed {worker commit} (event : ClaimedEvent π) (error : String) :
      w.phase worker = .markingFailed event error →
      PublisherMove w (.markPublishFailed worker commit) { w.put worker .idle with
        rows := markPublishFailed w.rows event.id worker
        log := .settled (event.lease worker)::w.log }
  | moved {e} (worker : String) (phase : PublisherPhase π)
      (deliveries : List (BrokerEvent π)) :
      (∀ event, phase.event = some event → (w.phase worker).event = some event) →
      (∀ m ∈ w.deliveries, m ∈ deliveries) →
      (∀ event, phase = .markingPublished event → event.brokerEvent ∈ deliveries) →
      PublisherMove w e { w.put worker phase with deliveries }
  | advanced (ms : Nat) : PublisherMove w (.advance ms) { w with clock := w.clock + ms }
  | nothing {worker leaseMs now locked commit} :
      PublisherMove w (.claim worker leaseMs now locked commit) w

theorem publisherStep_move {w w' : PublisherWorld π} {e : PublisherEvent}
    (h : publisherStep w e = some w') : PublisherMove w e w' := by
  cases e with
  | claim worker leaseMs now locked commit =>
    simp only [publisherStep] at h
    split at h
    · rename_i hidle
      split at h
      · rename_i hnow
        split at h
        · cases h
          exact .nothing
        · rename_i rows event hclaim
          obtain ⟨old,hold,hc,hmsg,hid,hlease,rfl⟩ := claimNextEvent_some hclaim
          cases commit with
          | acknowledged =>
            cases h
            exact .claimed old event _ _ hidle hold hnow hc hmsg hid hlease (.inl rfl)
          | replyLost =>
            cases h
            have hput : w.put worker .idle = w := by
              rw [PublisherWorld.put,← hidle,Function.update_eq_self]
            have hm : PublisherMove w (.claim worker leaseMs now locked .replyLost) _ :=
              .claimed old event _ .idle hidle hold hnow hc hmsg hid hlease (.inr rfl)
            rw [hput] at hm
            exact hm
          | rolledBack =>
            cases h
            exact .nothing
      · cases h
    · cases h
  | brokerSucceeds worker =>
    simp only [publisherStep] at h
    split at h <;> cases h
    rename_i event hp
    apply PublisherMove.moved
    · intro ev hev
      rw [hp]
      exact hev
    · exact fun m hm => List.mem_cons_of_mem _ hm
    · intro ev hev
      cases hev
      exact List.mem_cons_self
  | brokerFails worker error =>
    simp only [publisherStep] at h
    split at h <;> cases h
    rename_i event hp
    apply PublisherMove.moved
    · intro ev hev
      rw [hp]
      exact hev
    · exact fun m hm => hm
    · nofun
  | markPublished worker now commit error =>
    simp only [publisherStep] at h
    split at h
    · rename_i event hp
      cases commit with
      | acknowledged =>
        cases h
        exact .published event .idle hp (.inr rfl) nofun
      | replyLost =>
        cases h
        exact .published event (.markingFailed event error) hp (.inl rfl) nofun
      | rolledBack =>
        cases h
        apply PublisherMove.moved
        · intro ev hev
          rw [hp]
          exact hev
        · exact fun m hm => hm
        · nofun
    · cases h
  | markPublishFailed worker commit =>
    simp only [publisherStep] at h
    split at h
    · rename_i event error hp
      split at h <;> cases h
      · exact .failed event error hp
      · exact .moved worker .idle w.deliveries nofun (fun _ hm => hm) nofun
    · cases h
  | abandon worker =>
    cases h
    exact .moved worker .idle w.deliveries nofun (fun _ hm => hm) nofun
  | advance ms =>
    cases h
    exact .advanced ms

theorem PublisherWorld.Sound.step {w w' : PublisherWorld π} {e : PublisherEvent}
    (h : w.Sound) (hs : publisherStep w e = some w') : w'.Sound := by
  cases publisherStep_move hs with
  | @claimed worker _ _ _ _ old event t phase hidle hold hnow hc hmsg hid hlease hphase =>
    have hclaimed := h.claimed hold hnow hc hidle hmsg hid hlease
    rcases hphase with rfl | rfl
    · exact hclaimed
    · have hlost := hclaimed.put worker .idle w.deliveries nofun (fun _ hm => hm) nofun
      simpa [PublisherWorld.put] using hlost
  | @published worker now _ _ event phase hp hnext hphase =>
    have hevent : (w.phase worker).event = some event := by
      rw [hp]
      rfl
    have hdone := h.finalised (finalises_publish now) (fun _ => rfl) hevent
      fun _ => h.sent worker event hp
    apply hdone.put worker phase w.deliveries
    · intro ev hev
      rcases hnext with hn | hn
      · rw [hn] at hev
        exact hevent.trans hev
      · rw [hn] at hev
        cases hev
    · exact fun _ hm => hm
    · exact fun ev hev => absurd hev (hphase ev)
  | @failed worker _ event error hp =>
    have hevent : (w.phase worker).event = some event := by
      rw [hp]
      rfl
    have hdone := h.finalised finalises_fail (fun _ => rfl) hevent
      fun ⟨r,hr⟩ => absurd hr (by unfold OutboxRow.fail; split <;> simp)
    exact hdone.put worker .idle w.deliveries nofun (fun _ hm => hm) nofun
  | moved worker phase deliveries hevent hgrow hsent =>
    exact h.put worker phase deliveries hevent hgrow hsent
  | advanced ms => exact ⟨h.table.ticked ms,h.carried,h.sent,h.published⟩
  | nothing => exact h

theorem PublisherWorld.sound_of_fresh {w : PublisherWorld π} (h : w.Fresh) : w.Sound := by
  obtain ⟨hkeys,hphase,hdel,hlog,hrows⟩ := h
  refine ⟨?_,?_,?_,?_⟩
  · apply OutboxState.sound_of_fresh
    refine ⟨hkeys,hlog,fun worker => ?_,hrows⟩
    simp [PublisherWorld.state,hphase,PublisherPhase.event]
  · simp [hphase,PublisherPhase.event]
  · simp [hphase]
  · intro row hrow hs
    rw [(hrows row hrow).1] at hs
    cases hs

theorem PublisherWorld.Sound.safe {w : PublisherWorld π} (h : w.Sound) : w.Safe := by
  refine ⟨h.table.leases.exclusive,?_,h.published,fun _ hrow => h.table.attempts hrow⟩
  intro row hrow
  obtain ⟨hby,huntil⟩ := h.table.locks row hrow
  exact ⟨fun hs => ⟨hby.mp hs,huntil.mp hs⟩,fun hl => hby.mpr hl.1⟩

/-- A row that no longer reads `processing` is out of reach of every guarded update. -/
theorem PublisherWorld.Sound.not_locked {w : PublisherWorld π} (h : w.Sound) {id : Nat}
    {row : OutboxRow π} (hrow : w.row id = some row)
    (hs : row.status = .published ∨ row.status = .failed) (worker : String) :
    row.lockedBy ≠ some worker := by
  intro hby
  have hp := (h.table.locks row (rowAt_some hrow).1).of_lockedBy hby
  rcases hs with hs | hs
  · rw [hs] at hp
    cases hp
  · rw [hs] at hp
    cases hp

private theorem PublisherWorld.Sound.safeStep {w w' : PublisherWorld π} {e : PublisherEvent}
    (h : w.Sound) (hs : publisherStep w e = some w') : SafeStep w e w' := by
  -- an update guarded by `locked_by` acts for the newest claimant
  have hguard : ∀ worker event (f : OutboxRow π → OutboxRow π) id,
      (w.phase worker).event = some event → (∀ r, (f r).id = r.id) →
      rowAt OutboxRow.id (updateLocked w.rows event.id worker f) id ≠ w.row id →
      ∃ row l, w.row id = some row ∧ row.lockedBy = some worker ∧
        (leasesOf id w.log).head? = some l ∧ l.holder = worker := by
    intro worker event f id hevent hf hne
    have hcur : w.state.current worker = some (event.lease worker) :=
      Option.map_eq_some_iff.mpr ⟨event,hevent,rfl⟩
    obtain ⟨row,hrow,hid,hby⟩ := rowAt_updateLocked hf hne
    obtain ⟨hmem,hkey⟩ := rowAt_some hrow
    have hnew := h.table.newest hcur hmem (hkey.trans hid) hby
    rw [hkey] at hnew
    exact ⟨row,event.lease worker,hrow,hby,hnew,rfl⟩
  have hterminal : ∀ worker event (f : OutboxRow π → OutboxRow π) id row,
      (w.phase worker).event = some event → (∀ r, (f r).id = r.id) → w.row id = some row →
      row.status = .published ∨ row.status = .failed →
      rowAt OutboxRow.id (updateLocked w.rows event.id worker f) id = some row := by
    intro worker event f id row hevent hf hrow hst
    by_contra hne
    rw [← hrow] at hne
    obtain ⟨row',l,hrow',hby,_⟩ := hguard worker event f id hevent hf hne
    rw [hrow] at hrow'
    cases hrow'
    exact h.not_locked hrow hst worker hby
  cases publisherStep_move hs with
  | @claimed worker _ _ _ _ old event t phase hidle hold hnow hc =>
    refine ⟨fun _ hby => (by cases hby),fun id row hrow hst => ?_⟩
    have hne : id ≠ old.id := by
      rintro rfl
      have heq := (rowAt_of_mem h.table.keys hold).symm.trans hrow
      cases heq
      rcases hst with hst | hst <;> simp [OutboxRow.claimable,hst] at hc
    have hf : ∀ r : OutboxRow π, (r.claim worker t).id = r.id := fun _ => rfl
    have hat := rowAt_updateWhere_key (p := fun _ => true) hf w.rows old.id id
    simp only [Bool.and_true,if_neg hne] at hat
    exact hat.trans hrow
  | @published worker now _ _ event phase hp =>
    have hevent : (w.phase worker).event = some event := by
      rw [hp]
      rfl
    constructor
    · intro v hv id hne
      cases hv
      obtain ⟨_,l,_,_,hl,hholder⟩ := hguard _ _ _ id hevent (finalises_publish now).id hne
      exact ⟨l,hl,hholder⟩
    · intro id row hrow hst
      exact hterminal _ _ _ id row hevent (finalises_publish now).id hrow hst
  | @failed worker _ event error hp =>
    have hevent : (w.phase worker).event = some event := by
      rw [hp]
      rfl
    constructor
    · intro v hv id hne
      cases hv
      obtain ⟨_,l,_,_,hl,hholder⟩ := hguard _ _ _ id hevent finalises_fail.id hne
      exact ⟨l,hl,hholder⟩
    · intro id row hrow hst
      exact hterminal _ _ _ id row hevent finalises_fail.id hrow hst
  | moved => exact ⟨fun _ _ _ hne => absurd rfl hne,fun _ _ hrow _ => hrow⟩
  | advanced => exact ⟨fun _ hby => (by cases hby),fun _ _ hrow _ => hrow⟩
  | nothing => exact ⟨fun _ hby => (by cases hby),fun _ _ hrow _ => hrow⟩

/-- Every run of publishers, from freshly seeded events. -/
theorem publishers_safe {w₀ w : PublisherWorld π} (h : w₀.Fresh) {es : List PublisherEvent}
    (hrun : run publisherStep w₀ es = some w) :
    w.Safe ∧ ∀ e w', publisherStep w e = some w' → SafeStep w e w' := by
  have hsound : w.Sound :=
    run_invariant (fun _ _ _ h hs => h.step hs) (PublisherWorld.sound_of_fresh h) hrun
  exact ⟨hsound.safe,fun _ _ hs => hsound.safeStep hs⟩

/-- One seeded event. -/
def oneEvent : PublisherWorld String where
  rows := [{ id := 1, publicId := "p", eventType := "OrderPlaced", payload := "x" }]
  clock := 0

/-- The lease of the first publisher lapses inside the broker call. The second one publishes
the event, and the late `markPublished` of the first finds nothing to update. -/
def duplicateDelivery : List PublisherEvent :=
  [.claim "a" (some 10) 0 (fun _ => false) .acknowledged, .advance 11,
    .claim "b" none 11 (fun _ => false) .acknowledged, .brokerSucceeds "b",
    .brokerSucceeds "a", .markPublished "b" 11 .acknowledged "", .advance 1]

theorem duplicateDelivery_safe : ∃ w w', run publisherStep oneEvent duplicateDelivery = some w ∧
    publisherStep w (.markPublished "a" 12 .acknowledged "") = some w' ∧ w.Safe ∧
      SafeStep w (.markPublished "a" 12 .acknowledged "") w' ∧ w'.row 1 = w.row 1 := by
  obtain ⟨w,hw⟩ := Option.isSome_iff_exists.mp
    (show (run publisherStep oneEvent duplicateDelivery).isSome = true by decide)
  have hobs : (run publisherStep oneEvent duplicateDelivery).map (fun w =>
      (publisherStep w (.markPublished "a" 12 .acknowledged "")).map fun w' =>
        decide (w'.row 1 = w.row 1)) = some (some true) := by decide
  rw [hw] at hobs
  simp only [Option.map_some,Option.some.injEq,Option.map_eq_some_iff,
    decide_eq_true_eq] at hobs
  obtain ⟨w',hw',hrow⟩ := hobs
  have hfresh : oneEvent.Fresh := by
    refine ⟨by decide,rfl,rfl,rfl,?_⟩
    simp [oneEvent]
  obtain ⟨hsafe,hstep⟩ := publishers_safe hfresh hw
  exact ⟨w,w',hw,hw',hsafe,hstep _ _ hw',hrow⟩

end SystemsLab.Outbox
