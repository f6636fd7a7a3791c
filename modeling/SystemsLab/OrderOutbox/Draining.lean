import SystemsLab.OrderOutbox.Recording

/-!
# What is drained

A drain hands over each event that it has read at most once, and marks only what it has handed over.
Several drains may hand over the same event, but none that reads the table after it was marked.
-/

namespace SystemsLab.OrderOutbox

/-- The rows that a drain has read and not handed over yet. -/
def DrainPhase.queue : DrainPhase → List OutboxEventRow
  | .publishing _ row rest => row::rest
  | .marking _ _ rest => rest
  | _ => []

/-- The rows that a drain is not through with. -/
def DrainPhase.remaining : DrainPhase → List OutboxEventRow
  | .publishing _ row rest => row::rest
  | .marking _ row rest => row::rest
  | _ => []

def DrainPhase.result : DrainPhase → Option DrainOutboxResult
  | .publishing result _ _ => some result
  | .marking result _ _ => some result
  | .returned result => some result
  | _ => none

/-- The rows that a call has read and may still hand over. -/
def OrderCall.queue : OrderCall → List OutboxEventRow
  | .drain _ phase => phase.queue
  | _ => []

namespace OrdersWorld

def deliveriesOf (w : OrdersWorld) (event : OutboxEventRow) : Nat :=
  (w.delivered.map Prod.snd).count event.brokerEvent

def selectionsOf (w : OrdersWorld) (event : OutboxEventRow) : Nat :=
  (w.selected.map Prod.snd).count event.id

/-- The event is marked as published. -/
def IsPublished (w : OrdersWorld) (id : Nat) : Prop :=
  ∃ event ∈ w.outboxEvents, event.id = id ∧ event.publishedAt.isSome = true

/-- What a drain has read. -/
def readBy (w : OrdersWorld) (n : Nat) : List Nat := (w.selected.filter (·.1 = n)).map Prod.snd

/-- What the broker has, what the table says, and what the drains report. -/
structure Drained (w : OrdersWorld) : Prop where
  sound : ∀ n event, (n,event) ∈ w.delivered →
    (∃ row ∈ w.outboxEvents, row.brokerEvent = event ∧ (n,row.id) ∈ w.selected) ∨
      (∃ opts phase, w.call n = some (.publishThenOrder opts phase) ∧ event = opts.customerEvent) ∧
        event.aggregateId ∉ w.orders.map OrderRow.id
  delivered : ∀ event ∈ w.outboxEvents, event.publishedAt.isSome = true → 0 < w.deliveriesOf event
  atMost : ∀ event ∈ w.outboxEvents, w.deliveriesOf event ≤ w.selectionsOf event
  once : ∀ n event, w.delivered.count (n,event) ≤ 1
  reported : ∀ n limit result, w.call n = some (.drain limit (.returned result)) →
    result.attempted = (w.readBy n).length ∧
      (result.publishedIds ++ result.failedIds).Perm (w.readBy n) ∧ (w.readBy n).Nodup ∧
      ∀ id ∈ result.publishedIds, w.IsPublished id

end OrdersWorld

/-! ## The invariant -/

/-- A drain hands over, in turn, what it has read, and keeps books. -/
structure DrainPhase.Fits (w : OrdersWorld) (n : Nat) (phase : DrainPhase) : Prop where
  known : ∀ row ∈ phase.remaining, row.intent ∈ w.intents
  ahead : ∀ row ∈ phase.queue, (n,row.brokerEvent) ∉ w.delivered
  current : ∀ result row rest, phase = .marking result row rest →
    (n,row.brokerEvent) ∈ w.delivered
  books : ∀ result, phase.result = some result → result.attempted = (w.readBy n).length ∧
    (result.publishedIds ++ result.failedIds ++ phase.remaining.map OutboxEventRow.id).Perm (w.readBy n)
  published : ∀ result, phase.result = some result → ∀ id ∈ result.publishedIds, w.IsPublished id

/-- Only drains read events, and only drains and the second dual write hand any over. -/
structure OrderCall.Accounts (w : OrdersWorld) (n : Nat) (c : OrderCall) : Prop where
  drain : ∀ limit phase, c = .drain limit phase → phase.Fits w n
  reader : ∀ id, (n,id) ∈ w.selected → ∃ limit phase, c = .drain limit phase ∧ phase ≠ .selecting
  source : ∀ event, (n,event) ∈ w.delivered →
    (∃ id, (id,event) ∈ w.intents ∧ (n,id) ∈ w.selected) ∨
      ∃ opts phase, c = .publishThenOrder opts phase ∧ phase ≠ .publishing ∧
        event = opts.customerEvent

structure OrdersWorld.DrainSound (w : OrdersWorld) : Prop where
  base : w.Sound
  accounts : ∀ n c, w.call n = some c → c.Accounts w n
  callers : ∀ n, w.call n = none → (∀ id, (n,id) ∉ w.selected) ∧ ∀ event, (n,event) ∉ w.delivered
  chosen : ∀ n id, (n,id) ∈ w.selected → id ∈ w.intents.map Prod.fst
  deliveredOnce : w.delivered.Nodup
  selectedOnce : w.selected.Nodup
  marked : ∀ event ∈ w.outboxEvents, event.publishedAt.isSome = true →
    ∃ n, (n,event.brokerEvent) ∈ w.delivered

variable {w w' : OrdersWorld} {n m : Nat} {c c' : OrderCall}

/-! ## Tables -/

namespace OrdersWorld

private theorem mem_readBy {id : Nat} : id ∈ w.readBy n ↔ (n,id) ∈ w.selected := by
  simp [readBy]

private theorem readBy_nodup (h : w.selected.Nodup) (n : Nat) : (w.readBy n).Nodup := by
  refine (List.nodup_map_iff_inj_on (h.filter _)).mpr ?_
  rintro ⟨a,id⟩ ha ⟨b,id'⟩ hb heq
  obtain rfl : a = n := by simpa using (List.mem_filter.mp ha).2
  obtain rfl : b = a := by simpa using (List.mem_filter.mp hb).2
  exact congrArg (Prod.mk b) heq

private theorem readBy_other {ids : List Nat}
    (hw : w'.selected = w.selected ++ ids.map fun id => (n,id))
    (hm : m ≠ n) : w'.readBy m = w.readBy m := by
  have hnew : (ids.map fun id => (n,id)).filter (·.1 = m) = [] := by
    refine List.filter_eq_nil_iff.mpr fun entry hentry heq => ?_
    obtain ⟨id,_,rfl⟩ := List.mem_map.mp hentry
    exact hm (of_decide_eq_true heq).symm
  rw [readBy,hw,List.filter_append,hnew,List.append_nil]
  rfl

private theorem readBy_own {ids : List Nat}
    (hw : w'.selected = w.selected ++ ids.map fun id => (n,id))
    (hnone : ∀ id, (n,id) ∉ w.selected) : w'.readBy n = ids := by
  have hold : w.selected.filter (·.1 = n) = [] := by
    refine List.filter_eq_nil_iff.mpr ?_
    rintro ⟨a,id⟩ ha heq
    obtain rfl : a = n := of_decide_eq_true heq
    exact hnone id ha
  rw [readBy,hw,List.filter_append,hold,List.nil_append,List.filter_eq_self.mpr,List.map_map]
  · exact List.map_id _
  · intro entry hentry
    obtain ⟨id,_,rfl⟩ := List.mem_map.mp hentry
    exact decide_eq_true rfl

private theorem Sound.intent_inj (h : w.Sound) {intent intent' : Nat × BrokerEvent}
    (hi : intent ∈ w.intents) (hi' : intent' ∈ w.intents)
    (heq : intent.2.aggregateId = intent'.2.aggregateId) : intent = intent' := by
  have howned := h.owned intent hi
  rw [← h.created] at howned
  obtain ⟨⟨m,id⟩,hmem,hid⟩ := List.mem_map.mp howned
  obtain ⟨c,_,_,_,_,_,hevents⟩ := h.recorded m id hmem
  have hle : (w.intents.filter (·.2.aggregateId = id)).length ≤ 1 := by
    have hlength := congrArg List.length hevents
    rw [List.filter_map,List.length_map] at hlength
    refine (le_of_eq hlength).trans ?_
    cases c <;> simp [OrderCall.purpose,OrderPurpose.events]
  have hin : intent ∈ w.intents.filter (·.2.aggregateId = id) :=
    List.mem_filter.mpr ⟨hi,decide_eq_true hid.symm⟩
  have hin' : intent' ∈ w.intents.filter (·.2.aggregateId = id) :=
    List.mem_filter.mpr ⟨hi',decide_eq_true (heq.symm.trans hid.symm)⟩
  exact eq_of_length_le_one hle hin hin'

private theorem Sound.customerEvent_notMem (h : w.Sound) (opts : NaiveOptions) :
    opts.customerEvent.aggregateId ∉ w.orders.map OrderRow.id := by
  intro hmem
  exact Nat.not_succ_le_zero 0 (h.orderIds.least _ hmem)

private theorem IsPublished.append {id : Nat} (h : w.IsPublished id) {events : List OutboxEventRow}
    (hw : w'.outboxEvents = w.outboxEvents ++ events) : w'.IsPublished id := by
  obtain ⟨event,hevent,hid,hpublished⟩ := h
  refine ⟨event,?_,hid,hpublished⟩
  rw [hw]
  exact List.mem_append_left _ hevent

private theorem IsPublished.mark {id k : Nat} (h : w.IsPublished id) :
    (w.markPublished n k c).IsPublished id := by
  obtain ⟨event,hevent,hid,hpublished⟩ := h
  refine ⟨_,mem_updateWhere.mpr ⟨event,hevent,rfl⟩,?_,?_⟩
  · split <;> exact hid
  · split
    · rfl
    · exact hpublished

private theorem isPublished_markPublished {id : Nat} (h : id ∈ w.intents.map Prod.fst) :
    (w.markPublished n id c).IsPublished id := by
  rw [← w.eventIds_eq] at h
  obtain ⟨event,hevent,rfl⟩ := List.mem_map.mp h
  refine ⟨_,mem_updateWhere.mpr ⟨event,hevent,rfl⟩,?_,?_⟩
  · split <;> rfl
  · rw [if_pos (beq_self_eq_true _)]
    rfl

end OrdersWorld

/-! ## The books of one drain -/

namespace DrainPhase

variable {phase : DrainPhase} {result result' : DrainOutboxResult} {row : OutboxEventRow}
  {rest : List OutboxEventRow}

theorem next_remaining (result : DrainOutboxResult) (rest : List OutboxEventRow) :
    (next result rest).remaining = rest := by
  cases rest <;> rfl

theorem next_queue (result : DrainOutboxResult) (rest : List OutboxEventRow) :
    (next result rest).queue = rest := by
  cases rest <;> rfl

theorem next_result (result : DrainOutboxResult) (rest : List OutboxEventRow) :
    (next result rest).result = some result := by
  cases rest <;> rfl

theorem next_ne (result : DrainOutboxResult) (rest : List OutboxEventRow) :
    next result rest ≠ .selecting ∧ ∀ r q qs, next result rest ≠ .marking r q qs := by
  cases rest <;> exact ⟨nofun,nofun⟩

private theorem fits_idle (hremaining : phase.remaining = []) (hqueue : phase.queue = [])
    (hresult : phase.result = none) : phase.Fits w n := by
  refine ⟨?_,?_,?_,?_,?_⟩
  · rw [hremaining]
    nofun
  · rw [hqueue]
    nofun
  · rintro result row rest rfl
    cases hresult
  · rw [hresult]
    nofun
  · rw [hresult]
    nofun

theorem Fits.mono (h : phase.Fits w n) (hintents : w.intents ⊆ w'.intents)
    (hdelivered : ∀ event, (n,event) ∈ w'.delivered ↔ (n,event) ∈ w.delivered)
    (hread : w'.readBy n = w.readBy n)
    (hpublished : ∀ id, w.IsPublished id → w'.IsPublished id) : phase.Fits w' n where
  known row hrow := hintents (h.known row hrow)
  ahead row hrow := by
    rw [hdelivered]
    exact h.ahead row hrow
  current result row rest hphase := by
    rw [hdelivered]
    exact h.current result row rest hphase
  books result hresult := by
    rw [hread]
    exact h.books result hresult
  published result hresult id hid := hpublished id (h.published result hresult id hid)

theorem Fits.next (h : phase.Fits w n) (hremaining : phase.remaining = row::rest)
    (hresult : phase.result = some result) (hintents : w.intents ⊆ w'.intents)
    (hahead : ∀ r ∈ rest, (n,r.brokerEvent) ∉ w'.delivered) (hread : w'.readBy n = w.readBy n)
    (hattempted : result'.attempted = result.attempted)
    (hids : (result'.publishedIds ++ result'.failedIds).Perm
      (result.publishedIds ++ result.failedIds ++ [row.id]))
    (hpublished : ∀ id ∈ result'.publishedIds, w'.IsPublished id) :
    (DrainPhase.next result' rest).Fits w' n where
  known r hr := by
    rw [next_remaining] at hr
    refine hintents (h.known r ?_)
    rw [hremaining]
    exact List.mem_cons_of_mem _ hr
  ahead r hr := by
    rw [next_queue] at hr
    exact hahead r hr
  current r q qs hphase := absurd hphase ((next_ne result' rest).2 r q qs)
  books r hr := by
    rw [next_result] at hr
    cases hr
    obtain ⟨hold,hperm⟩ := h.books result hresult
    rw [hread,hattempted,next_remaining]
    refine ⟨hold,(hids.append_right _).trans ?_⟩
    rw [hremaining] at hperm
    simpa using hperm
  published r hr := by
    rw [next_result] at hr
    cases hr
    exact hpublished

end DrainPhase

/-! ## The accounts of one call -/

namespace OrderCall

theorem Accounts.mono (h : c.Accounts w n) (hintents : w.intents ⊆ w'.intents)
    (hdelivered : ∀ event, (n,event) ∈ w'.delivered ↔ (n,event) ∈ w.delivered)
    (hread : w'.readBy n = w.readBy n)
    (hpublished : ∀ id, w.IsPublished id → w'.IsPublished id) : c.Accounts w' n := by
  have hselected : ∀ id, (n,id) ∈ w'.selected ↔ (n,id) ∈ w.selected := by
    intro id
    rw [← OrdersWorld.mem_readBy,hread,OrdersWorld.mem_readBy]
  refine ⟨fun limit phase hc => (h.drain limit phase hc).mono hintents hdelivered hread hpublished,
    fun id hid => h.reader id ((hselected id).mp hid),fun event hevent => ?_⟩
  rcases h.source event ((hdelivered event).mp hevent) with ⟨id,hintent,hid⟩ | hpublish
  · exact .inl ⟨id,hintents hintent,(hselected id).mpr hid⟩
  · exact .inr hpublish

/-- A call has read nothing and handed nothing over. -/
def Silent (w : OrdersWorld) (n : Nat) : Prop :=
  (∀ id, (n,id) ∉ w.selected) ∧ ∀ event, (n,event) ∉ w.delivered

private theorem Accounts.silent (h : c.Accounts w n)
    (hdrain : ∀ limit phase, c = .drain limit phase → phase = .selecting)
    (hpublish : ∀ opts phase, c = .publishThenOrder opts phase → phase = .publishing) :
    Silent w n := by
  have hread : ∀ id, (n,id) ∉ w.selected := by
    intro id hid
    obtain ⟨limit,phase,hc,hne⟩ := h.reader id hid
    exact hne (hdrain limit phase hc)
  refine ⟨hread,fun event hevent => ?_⟩
  rcases h.source event hevent with ⟨id,_,hid⟩ | ⟨opts,phase,hc,hne,_⟩
  · exact hread id hid
  · exact hne (hpublish opts phase hc)

private theorem accounts_of_silent (h : Silent w n)
    (hdrain : ∀ limit phase, c = .drain limit phase → phase = .selecting ∨ phase = .threw) :
    c.Accounts w n := by
  refine ⟨fun limit phase hc => ?_,fun id hid => absurd hid (h.1 id),
    fun event hevent => absurd hevent (h.2 event)⟩
  rcases hdrain limit phase hc with rfl | rfl
  · exact DrainPhase.fits_idle rfl rfl rfl
  · exact DrainPhase.fits_idle rfl rfl rfl

/-- Neither a drain nor a call that publishes before it inserts. -/
def insertsFirst : OrderCall → Bool
  | .transactional _ _ | .orderThenPublish _ _ => true
  | _ => false

private theorem Accounts.insertsFirst (h : c.Accounts w n) (hc : c.insertsFirst = true)
    (hc' : c'.insertsFirst = true) : c'.Accounts w n := by
  have hsilent : Silent w n := by
    apply h.silent
    · intro limit phase heq
      rw [heq] at hc
      cases hc
    · intro opts phase heq
      rw [heq] at hc
      cases hc
  apply accounts_of_silent hsilent
  intro limit phase heq
  rw [heq] at hc'
  cases hc'

private theorem Accounts.drainStep (h : c.Accounts w n) {limit : Nat} {phase phase' : DrainPhase}
    (hc : c = .drain limit phase) (hphase : phase' ≠ .selecting) (hfits : phase'.Fits w n) :
    (OrderCall.drain limit phase').Accounts w n := by
  refine ⟨?_,fun id _ => ⟨limit,phase',rfl,hphase⟩,fun event hevent => ?_⟩
  · rintro limit' phase'' heq
    cases heq
    exact hfits
  · rcases h.source event hevent with hread | ⟨opts,_,heq,_⟩
    · exact .inl hread
    · rw [hc] at heq
      cases heq

private theorem Quiet.accounts (hquiet : c.Quiet c') (h : c.Accounts w n) : c'.Accounts w n := by
  have hpublished : ∀ (opts : NaiveOptions) (phase phase' : PublishThenOrderPhase),
      c = .publishThenOrder opts phase → phase' ≠ .publishing →
        (OrderCall.publishThenOrder opts phase').Accounts w n := by
    rintro opts phase phase' rfl hphase
    refine ⟨nofun,fun id hid => ?_,fun event hevent => ?_⟩
    · obtain ⟨_,_,heq,_⟩ := h.reader id hid
      cases heq
    · rcases h.source event hevent with ⟨id,_,hid⟩ | ⟨opts',_,heq,_,hcustomer⟩
      · obtain ⟨_,_,heq,_⟩ := h.reader id hid
        cases heq
      · cases heq
        exact .inr ⟨opts,phase',rfl,hphase,hcustomer⟩
  cases hquiet with
  | begun => exact h.insertsFirst rfl rfl
  | entered => exact h.insertsFirst rfl rfl
  | failed => exact h.insertsFirst rfl rfl
  | rolledBack => exact h.insertsFirst rfl rfl
  | refused => exact h.insertsFirst rfl rfl
  | notInserted opts code reason => exact hpublished opts _ _ rfl nofun
  | passed limit phase result row rest hphase =>
    refine h.drainStep rfl (DrainPhase.next_ne _ rest).1 ?_
    have hfits := h.drain limit phase rfl
    have hremaining : phase.remaining = row::rest := by rcases hphase with rfl | rfl <;> rfl
    have hresult : phase.result = some result := by rcases hphase with rfl | rfl <;> rfl
    refine hfits.next hremaining hresult (List.Subset.refl _) (fun r hr => hfits.ahead r ?_) rfl rfl ?_
      (hfits.published result hresult)
    · rcases hphase with rfl | rfl
      · exact List.mem_cons_of_mem _ hr
      · exact hr
    · rw [List.append_assoc]
  | threw c hrunning =>
    cases c with
    | transactional opts phase => exact h.insertsFirst rfl rfl
    | orderThenPublish opts phase => exact h.insertsFirst rfl rfl
    | publishThenOrder opts phase => exact hpublished opts phase .threw rfl nofun
    | drain limit phase => exact h.drainStep rfl nofun (DrainPhase.fits_idle rfl rfl rfl)

end OrderCall

/-! ## Steps -/

namespace OrdersWorld.DrainSound

theorem start : ({} : OrdersWorld).DrainSound where
  base := .start
  accounts _ _ hc := by cases hc
  callers _ _ := ⟨fun _ => List.not_mem_nil,fun _ => List.not_mem_nil⟩
  chosen _ _ hid := absurd hid List.not_mem_nil
  deliveredOnce := .nil
  selectedOnce := .nil
  marked _ hevent := absurd hevent List.not_mem_nil

private theorem update (h : w.DrainSound) (hbase : w'.Sound)
    (hcall : w'.call = Function.update w.call n (some c')) (hintents : w.intents ⊆ w'.intents)
    (hdelivered : ∀ m, m ≠ n → ∀ event, (m,event) ∈ w'.delivered ↔ (m,event) ∈ w.delivered)
    (hread : ∀ m, m ≠ n → w'.readBy m = w.readBy m)
    (hpublished : ∀ id, w.IsPublished id → w'.IsPublished id) (hown : c'.Accounts w' n)
    (hchosen : ∀ id ∈ w'.readBy n, id ∈ w'.intents.map Prod.fst)
    (hdeliveredOnce : w'.delivered.Nodup) (hselectedOnce : w'.selected.Nodup)
    (hmarked : ∀ event ∈ w'.outboxEvents, event.publishedAt.isSome = true →
      ∃ n, (n,event.brokerEvent) ∈ w'.delivered) : w'.DrainSound where
  base := hbase
  accounts m d hd := by
    rw [hcall] at hd
    rcases update_eq_some hd with ⟨rfl,rfl⟩ | ⟨hm,hd⟩
    · exact hown
    · exact (h.accounts m d hd).mono hintents (hdelivered m hm) (hread m hm) hpublished
  callers m hm := by
    rw [hcall] at hm
    by_cases hmn : m = n
    · subst hmn
      rw [Function.update_self] at hm
      cases hm
    · rw [Function.update_of_ne hmn] at hm
      obtain ⟨hselected,hnone⟩ := h.callers m hm
      refine ⟨fun id => ?_,fun event => ?_⟩
      · rw [← mem_readBy,hread m hmn,mem_readBy]
        exact hselected id
      · rw [hdelivered m hmn]
        exact hnone event
  chosen m id hid := by
    by_cases hmn : m = n
    · subst hmn
      exact hchosen id (mem_readBy.mpr hid)
    · rw [← mem_readBy,hread m hmn,mem_readBy] at hid
      exact List.map_subset Prod.fst hintents (h.chosen m id hid)
  deliveredOnce := hdeliveredOnce
  selectedOnce := hselectedOnce
  marked := hmarked

private theorem pass (h : w.DrainSound) (hbase : w'.Sound)
    (hcall : w'.call = Function.update w.call n (some c')) {events : List OutboxEventRow}
    (hevents : w'.outboxEvents = w.outboxEvents ++ events)
    (hnew : ∀ event ∈ events, event.publishedAt = none) (hdelivered : w'.delivered = w.delivered)
    (hselected : w'.selected = w.selected) (hown : c'.Accounts w n) : w'.DrainSound := by
  have hintents : w.intents ⊆ w'.intents := by
    unfold intents
    rw [hevents,List.map_append]
    exact List.subset_append_left _ _
  have hread : ∀ m, w'.readBy m = w.readBy m := fun m => by rw [readBy,hselected,readBy]
  have hpublished : ∀ id, w.IsPublished id → w'.IsPublished id := fun id hid => hid.append hevents
  refine h.update hbase hcall hintents (fun m _ event => by rw [hdelivered]) (fun m _ => hread m)
    hpublished (hown.mono hintents (fun event => by rw [hdelivered]) (hread n) hpublished) ?_ ?_ ?_
    ?_
  · intro id hid
    rw [hread,mem_readBy] at hid
    exact List.map_subset Prod.fst hintents (h.chosen n id hid)
  · rw [hdelivered]
    exact h.deliveredOnce
  · rw [hselected]
    exact h.selectedOnce
  · intro event hevent hsome
    rw [hdelivered]
    rw [hevents,List.mem_append] at hevent
    rcases hevent with hold | hnewEvent
    · exact h.marked event hold hsome
    · rw [hnew event hnewEvent] at hsome
      cases hsome

private theorem passQuiet (h : w.DrainSound) (hbase : w'.Sound)
    (hcall : w'.call = Function.update w.call n (some c'))
    (hevents : w'.outboxEvents = w.outboxEvents) (hdelivered : w'.delivered = w.delivered)
    (hselected : w'.selected = w.selected) (hown : c'.Accounts w n) : w'.DrainSound :=
  h.pass hbase hcall (hevents.trans (List.append_nil _).symm) nofun hdelivered hselected hown

private theorem skipped (h : w.DrainSound) (ms orderIds eventIds : Nat) :
    ({ w with
      clock := w.clock + ms
      orderSeq := w.orderSeq + orderIds
      eventSeq := w.eventSeq + eventIds } : OrdersWorld).DrainSound where
  base := h.base.skipped ms orderIds eventIds
  accounts m d hd :=
    (h.accounts m d hd).mono (List.Subset.refl _) (fun _ => Iff.rfl) rfl fun _ hid => hid
  callers := h.callers
  chosen := h.chosen
  deliveredOnce := h.deliveredOnce
  selectedOnce := h.selectedOnce
  marked := h.marked

private theorem selected (h : w.DrainSound) {limit : Nat} {rows : List OutboxEventRow}
    (hc : w.call n = some (.drain limit .selecting)) (hsub : rows ⊆ w.outboxEvents)
    (hnodup : (rows.map OutboxEventRow.id).Nodup) :
    ({ w.put n (.drain limit (.next ⟨rows.length,[],[]⟩ rows)) with
      selected := w.selected ++ rows.map fun row => (n,row.id) } : OrdersWorld).DrainSound := by
  obtain ⟨hunread,hunsent⟩ := (h.accounts n _ hc).silent
    (fun _ _ heq => by cases heq; rfl) nofun
  have hselected : w.selected ++ rows.map (fun row => (n,row.id)) =
      w.selected ++ (rows.map OutboxEventRow.id).map fun id => (n,id) := by
    rw [List.map_map]
    rfl
  have hknown : ∀ row ∈ rows, row.intent ∈ w.intents := fun row hrow => mem_intents (hsub hrow)
  have hfits : (DrainPhase.next ⟨rows.length,[],[]⟩ rows).Fits
      { w.put n (.drain limit (.next ⟨rows.length,[],[]⟩ rows)) with
        selected := w.selected ++ rows.map fun row => (n,row.id) } n := by
    refine ⟨?_,fun row _ => hunsent _,?_,?_,?_⟩
    · rw [DrainPhase.next_remaining]
      exact hknown
    · intro result row rest heq
      exact absurd heq ((DrainPhase.next_ne _ rows).2 result row rest)
    · intro result hresult
      rw [DrainPhase.next_result] at hresult
      cases hresult
      rw [readBy_own hselected hunread,DrainPhase.next_remaining,List.length_map]
      exact ⟨rfl,List.Perm.refl _⟩
    · intro result hresult
      rw [DrainPhase.next_result] at hresult
      cases hresult
      nofun
  refine h.update (h.base.drained hc rfl rfl rfl rfl rfl rfl) rfl (List.Subset.refl _)
    (fun m _ event => Iff.rfl) (fun m hm => readBy_other hselected hm) (fun _ hid => hid) ?_ ?_
    h.deliveredOnce ?_ h.marked
  · refine ⟨?_,fun id _ => ⟨limit,_,rfl,(DrainPhase.next_ne _ rows).1⟩,
      fun event hevent => absurd hevent (hunsent event)⟩
    rintro limit' phase heq
    cases heq
    exact hfits
  · intro id hid
    rw [readBy_own hselected hunread] at hid
    obtain ⟨row,hrow,rfl⟩ := List.mem_map.mp hid
    exact List.mem_map_of_mem (f := Prod.fst) (hknown row hrow)
  · refine List.nodup_append'.mpr ⟨h.selectedOnce,?_,?_⟩
    · rw [show (fun row : OutboxEventRow => (n,row.id)) = Prod.mk n ∘ OutboxEventRow.id from rfl,
        ← List.map_map]
      exact hnodup.map (Prod.mk_right_injective n)
    · intro entry hold hnew
      obtain ⟨row,_,rfl⟩ := List.mem_map.mp hnew
      exact hunread _ hold

theorem brokerEvent_ne (h : w.DrainSound) {row q : OutboxEventRow} (hrow : row.intent ∈ w.intents)
    (hq : q.intent ∈ w.intents) (hne : row.id ≠ q.id) : row.brokerEvent ≠ q.brokerEvent := by
  intro heq
  have hintent := h.base.intent_inj hrow hq (congrArg BrokerEvent.aggregateId heq)
  exact hne (congrArg Prod.fst hintent)

private theorem remaining_nodup (h : w.DrainSound) {limit : Nat} {phase : DrainPhase}
    {result : DrainOutboxResult} (hc : w.call n = some (.drain limit phase))
    (hresult : phase.result = some result) :
    (phase.remaining.map OutboxEventRow.id).Nodup := by
  have hperm := (((h.accounts n _ hc).drain limit phase rfl).books result hresult).2
  exact (hperm.nodup_iff.mpr (readBy_nodup h.selectedOnce n)).of_append_right

private theorem delivered (h : w.DrainSound) {limit : Nat} {result : DrainOutboxResult}
    {row : OutboxEventRow} {rest : List OutboxEventRow} {phase : DrainPhase}
    (hc : w.call n = some (.drain limit (.publishing result row rest)))
    (hphase : phase = .marking result row rest ∨
      phase = .next { result with failedIds := result.failedIds ++ [row.id] } rest) :
    (w.deliver n row.brokerEvent (.drain limit phase)).DrainSound := by
  have haccounts := h.accounts n _ hc
  have hfits := haccounts.drain limit _ rfl
  have hnodup := h.remaining_nodup hc rfl
  have hrest : ∀ r ∈ rest, (n,r.brokerEvent) ∉ w.delivered ++ [(n,row.brokerEvent)] := by
    intro r hr hmem
    rcases List.mem_append.mp hmem with hold | hlast
    · exact hfits.ahead r (List.mem_cons_of_mem _ hr) hold
    · have hne : r.id ≠ row.id := by
        rintro heq
        exact (List.nodup_cons.mp hnodup).1 (heq ▸ List.mem_map_of_mem hr)
      refine h.brokerEvent_ne (hfits.known r (List.mem_cons_of_mem _ hr))
        (hfits.known row List.mem_cons_self) hne ?_
      exact (Prod.mk.inj (List.mem_singleton.mp hlast)).2
  have hnext : phase.Fits (w.deliver n row.brokerEvent (.drain limit phase)) n := by
    rcases hphase with rfl | rfl
    · refine ⟨hfits.known,hrest,?_,hfits.books,hfits.published⟩
      intro result' row' rest' heq
      cases heq
      exact List.mem_append_right _ (List.mem_singleton_self _)
    · refine hfits.next rfl rfl (List.Subset.refl _) hrest rfl rfl ?_ (hfits.published result rfl)
      rw [List.append_assoc]
  have hread : (n,row.id) ∈ w.selected := by
    rw [← mem_readBy]
    refine (hfits.books result rfl).2.subset ?_
    exact List.mem_append_right _ List.mem_cons_self
  refine h.update (h.base.drained hc rfl rfl rfl rfl rfl rfl) rfl (List.Subset.refl _) ?_
    (fun _ _ => rfl) (fun _ hid => hid) ?_ ?_ ?_ h.selectedOnce ?_
  · intro m hm event
    refine ⟨fun hmem => (List.mem_append.mp hmem).resolve_right fun hlast => hm ?_,
      List.mem_append_left _⟩
    exact (Prod.mk.inj (List.mem_singleton.mp hlast)).1
  · refine ⟨?_,fun id _ => ⟨limit,phase,rfl,?_⟩,fun event hevent => ?_⟩
    · rintro limit' phase' heq
      cases heq
      exact hnext
    · rcases hphase with rfl | rfl
      · nofun
      · exact (DrainPhase.next_ne _ rest).1
    · rcases List.mem_append.mp hevent with hold | hlast
      · rcases haccounts.source event hold with hread | ⟨_,_,heq,_⟩
        · exact .inl hread
        · cases heq
      · obtain ⟨_,rfl⟩ := Prod.mk.inj (List.mem_singleton.mp hlast)
        exact .inl ⟨row.id,hfits.known row List.mem_cons_self,hread⟩
  · intro id hid
    exact h.chosen n id (mem_readBy.mp hid)
  · refine List.nodup_append'.mpr ⟨h.deliveredOnce,List.nodup_singleton _,?_⟩
    intro entry hold hlast
    rw [List.mem_singleton.mp hlast] at hold
    exact hfits.ahead row List.mem_cons_self hold
  · intro event hevent hsome
    obtain ⟨m,hm⟩ := h.marked event hevent hsome
    exact ⟨m,List.mem_append_left _ hm⟩

private theorem markedRow (h : w.DrainSound) {limit : Nat} {result result' : DrainOutboxResult}
    {row : OutboxEventRow} {rest : List OutboxEventRow}
    (hc : w.call n = some (.drain limit (.marking result row rest)))
    (hresult : result' = { result with publishedIds := result.publishedIds ++ [row.id] } ∨
      result' = { result with failedIds := result.failedIds ++ [row.id] }) :
    (w.markPublished n row.id (.drain limit (.next result' rest))).DrainSound := by
  have haccounts := h.accounts n _ hc
  have hfits := haccounts.drain limit _ rfl
  have hintents := w.intents_markPublished n row.id (.drain limit (.next result' rest))
  have hsub : w.intents ⊆
      (w.markPublished n row.id (.drain limit (.next result' rest))).intents := by
    rw [hintents]
    exact List.Subset.refl _
  have hnow : row.id ∈ w.intents.map Prod.fst :=
    List.mem_map_of_mem (f := Prod.fst) (hfits.known row List.mem_cons_self)
  have hnext : (DrainPhase.next result' rest).Fits
      (w.markPublished n row.id (.drain limit (.next result' rest))) n := by
    have hold : ∀ id ∈ result.publishedIds,
        (w.markPublished n row.id (.drain limit (.next result' rest))).IsPublished id :=
      fun id hid => (hfits.published result rfl id hid).mark
    rcases hresult with rfl | rfl
    · refine hfits.next rfl rfl hsub hfits.ahead rfl rfl ?_ ?_
      · rw [List.append_assoc,List.append_assoc]
        exact (List.perm_append_comm).append_left _
      · intro id hid
        rcases List.mem_append.mp hid with hid | hid
        · exact hold id hid
        · rw [List.mem_singleton.mp hid]
          exact isPublished_markPublished hnow
    · refine hfits.next rfl rfl hsub hfits.ahead rfl rfl ?_ hold
      rw [List.append_assoc]
  refine h.update (h.base.drained hc rfl rfl hintents rfl rfl rfl) rfl
    hsub (fun _ _ _ => Iff.rfl) (fun _ _ => rfl)
    (fun _ hid => hid.mark) ?_ ?_ h.deliveredOnce h.selectedOnce ?_
  · refine ⟨?_,fun id _ => ⟨limit,_,rfl,(DrainPhase.next_ne _ rest).1⟩,fun event hevent => ?_⟩
    · rintro limit' phase' heq
      cases heq
      exact hnext
    · rw [hintents]
      rcases haccounts.source event hevent with hread | ⟨_,_,heq,_⟩
      · exact .inl hread
      · cases heq
  · intro id hid
    rw [hintents]
    exact h.chosen n id (mem_readBy.mp hid)
  · intro event hevent hsome
    obtain ⟨old,hold,rfl⟩ := mem_updateWhere.mp hevent
    split at hsome
    · rename_i hid
      have hintent : old.intent = row.intent := eq_of_key_eq
        h.base.eventIds.nodup (mem_intents hold) (hfits.known row List.mem_cons_self)
        (beq_iff_eq.mp hid)
      rw [if_pos hid]
      refine ⟨n,?_⟩
      have hcurrent := hfits.current result row rest rfl
      rwa [← show old.brokerEvent = row.brokerEvent from congrArg Prod.snd hintent] at hcurrent
    · rename_i hid
      rw [if_neg hid]
      exact h.marked old hold hsome

private theorem announced (h : w.DrainSound) {opts : NaiveOptions}
    (hc : w.call n = some (.publishThenOrder opts .publishing)) :
    (w.deliver n opts.customerEvent (.publishThenOrder opts .insertingOrder)).DrainSound := by
  obtain ⟨hunread,hunsent⟩ := (h.accounts n _ hc).silent nofun
    (fun _ _ heq => by cases heq; rfl)
  have hbase : (w.deliver n opts.customerEvent (.publishThenOrder opts .insertingOrder)).Sound :=
    h.base.move (.announced n opts hc)
  refine h.update hbase rfl (List.Subset.refl _) ?_ (fun _ _ => rfl) (fun _ hid => hid) ?_ ?_ ?_
    h.selectedOnce ?_
  · intro m hm event
    refine ⟨fun hmem => (List.mem_append.mp hmem).resolve_right fun hlast => hm ?_,
      List.mem_append_left _⟩
    exact (Prod.mk.inj (List.mem_singleton.mp hlast)).1
  · refine ⟨nofun,fun id hid => absurd hid (hunread id),fun event hevent => ?_⟩
    rcases List.mem_append.mp hevent with hold | hlast
    · exact absurd hold (hunsent event)
    · obtain ⟨_,rfl⟩ := Prod.mk.inj (List.mem_singleton.mp hlast)
      exact .inr ⟨opts,.insertingOrder,rfl,nofun,rfl⟩
  · intro id hid
    exact h.chosen n id (mem_readBy.mp hid)
  · refine List.nodup_append'.mpr ⟨h.deliveredOnce,List.nodup_singleton _,?_⟩
    intro entry hold hlast
    rw [List.mem_singleton.mp hlast] at hold
    exact hunsent _ hold
  · intro event hevent hsome
    obtain ⟨m,hm⟩ := h.marked event hevent hsome
    exact ⟨m,List.mem_append_left _ hm⟩

private theorem started (h : w.DrainSound) (request : OrderRequest) (hnone : w.call n = none) :
    (w.put n request.call).DrainSound := by
  refine h.passQuiet (h.base.started request hnone) rfl rfl rfl rfl ?_
  refine OrderCall.accounts_of_silent (h.callers n hnone) fun limit phase heq => ?_
  cases request <;> cases heq
  exact .inl rfl

theorem move (h : w.DrainSound) (hmove : OrdersMove w w') : w'.DrainSound := by
  have hbase := h.base.move hmove
  cases hmove with
  | skipped ms orderIds eventIds => exact h.skipped ms orderIds eventIds
  | started n request hnone => exact h.started request hnone
  | stepped n c c' hc hquiet =>
    exact h.passQuiet hbase rfl rfl rfl rfl (hquiet.accounts (h.accounts n c hc))
  | insertedOrder n opts now hc hvalid =>
    exact h.passQuiet hbase rfl rfl rfl rfl
      ((h.accounts n _ hc).insertsFirst rfl rfl)
  | insertedEvent n opts now order hc hvalid =>
    exact h.passQuiet hbase rfl rfl rfl rfl
      ((h.accounts n _ hc).insertsFirst rfl rfl)
  | inserted n opts phase hc hphase hvalid =>
    exact h.passQuiet hbase rfl rfl rfl rfl
      ((h.accounts n _ hc).insertsFirst rfl rfl)
  | committed n opts order event phase hc hphase =>
    refine h.pass hbase rfl rfl ?_ rfl rfl
      ((h.accounts n _ hc).insertsFirst rfl rfl)
    intro new hnew
    rw [List.mem_singleton.mp hnew]
    exact (h.base.fits n _ hc).2.2.2
  | announced n opts hc => exact h.announced hc
  | selected n limit ordered hc hperm hsorted =>
    have hsub : ordered.take limit ⊆ w.outboxEvents.filter (·.publishedAt.isNone) :=
      fun row hrow => hperm.subset (List.mem_of_mem_take hrow)
    refine h.selected hc (fun row hrow => List.mem_of_mem_filter (hsub hrow)) ?_
    have hids := h.base.eventIds.nodup
    rw [← w.eventIds_eq] at hids
    have hfiltered : ((w.outboxEvents.filter (·.publishedAt.isNone)).map OutboxEventRow.id).Nodup :=
      hids.sublist (List.filter_sublist.map _)
    exact ((hperm.map _).nodup_iff.mpr hfiltered).sublist ((List.take_sublist _ _).map _)
  | delivered n limit result row rest phase hc hphase => exact h.delivered hc hphase
  | marked n limit result result' row rest hc hresult => exact h.markedRow hc hresult

theorem reachable (h : Reachable ordersStep (· = {}) w) : w.DrainSound :=
  ReachableBy.invariant (by rintro s rfl; exact start)
    (fun _ _ _ hs _ hstep => hs.move (ordersStep_move hstep)) h

/-! ## Deliveries -/

private theorem deliveriesOf_pos (h : w.DrainSound) {event : OutboxEventRow}
    (hevent : event ∈ w.outboxEvents)
    (hsome : event.publishedAt.isSome = true) : 0 < w.deliveriesOf event := by
  obtain ⟨n,hn⟩ := h.marked event hevent hsome
  exact List.count_pos_iff.mpr (List.mem_map_of_mem (f := Prod.snd) hn)

private theorem readBy_of_delivered (h : w.DrainSound) {event : OutboxEventRow}
    (hevent : event ∈ w.outboxEvents) (hn : (n,event.brokerEvent) ∈ w.delivered) :
    (n,event.id) ∈ w.selected := by
  cases hc : w.call n with
  | none => exact absurd hn ((h.callers n hc).2 _)
  | some c =>
    have hintent := mem_intents hevent
    rcases (h.accounts n c hc).source _ hn with ⟨id,hid,hread⟩ | ⟨opts,_,_,_,hcustomer⟩
    · have heq := h.base.intent_inj hid hintent rfl
      rwa [show id = event.id from congrArg Prod.fst heq] at hread
    · refine absurd (h.base.owned _ hintent) ?_
      rw [show event.intent.2 = opts.customerEvent from hcustomer]
      exact h.base.customerEvent_notMem opts

private theorem deliveriesOf_le (h : w.DrainSound) {event : OutboxEventRow}
    (hevent : event ∈ w.outboxEvents) : w.deliveriesOf event ≤ w.selectionsOf event :=
  count_snd_le h.deliveredOnce fun _ hn => h.readBy_of_delivered hevent hn

theorem sound (h : w.DrainSound) {event : BrokerEvent} (hn : (n,event) ∈ w.delivered) :
    (∃ row ∈ w.outboxEvents, row.brokerEvent = event ∧ (n,row.id) ∈ w.selected) ∨
      (∃ opts phase, w.call n = some (.publishThenOrder opts phase) ∧ event = opts.customerEvent) ∧
        event.aggregateId ∉ w.orders.map OrderRow.id := by
  cases hc : w.call n with
  | none => exact absurd hn ((h.callers n hc).2 _)
  | some c =>
    rcases (h.accounts n c hc).source _ hn with ⟨id,hid,hread⟩ | ⟨opts,phase,rfl,_,rfl⟩
    · obtain ⟨row,hrow,heq⟩ := List.mem_map.mp hid
      obtain ⟨rfl,rfl⟩ := Prod.mk.inj heq
      exact .inl ⟨row,hrow,rfl,hread⟩
    · exact .inr ⟨⟨opts,phase,rfl,rfl⟩,h.base.customerEvent_notMem opts⟩

private theorem reported (h : w.DrainSound) {limit : Nat} {result : DrainOutboxResult}
    (hc : w.call n = some (.drain limit (.returned result))) :
    result.attempted = (w.readBy n).length ∧
      (result.publishedIds ++ result.failedIds).Perm (w.readBy n) ∧ (w.readBy n).Nodup ∧
      ∀ id ∈ result.publishedIds, w.IsPublished id := by
  have hfits := (h.accounts n _ hc).drain limit _ rfl
  obtain ⟨hattempted,hperm⟩ := hfits.books result rfl
  rw [show (DrainPhase.returned result).remaining = [] from rfl,List.map_nil,List.append_nil]
    at hperm
  exact ⟨hattempted,hperm,readBy_nodup h.selectedOnce n,hfits.published result rfl⟩

end OrdersWorld.DrainSound

/-! ## Events that are settled -/

/-- The event is marked, and no drain that has read it before is still to hand it over. -/
def OrdersWorld.Settled (w : OrdersWorld) (id : Nat) : Prop :=
  w.IsPublished id ∧ ∀ n c, w.call n = some c → id ∉ c.queue.map OutboxEventRow.id

namespace OrderCall

private theorem threw_queue (c : OrderCall) : c.threw.queue = [] := by
  cases c <;> rfl

private theorem Quiet.queue_subset (h : c.Quiet c') : c'.queue ⊆ c.queue := by
  cases h with
  | passed limit phase result row rest hphase =>
    change (DrainPhase.next _ rest).queue ⊆ phase.queue
    rw [DrainPhase.next_queue]
    rcases hphase with rfl | rfl
    · exact List.subset_cons_self row rest
    · exact List.Subset.refl _
  | threw c _ =>
    rw [threw_queue]
    exact List.nil_subset _
  | _ => exact List.nil_subset _

end OrderCall

namespace OrdersMove

open OrdersWorld

private theorem isPublished (hmove : OrdersMove w w') {id : Nat} (h : w.IsPublished id) :
    w'.IsPublished id := by
  cases hmove with
  | committed n opts order event phase hc hphase => exact h.append rfl
  | marked n limit result result' row rest hc hresult => exact h.mark
  | _ => exact h

private theorem intents_subset (hmove : OrdersMove w w') : w.intents ⊆ w'.intents := by
  cases hmove with
  | committed n opts order event phase hc hphase =>
    unfold intents OrdersWorld.commit
    rw [List.map_append]
    exact List.subset_append_left _ _
  | marked n limit result result' row rest hc hresult =>
    rw [intents_markPublished]
    exact List.Subset.refl _
  | _ => exact List.Subset.refl _

private theorem queued (hmove : OrdersMove w w') {row : OutboxEventRow}
    (hc : w'.call n = some c') (hrow : row ∈ c'.queue) :
    (∃ c, w.call n = some c ∧ row ∈ c.queue) ∨ row ∈ w.outboxEvents ∧ row.publishedAt = none := by
  have hmoved : ∀ {m c d}, Function.update w.call m (some d) n = some c' → w.call m = some c →
      d.queue ⊆ c.queue → ∃ c, w.call n = some c ∧ row ∈ c.queue := by
    intro m c d hcall hm hsub
    rcases update_eq_some hcall with ⟨rfl,rfl⟩ | ⟨_,hn⟩
    · exact ⟨c,hm,hsub hrow⟩
    · exact ⟨c',hn,hrow⟩
  cases hmove with
  | skipped ms orderIds eventIds => exact .inl ⟨c',hc,hrow⟩
  | started m request hnone =>
    rcases update_eq_some hc with ⟨rfl,rfl⟩ | ⟨_,hn⟩
    · cases request <;> cases hrow
    · exact .inl ⟨c',hn,hrow⟩
  | stepped m c d hm hquiet => exact .inl (hmoved hc hm hquiet.queue_subset)
  | insertedOrder m opts now hm _ => exact .inl (hmoved hc hm (List.nil_subset _))
  | insertedEvent m opts now order hm _ => exact .inl (hmoved hc hm (List.nil_subset _))
  | committed m opts order event phase hm _ => exact .inl (hmoved hc hm (List.nil_subset _))
  | inserted m opts phase hm _ _ => exact .inl (hmoved hc hm (List.nil_subset _))
  | announced m opts hm => exact .inl (hmoved hc hm (List.nil_subset _))
  | selected m limit ordered hm hperm hsorted =>
    rcases update_eq_some hc with ⟨rfl,rfl⟩ | ⟨_,hn⟩
    · change row ∈ (DrainPhase.next _ (ordered.take limit)).queue at hrow
      rw [DrainPhase.next_queue] at hrow
      have hmem := List.mem_filter.mp (hperm.subset (List.mem_of_mem_take hrow))
      exact .inr ⟨hmem.1,by simpa using hmem.2⟩
    · exact .inl ⟨c',hn,hrow⟩
  | delivered m limit result r rest phase hm hphase =>
    refine .inl (hmoved hc hm ?_)
    change phase.queue ⊆ r::rest
    rcases hphase with rfl | rfl
    · exact List.subset_cons_self r rest
    · rw [DrainPhase.next_queue]
      exact List.subset_cons_self r rest
  | marked m limit result result' r rest hm hresult =>
    refine .inl (hmoved hc hm ?_)
    change (DrainPhase.next result' rest).queue ⊆ rest
    rw [DrainPhase.next_queue]
    exact List.Subset.refl _

private theorem handedOver (hmove : OrdersMove w w') : w'.delivered = w.delivered ∨
    ∃ n c event, w.call n = some c ∧ w'.delivered = w.delivered ++ [(n,event)] ∧
      ((∃ row ∈ c.queue, row.brokerEvent = event) ∨ ∃ opts : NaiveOptions, event = opts.customerEvent) := by
  cases hmove with
  | announced n opts hc => exact .inr ⟨n,_,_,hc,rfl,.inr ⟨opts,rfl⟩⟩
  | delivered n limit result row rest phase hc hphase =>
    exact .inr ⟨n,_,_,hc,rfl,.inl ⟨row,List.mem_cons_self,rfl⟩⟩
  | _ => exact .inl rfl

end OrdersMove

namespace OrdersWorld

/-- A settled event stays settled, and is not handed over again. -/
theorem DrainSound.settled (h : w.DrainSound) (hmove : OrdersMove w w')
    {intent : Nat × BrokerEvent} (hintent : intent ∈ w.intents) (hsettled : w.Settled intent.1) :
    w'.Settled intent.1 ∧
      (w'.delivered.map Prod.snd).count intent.2 = (w.delivered.map Prod.snd).count intent.2 := by
  obtain ⟨hpublished,hqueues⟩ := hsettled
  refine ⟨⟨hmove.isPublished hpublished,fun n c' hc hmem => ?_⟩,?_⟩
  · obtain ⟨row,hrow,hid⟩ := List.mem_map.mp hmem
    rcases hmove.queued hc hrow with ⟨c,hold,hin⟩ | ⟨hin,hnone⟩
    · exact hqueues n c hold (hid ▸ List.mem_map_of_mem hin)
    · obtain ⟨event,hevent,hevid,hsome⟩ := hpublished
      have hids := h.base.eventIds.nodup
      rw [← w.eventIds_eq] at hids
      rw [eq_of_key_eq hids hevent hin (hevid.trans hid.symm),hnone] at hsome
      cases hsome
  · rcases hmove.handedOver with hsame | ⟨n,c,event,hc,hdelivered,hevent⟩
    · rw [hsame]
    · rw [hdelivered,List.map_append,List.count_append,Nat.add_eq_left,List.count_eq_zero]
      intro hmem
      have heq : intent.2 = event := List.mem_singleton.mp hmem
      rcases hevent with ⟨row,hrow,rfl⟩ | ⟨opts,rfl⟩
      · have hknown : row.intent ∈ w.intents := by
          cases c with
          | drain limit phase =>
            refine ((h.accounts n _ hc).drain limit phase rfl).known row ?_
            cases phase with
            | publishing result r rest => exact hrow
            | marking result r rest => exact List.mem_cons_of_mem _ hrow
            | _ => cases hrow
          | _ => cases hrow
        have hsame := h.base.intent_inj hintent hknown (congrArg BrokerEvent.aggregateId heq)
        refine hqueues n c hc ?_
        rw [congrArg Prod.fst hsame]
        exact List.mem_map_of_mem hrow
      · refine h.base.customerEvent_notMem opts ?_
        rw [← heq]
        exact h.base.owned intent hintent

theorem DrainSound.settled_run (h : w.DrainSound) {es : List OrdersEvent}
    (hrun : run ordersStep w es = some w') {intent : Nat × BrokerEvent}
    (hintent : intent ∈ w.intents) (hsettled : w.Settled intent.1) :
    (w'.delivered.map Prod.snd).count intent.2 = (w.delivered.map Prod.snd).count intent.2 := by
  have hkeep : ∀ v e v', (v.DrainSound ∧ intent ∈ v.intents ∧ v.Settled intent.1 ∧
      (v.delivered.map Prod.snd).count intent.2 = (w.delivered.map Prod.snd).count intent.2) →
      ordersStep v e = some v' → v'.DrainSound ∧ intent ∈ v'.intents ∧ v'.Settled intent.1 ∧
      (v'.delivered.map Prod.snd).count intent.2 = (w.delivered.map Prod.snd).count intent.2 := by
    rintro v e v' ⟨hv,hin,hs,hcount⟩ hstep
    have hmove := ordersStep_move hstep
    obtain ⟨hs',hcount'⟩ := hv.settled hmove hin hs
    exact ⟨hv.move hmove,hmove.intents_subset hin,hs',hcount'.trans hcount⟩
  exact (run_invariant hkeep ⟨h,hintent,hsettled,rfl⟩ hrun).2.2.2

end OrdersWorld

/-- Whatever fails or crashes, and however many drains run side by side: what is marked has been
delivered, what is delivered was recorded, an event is delivered at most once for each drain that
has read it, and a settled one never again. -/
theorem drainOutbox_delivers {w : OrdersWorld} (h : Reachable ordersStep (· = {}) w) :
    w.Drained ∧ ∀ es w', run ordersStep w es = some w' → ∀ event ∈ w.outboxEvents,
      w.Settled event.id → w'.deliveriesOf event = w.deliveriesOf event := by
  have hsound := OrdersWorld.DrainSound.reachable h
  refine ⟨⟨fun n event hn => hsound.sound hn,fun event => hsound.deliveriesOf_pos,
    fun event => hsound.deliveriesOf_le,fun n event =>
      List.nodup_iff_count_le_one.mp hsound.deliveredOnce (n,event),
    fun n limit result hc => hsound.reported hc⟩,?_⟩
  intro es w' hrun event hevent hsettled
  exact hsound.settled_run hrun (OrdersWorld.mem_intents hevent) hsettled

/-- Ada's event, as it was committed. -/
def adasEvent : OutboxEventRow where
  id := 1
  aggregateType := "order"
  aggregateId := 1
  eventType := "OrderCreated"
  payload := .ofOrder 1 3200
  createdAt := 0

/-- A drain that crashes before it marks the event it has delivered, and another one after it. -/
theorem drainOutbox_delivers_twice : ∃ w : OrdersWorld, w.Drained ∧
    w.deliveriesOf adasEvent = 2 := by
  have hend : (run ordersStep {} (fourOrders ++ [.start 4 (.drainOutbox none),.select 4 [adasEvent],
      .query 4,.crash 4,.start 5 (.drainOutbox none),.select 5 [adasEvent],.query 5,.query 5])).any
      (fun w => w.deliveriesOf adasEvent == 2) = true := by decide +kernel
  obtain ⟨w,hrun,hresult,hreachable⟩ := exists_run_of_any hend
  exact ⟨w,(drainOutbox_delivers hreachable).1,beq_iff_eq.mp hresult⟩

end SystemsLab.OrderOutbox
