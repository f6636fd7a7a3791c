import Mathlib.Algebra.BigOperators.Group.Finset.Piecewise
import SystemsLab.Capstone.FailedEvents

/-!
# Who has made the calls

A worker reads the call count of the notification service before and after `sendProtected`
and books the difference as its own. Sends are logged when they settle, so the difference
holds every send that has settled in between, whoever has made it and however long ago. What
the workers book together is therefore the number of sends exactly if every send settles
while one worker waits.
-/

namespace SystemsLab.Capstone

open SystemsLab.Outbox SystemsLab.Resilience

/-- The loop is between its two readings of the call count. -/
def ProtectedPhase.waiting : ProtectedPhase → Bool
  | .sending .. => true
  | .backoff .. => true
  | _ => false

/-- The calls a loop has booked, and those it would book if its send ended now. -/
def ProtectedWorker.attributed (worker : ProtectedWorker) (totalCallCount : Nat) : Nat :=
  worker.stats.notificationCallsMade +
    if worker.phase.waiting then totalCallCount - worker.callsBefore else 0

/-- The claims a loop has booked, and the one it is busy with. -/
def ProtectedWorker.claims (worker : ProtectedWorker) : Nat :=
  worker.stats.published + worker.stats.failed + worker.phase.event.toList.length

section Books

variable {worker : ProtectedWorker} {n : Nat}

private theorem ProtectedWorker.attributed_waiting (h : worker.phase.waiting = true) :
    worker.attributed n =
      worker.stats.notificationCallsMade + (n - worker.callsBefore) := by
  simp [attributed,h]

private theorem ProtectedWorker.attributed_idle (h : worker.phase.waiting = false) :
    worker.attributed n = worker.stats.notificationCallsMade := by
  simp [attributed,h]

private theorem ProtectedWorker.claims_busy {event : ClaimedEvent}
    (h : worker.phase.event = some event) :
    worker.claims = worker.stats.published + worker.stats.failed + 1 := by
  simp [claims,h]

private theorem ProtectedWorker.claims_idle (h : worker.phase.event = none) :
    worker.claims = worker.stats.published + worker.stats.failed := by
  simp [claims,h]

end Books

def grantsTo (workerId : String) (log : List (LeaseEntry Nat String)) : Nat :=
  log.countP fun
    | .granted lease _ => lease.holder == workerId
    | .settled _ => false

@[simp] theorem grantsTo_nil (v : String) : grantsTo v [] = 0 := rfl

private theorem grantsTo_granted (v : String) (l : Lease Nat String) (time : Int)
    (log : List (LeaseEntry Nat String)) :
    grantsTo v (.granted l time::log) = grantsTo v log + if l.holder = v then 1 else 0 := by
  simp [grantsTo,List.countP_cons]

private theorem grantsTo_settled (v : String) (leases : List (Lease Nat String))
    (log : List (LeaseEntry Nat String)) :
    grantsTo v (leases.map .settled ++ log) = grantsTo v log := by
  simp [grantsTo,List.countP_append,List.countP_map,Function.comp_def]

/-- A loop moves on, and the notification service logs nothing. -/
structure LoopMoves (w w' : PipelineWorld) (v : String) (b : ProtectedWorker) : Prop where
  worker : w'.worker = Function.update w.worker v b
  callLog : w'.callLog = w.callLog
  outcome : w'.outcome = w.outcome
  sends : w.sends.length ≤ w'.sends.length
  attributed : b.attributed w.callLog.length = (w.worker v).attributed w.callLog.length
  before : (w.worker v).callsBefore ≤ w.callLog.length → b.callsBefore ≤ w.callLog.length
  claims : b.claims + grantsTo v w.log = (w.worker v).claims + grantsTo v w'.log
  others : ∀ u, u ≠ v → grantsTo u w'.log = grantsTo u w.log

/-- The database answers every statement, and no worker is killed. -/
def PipelineEvent.Succeeds : PipelineEvent → Prop
  | .claim _ _ _ commit => commit = .acknowledged
  | .record _ commit => commit = .acknowledged
  | .mark _ _ commit => commit = .acknowledged
  | .crash _ => False
  | _ => True

instance : ∀ e, Decidable (PipelineEvent.Succeeds e)
  | .claim _ _ _ commit => inferInstanceAs (Decidable (commit = .acknowledged))
  | .record _ commit => inferInstanceAs (Decidable (commit = .acknowledged))
  | .mark _ _ commit => inferInstanceAs (Decidable (commit = .acknowledged))
  | .crash _ => isFalse id
  | .finish _ => isTrue trivial
  | .enter _ => isTrue trivial
  | .settle _ _ _ => isTrue trivial
  | .resume _ => isTrue trivial
  | .timeout _ => isTrue trivial
  | .wake _ => isTrue trivial
  | .advance _ => isTrue trivial

private theorem LoopMoves.of_sent {f : Fleet} {w : PipelineWorld} {v : String} {call : CallPhase}
    {event : ClaimedEvent} (success : Bool) (hwaiting : (w.worker v).phase.waiting = true)
    (hevent : (w.worker v).phase.event = some event) :
    ∃ b, LoopMoves w (w.sent f v call event success) v b := by
  refine ⟨_,rfl,rfl,rfl,le_rfl,?_,id,?_,fun _ _ => rfl⟩
  · rw [ProtectedWorker.attributed_waiting hwaiting]
    cases success <;> exact ProtectedWorker.attributed_idle rfl
  · rw [ProtectedWorker.claims_busy hevent]
    cases success <;> rfl

private theorem LoopMoves.of_attemptFailed {f : Fleet} {w : PipelineWorld} {v : String}
    {call : CallPhase} {event : ClaimedEvent} {attempt : Nat} (retryable : Bool)
    (hwaiting : (w.worker v).phase.waiting = true)
    (hevent : (w.worker v).phase.event = some event) :
    ∃ b, LoopMoves w (w.attemptFailed f v call event attempt retryable) v b := by
  unfold PipelineWorld.attemptFailed
  split
  · refine ⟨_,rfl,rfl,rfl,le_rfl,?_,id,?_,fun _ _ => rfl⟩
    · rw [ProtectedWorker.attributed_waiting hwaiting]
      exact ProtectedWorker.attributed_waiting rfl
    · rw [ProtectedWorker.claims_busy hevent]
      rfl
  · exact LoopMoves.of_sent false hwaiting hevent

theorem LoopMoves.of_move {w w₁ : PipelineWorld} {v : String} {phase : ProtectedPhase}
    (hsame : w₁.worker = w.worker ∧ w₁.callLog = w.callLog ∧ w₁.outcome = w.outcome ∧
      w₁.sends = w.sends ∧ w₁.log = w.log) (hwaiting : (w.worker v).phase.waiting = false)
    (hwaiting' : phase.waiting = false) (hevent : phase.event = (w.worker v).phase.event) :
    ∃ b, LoopMoves w (w₁.move v phase) v b := by
  obtain ⟨hworker,hcallLog,houtcome,hsends,hlog⟩ := hsame
  refine ⟨{ w.worker v with phase },?_,hcallLog,houtcome,hsends.symm ▸ le_rfl,?_,id,?_,
    fun u _ => congrArg (grantsTo u) hlog⟩
  · rw [← hworker]
    rfl
  · rw [ProtectedWorker.attributed_idle hwaiting]
    exact ProtectedWorker.attributed_idle hwaiting'
  · have hclaims : ({ w.worker v with phase } : ProtectedWorker).claims = (w.worker v).claims := by
      rw [ProtectedWorker.claims,hevent]
      rfl
    rw [hclaims]
    exact congrArg _ (congrArg (grantsTo v) hlog).symm

private theorem LoopMoves.of_enter {f : Fleet} {w w' : PipelineWorld} {v : String}
    (h : pipelineStep f w (.enter v) = some w') : ∃ b, LoopMoves w w' v b := by
  unfold pipelineStep at h
  dsimp only at h
  split at h
  · rename_i event hp
    have hidle : (w.worker v).attributed w.callLog.length =
        (w.worker v).stats.notificationCallsMade :=
      ProtectedWorker.attributed_idle (by rw [hp]; rfl)
    have hbusy := ProtectedWorker.claims_busy
      (show (w.worker v).phase.event = some event by rw [hp]; rfl)
    have hstarted : ∀ b : ProtectedWorker, b.phase.waiting = true →
        b.stats = (w.worker v).stats → b.callsBefore = w.callLog.length →
        b.attributed w.callLog.length = (w.worker v).attributed w.callLog.length := by
      intro b hb hstats hbefore
      rw [hidle,ProtectedWorker.attributed_waiting hb,hstats,hbefore,Nat.sub_self,Nat.add_zero]
    split at h
    · cases h
      refine ⟨_,rfl,rfl,rfl,le_rfl,?_,fun _ => le_rfl,?_,fun _ _ => rfl⟩
      · rw [hidle]
        exact ProtectedWorker.attributed_idle rfl
      · rw [hbusy]
        rfl
    · split at h <;> cases h
      · rename_i hle
        have hle' : 1 ≤ (f.optsOf v).maxAttempts := hle
        unfold PipelineWorld.attempt
        rw [if_pos hle']
        simp only [PipelineWorld.move,PipelineWorld.put,Function.update_idem,
          Function.update_self]
        refine ⟨_,rfl,rfl,rfl,Nat.le_succ _,hstarted _ rfl rfl rfl,fun _ => le_rfl,?_,
          fun _ _ => rfl⟩
        rw [hbusy]
        rfl
      · simp only [PipelineWorld.move,PipelineWorld.put,Function.update_idem,
          Function.update_self]
        refine ⟨_,rfl,rfl,rfl,le_rfl,hstarted _ rfl rfl rfl,fun _ => le_rfl,?_,
          fun _ _ => rfl⟩
        rw [hbusy]
        rfl
  · cases h

private theorem LoopMoves.of_wake {f : Fleet} {w w' : PipelineWorld} {v : String}
    (h : pipelineStep f w (.wake v) = some w') : ∃ b, LoopMoves w w' v b := by
  unfold pipelineStep at h
  dsimp only at h
  split at h <;> cases h
  rename_i call event attempt hp
  have hwaiting : (w.worker v).phase.waiting = true := by rw [hp]; rfl
  have hevent : (w.worker v).phase.event = some event := by rw [hp]; rfl
  unfold PipelineWorld.attempt
  split
  · refine ⟨_,rfl,rfl,rfl,Nat.le_succ _,?_,id,?_,fun _ _ => rfl⟩
    · rw [ProtectedWorker.attributed_waiting hwaiting]
      exact ProtectedWorker.attributed_waiting rfl
    · rw [ProtectedWorker.claims_busy hevent]
      rfl
  · exact LoopMoves.of_sent false hwaiting hevent

theorem LoopMoves.of_claim {f : Fleet} {w w' : PipelineWorld} {v : String} {now : Int}
    {locked : Nat → Bool} (h : pipelineStep f w (.claim v now locked .acknowledged) = some w') :
    ∃ b, LoopMoves w w' v b := by
  unfold pipelineStep at h
  dsimp only at h
  split at h
  · rename_i n hp
    have hwaiting : (w.worker v).phase.waiting = false := by rw [hp]; rfl
    have hnone : (w.worker v).phase.event = none := by rw [hp]; rfl
    have hfree := ProtectedWorker.claims_idle hnone
    split at h
    · split at h <;> cases h
      · exact LoopMoves.of_move ⟨rfl,rfl,rfl,rfl,rfl⟩ hwaiting rfl hnone.symm
      · refine ⟨_,rfl,rfl,rfl,le_rfl,?_,id,?_,fun u hu => ?_⟩
        · rw [ProtectedWorker.attributed_idle hwaiting]
          exact ProtectedWorker.attributed_idle rfl
        · rw [hfree,PipelineWorld.put,grantsTo_granted,if_pos rfl,
            ProtectedWorker.claims_busy rfl]
          dsimp only
          omega
        · rw [PipelineWorld.put,grantsTo_granted,if_neg (Ne.symm hu),Nat.add_zero]
    · cases h
  · cases h

private theorem LoopMoves.of_finish {f : Fleet} {w w' : PipelineWorld} {v : String}
    (h : pipelineStep f w (.finish v) = some w') : ∃ b, LoopMoves w w' v b := by
  unfold pipelineStep at h
  dsimp only at h
  split at h
  · rename_i n hp
    have hwaiting : (w.worker v).phase.waiting = false := by rw [hp]; rfl
    have hnone : (w.worker v).phase.event = none := by rw [hp]; rfl
    split at h <;> cases h
    exact LoopMoves.of_move ⟨rfl,rfl,rfl,rfl,rfl⟩ hwaiting rfl hnone.symm
  · cases h

private theorem LoopMoves.of_record {f : Fleet} {w w' : PipelineWorld} {v : String}
    (h : pipelineStep f w (.record v .acknowledged) = some w') : ∃ b, LoopMoves w w' v b := by
  unfold pipelineStep at h
  dsimp only at h
  split at h
  · rename_i event hp
    cases h
    have hwaiting : (w.worker v).phase.waiting = false := by rw [hp]; rfl
    have hevent : (w.worker v).phase.event = some event := by rw [hp]; rfl
    exact LoopMoves.of_move ⟨rfl,rfl,rfl,rfl,rfl⟩ hwaiting rfl hevent.symm
  · rename_i event circuitOpen hp
    cases h
    have hwaiting : (w.worker v).phase.waiting = false := by rw [hp]; rfl
    have hevent : (w.worker v).phase.event = some event := by rw [hp]; rfl
    exact LoopMoves.of_move ⟨rfl,rfl,rfl,rfl,rfl⟩ hwaiting rfl hevent.symm
  · cases h

/-- The claim the loop was busy with is booked. -/
theorem LoopMoves.of_mark {f : Fleet} {w w' : PipelineWorld} {v : String} {now : Int}
    (h : pipelineStep f w (.mark v now .acknowledged) = some w') :
    ∃ b, LoopMoves w w' v b := by
  have hmove : ∀ (event : ClaimedEvent) (rows : List (OutboxRow EventPayload))
      (stats : ProtectedWorkerStats), (w.worker v).phase.waiting = false →
      (w.worker v).phase.event = some event →
      stats.notificationCallsMade = (w.worker v).stats.notificationCallsMade →
      stats.published + stats.failed =
        (w.worker v).stats.published + (w.worker v).stats.failed + 1 →
      ∃ b, LoopMoves w (PipelineWorld.put { w with
        rows, log := (w.worker v).lease.toList.map .settled ++ w.log } v
          ((w.worker v).next stats)) v b := by
    intro event rows stats hwaiting hevent hcalls hbooked
    refine ⟨_,rfl,rfl,rfl,le_rfl,?_,id,?_,fun u _ => grantsTo_settled u _ _⟩
    · rw [ProtectedWorker.attributed_idle hwaiting,← hcalls]
      exact ProtectedWorker.attributed_idle rfl
    · rw [ProtectedWorker.claims_busy hevent,PipelineWorld.put,grantsTo_settled,← hbooked]
      rfl
  unfold pipelineStep at h
  dsimp only at h
  split at h
  · rename_i event hp
    cases h
    exact hmove event _
      { (w.worker v).stats with published := (w.worker v).stats.published + 1 }
      (by rw [hp]; rfl) (by rw [hp]; rfl) rfl (Nat.succ_add _ _)
  · rename_i event circuitOpen hp
    cases h
    exact hmove event _ _ (by rw [hp]; rfl) (by rw [hp]; rfl) rfl rfl
  · cases h

private theorem pipelineStep_loop {f : Fleet} {w w' : PipelineWorld} {e : PipelineEvent}
    (h : pipelineStep f w e = some w') (hok : e.Succeeds)
    (hsettle : ∀ send outcome latencyMs, e ≠ .settle send outcome latencyMs) :
    ∃ v b, LoopMoves w w' v b := by
  cases e with
  | claim v now locked commit =>
    obtain rfl : commit = .acknowledged := hok
    exact ⟨v,LoopMoves.of_claim h⟩
  | finish v => exact ⟨v,LoopMoves.of_finish h⟩
  | enter v => exact ⟨v,LoopMoves.of_enter h⟩
  | settle send outcome latencyMs => exact absurd rfl (hsettle send outcome latencyMs)
  | resume v =>
    unfold pipelineStep at h
    dsimp only at h
    split at h
    · rename_i call event attempt send since hp
      have hwaiting : (w.worker v).phase.waiting = true := by rw [hp]; rfl
      have hevent : (w.worker v).phase.event = some event := by rw [hp]; rfl
      split at h <;> cases h
      · exact ⟨v,LoopMoves.of_sent true hwaiting hevent⟩
      · exact ⟨v,LoopMoves.of_attemptFailed true hwaiting hevent⟩
      · exact ⟨v,LoopMoves.of_attemptFailed false hwaiting hevent⟩
    · cases h
  | timeout v =>
    unfold pipelineStep at h
    dsimp only at h
    split at h
    · rename_i call event attempt send since hp
      split at h <;> cases h
      exact ⟨v,LoopMoves.of_attemptFailed true (by rw [hp]; rfl) (by rw [hp]; rfl)⟩
    · cases h
  | wake v => exact ⟨v,LoopMoves.of_wake h⟩
  | record v commit =>
    obtain rfl : commit = .acknowledged := hok
    exact ⟨v,LoopMoves.of_record h⟩
  | mark v now commit =>
    obtain rfl : commit = .acknowledged := hok
    exact ⟨v,LoopMoves.of_mark h⟩
  | crash v => exact hok.elim
  | advance ms =>
    cases h
    exact ⟨"",w.worker "",(Function.update_eq_self "" w.worker).symm,rfl,rfl,le_rfl,rfl,id,rfl,
      fun _ _ => rfl⟩

/-- The loops a send that settles now is counted by. -/
def PipelineWorld.waiting (w : PipelineWorld) (ids : Finset String) : Finset String :=
  ids.filter fun v => (w.worker v).phase.waiting = true

def PipelineWorld.attributed (w : PipelineWorld) (ids : Finset String) : Nat :=
  ∑ v ∈ ids, (w.worker v).attributed w.callLog.length

/-- Both readings are of one growing log, each settled send is logged once, and each claim is
booked or being worked on. -/
structure PipelineWorld.Counted (w : PipelineWorld) : Prop where
  before : ∀ v, (w.worker v).callsBefore ≤ w.callLog.length
  logged : ∃ settled : Finset Nat, settled.card = w.callLog.length ∧
    (∀ i, i ∈ settled ↔ w.outcome i ≠ none) ∧ ∀ i ∈ settled, i < w.sends.length
  claims : ∀ v, (w.worker v).claims = grantsTo v w.log

private theorem LoopMoves.counted {w w' : PipelineWorld} {v : String} {b : ProtectedWorker}
    (hm : LoopMoves w w' v b) (h : w.Counted) : w'.Counted := by
  constructor
  · intro u
    rw [hm.worker,hm.callLog]
    by_cases hu : u = v
    · subst hu
      rw [Function.update_self]
      exact hm.before (h.before u)
    · rw [Function.update_of_ne hu]
      exact h.before u
  · obtain ⟨settled,hcard,hmem,hlt⟩ := h.logged
    refine ⟨settled,?_,?_,fun i hi => (hlt i hi).trans_le hm.sends⟩
    · rw [hm.callLog,hcard]
    · rw [hm.outcome]
      exact hmem
  · intro u
    rw [hm.worker]
    by_cases hu : u = v
    · subst hu
      have hclaims := hm.claims
      have hbooked := h.claims u
      rw [Function.update_self]
      omega
    · rw [Function.update_of_ne hu,hm.others u hu]
      exact h.claims u

private theorem LoopMoves.attributed_eq {w w' : PipelineWorld} {v : String} {b : ProtectedWorker}
    (hm : LoopMoves w w' v b) (ids : Finset String) : w'.attributed ids = w.attributed ids := by
  apply Finset.sum_congr rfl
  intro u _
  rw [hm.worker,hm.callLog]
  by_cases hu : u = v
  · subst hu
    rw [Function.update_self]
    exact hm.attributed
  · rw [Function.update_of_ne hu]

/-- A send that settles is logged, and changes nothing else. -/
theorem pipelineStep_settle {f : Fleet} {w w' : PipelineWorld} {send : Nat}
    {outcome : SendOutcome} {latencyMs : Int}
    (h : pipelineStep f w (.settle send outcome latencyMs) = some w') :
    send < w.sends.length ∧ w.outcome send = none ∧ w'.worker = w.worker ∧
      w'.sends = w.sends ∧ w'.log = w.log ∧
      w'.outcome = Function.update w.outcome send (some outcome) ∧
      w'.callLog.length = w.callLog.length + 1 := by
  unfold pipelineStep at h
  dsimp only at h
  split at h <;> cases h
  rename_i call hcall hnone
  have hlt := (List.getElem?_eq_some_iff.mp hcall).1
  rw [List.length_reverse] at hlt
  exact ⟨hlt,hnone,rfl,rfl,rfl,rfl,List.length_append⟩

theorem PipelineWorld.Counted.settle {f : Fleet} {w w' : PipelineWorld} {send : Nat}
    {outcome : SendOutcome} {latencyMs : Int} (h : w.Counted)
    (hs : pipelineStep f w (.settle send outcome latencyMs) = some w') : w'.Counted := by
  obtain ⟨hlt,hnone,hworker,hsends,hlog,houtcome,hlen⟩ := pipelineStep_settle hs
  constructor
  · intro v
    rw [hworker,hlen]
    exact (h.before v).trans (Nat.le_succ _)
  · obtain ⟨settled,hcard,hmem,hbound⟩ := h.logged
    have hnew : send ∉ settled := fun hi => (hmem send).mp hi hnone
    refine ⟨insert send settled,?_,?_,?_⟩
    · rw [Finset.card_insert_of_notMem hnew,hcard,hlen]
    · intro i
      rw [houtcome]
      by_cases hi : i = send
      · subst hi
        simp
      · rw [Function.update_of_ne hi,Finset.mem_insert,hmem i]
        simp [hi]
    · intro i hi
      rw [hsends]
      rcases Finset.mem_insert.mp hi with rfl | hi
      · exact hlt
      · exact hbound i hi
  · intro v
    rw [hworker,hlog]
    exact h.claims v

/-- Every loop that waits when a send settles will book that send. -/
theorem PipelineWorld.Counted.attributed_settle {f : Fleet} {w w' : PipelineWorld} {send : Nat}
    {outcome : SendOutcome} {latencyMs : Int} (h : w.Counted)
    (hs : pipelineStep f w (.settle send outcome latencyMs) = some w') (ids : Finset String) :
    w'.attributed ids = w.attributed ids + (w.waiting ids).card := by
  obtain ⟨_,_,hworker,_,_,_,hlen⟩ := pipelineStep_settle hs
  unfold PipelineWorld.attributed PipelineWorld.waiting
  rw [Finset.card_filter,← Finset.sum_add_distrib]
  apply Finset.sum_congr rfl
  intro v _
  have hbefore := h.before v
  rw [hworker,hlen]
  unfold ProtectedWorker.attributed
  split <;> omega

/-- While a send settles, exactly one loop waits. -/
def SettlesAlone (ids : Finset String) (w : PipelineWorld) : PipelineEvent → Prop
  | .settle _ _ _ => (w.waiting ids).card = 1
  | _ => True

instance (ids : Finset String) (w : PipelineWorld) : ∀ e, Decidable (SettlesAlone ids w e)
  | .settle _ _ _ => inferInstanceAs (Decidable ((w.waiting ids).card = 1))
  | .claim _ _ _ _ => isTrue trivial
  | .finish _ => isTrue trivial
  | .enter _ => isTrue trivial
  | .resume _ => isTrue trivial
  | .timeout _ => isTrue trivial
  | .wake _ => isTrue trivial
  | .record _ _ => isTrue trivial
  | .mark _ _ _ => isTrue trivial
  | .crash _ => isTrue trivial
  | .advance _ => isTrue trivial

/-- All loops have returned and all sends have settled. -/
def PipelineWorld.Done (w : PipelineWorld) (ids : Finset String) : Prop :=
  (∀ v ∈ ids, (w.worker v).phase = .returned) ∧ ∀ i < w.sends.length, w.outcome i ≠ none

instance (w : PipelineWorld) (ids : Finset String) : Decidable (w.Done ids) :=
  inferInstanceAs (Decidable (_ ∧ ∀ i < w.sends.length, _))

/-- The loops have booked as many calls as there were sends. -/
def PipelineWorld.CallsTallied (w : PipelineWorld) (ids : Finset String) : Prop :=
  ∑ v ∈ ids, (w.worker v).stats.notificationCallsMade = w.sends.length

instance (w : PipelineWorld) (ids : Finset String) : Decidable (w.CallsTallied ids) :=
  inferInstanceAs (Decidable (_ = _))

/-- Every send is logged, and each loop has booked its claims. -/
def PipelineWorld.ClaimsTallied (w : PipelineWorld) (ids : Finset String) : Prop :=
  w.callLog.length = w.sends.length ∧
    ∀ v ∈ ids, (w.worker v).stats.published + (w.worker v).stats.failed = grantsTo v w.log

private theorem PipelineWorld.Counted.all_logged {w : PipelineWorld} (h : w.Counted)
    (hall : ∀ i < w.sends.length, w.outcome i ≠ none) : w.callLog.length = w.sends.length := by
  obtain ⟨settled,hcard,hmem,hlt⟩ := h.logged
  have heq : settled = Finset.range w.sends.length := by
    ext i
    rw [Finset.mem_range]
    exact ⟨hlt i,fun hi => (hmem i).mpr (hall i hi)⟩
  rw [← hcard,heq,Finset.card_range]

private theorem PipelineWorld.counted_of_fresh {w : PipelineWorld} (h : w.Fresh) : w.Counted := by
  obtain ⟨_,hworker,_,hsends,houtcome,hcallLog,hlog,_⟩ := h
  constructor
  · intro v
    rw [hworker]
    exact Nat.zero_le _
  · refine ⟨∅,?_,?_,?_⟩
    · rw [hcallLog]
      rfl
    · simp [houtcome]
    · simp
  · intro v
    rw [hworker,hlog]
    rfl

theorem PipelineWorld.Counted.step {f : Fleet} {w w' : PipelineWorld} {e : PipelineEvent}
    (h : w.Counted) (hok : e.Succeeds) (hs : pipelineStep f w e = some w') : w'.Counted := by
  by_cases hsettle : ∃ send outcome latencyMs, e = .settle send outcome latencyMs
  · obtain ⟨send,outcome,latencyMs,rfl⟩ := hsettle
    exact h.settle hs
  · obtain ⟨v,b,hm⟩ := pipelineStep_loop hs hok fun send outcome latencyMs heq =>
      hsettle ⟨send,outcome,latencyMs,heq⟩
    exact hm.counted h

/-- Sends that settle while exactly one loop waits are attributed once. -/
theorem PipelineWorld.Counted.attributed_step {f : Fleet} {w w' : PipelineWorld}
    {e : PipelineEvent} {ids : Finset String} (h : w.Counted)
    (heq : w.attributed ids = w.callLog.length) (hok : e.Succeeds) (halone : SettlesAlone ids w e)
    (hs : pipelineStep f w e = some w') : w'.attributed ids = w'.callLog.length := by
  by_cases hsettle : ∃ send outcome latencyMs, e = .settle send outcome latencyMs
  · obtain ⟨send,outcome,latencyMs,rfl⟩ := hsettle
    have hone : (w.waiting ids).card = 1 := halone
    have hlen := (pipelineStep_settle hs).2.2.2.2.2.2
    rw [h.attributed_settle hs,hlen,heq,hone]
  · obtain ⟨v,b,hm⟩ := pipelineStep_loop hs hok fun send outcome latencyMs heq =>
      hsettle ⟨send,outcome,latencyMs,heq⟩
    rw [hm.attributed_eq,hm.callLog,heq]

private theorem PipelineWorld.Done.returned {w : PipelineWorld} {ids : Finset String}
    (h : w.Done ids)
    {v : String} (hv : v ∈ ids) :
    (w.worker v).phase.waiting = false ∧ (w.worker v).phase.event = none := by
  rw [h.1 v hv]
  exact ⟨rfl,rfl⟩

/-- When all is done, the claims are tallied. The calls are tallied too, provided that every
send has settled while exactly one loop waited. -/
theorem notificationCalls_tallied {f : Fleet} {ids : Finset String} {w w' : PipelineWorld}
    {es : List PipelineEvent} (h : w.Fresh) (hok : ∀ e ∈ es, e.Succeeds)
    (hrun : run (pipelineStep f) w es = some w') (hdone : w'.Done ids) :
    w'.ClaimsTallied ids ∧
      (Along (pipelineStep f) (SettlesAlone ids) w es → w'.CallsTallied ids) := by
  have hsucceeds : Along (pipelineStep f) (fun _ e => e.Succeeds) w es := along_of_forall hok w
  have hcounted : w'.Counted := hsucceeds.invariant hrun (PipelineWorld.counted_of_fresh h)
    fun s e t hs hok hstep => hs.step hok hstep
  have hlogged := hcounted.all_logged hdone.2
  refine ⟨⟨hlogged,fun v hv => ?_⟩,fun halone => ?_⟩
  · rw [← hcounted.claims v]
    exact (ProtectedWorker.claims_idle (hdone.returned hv).2).symm
  · let inv := fun s : PipelineWorld => s.Counted ∧ s.attributed ids = s.callLog.length
    have hinit : inv w := by
      refine ⟨PipelineWorld.counted_of_fresh h,?_⟩
      obtain ⟨_,hworker,_,_,_,hcallLog,_⟩ := h
      simp [PipelineWorld.attributed,ProtectedWorker.attributed,hworker,hcallLog,
        ProtectedPhase.waiting]
    have hinv : inv w' := (hsucceeds.and halone).invariant hrun hinit
      fun s e t hs hok hstep =>
        ⟨hs.1.step hok.1 hstep,hs.1.attributed_step hs.2 hok.1 hok.2 hstep⟩
    rw [PipelineWorld.CallsTallied,← hlogged,← hinv.2]
    apply Finset.sum_congr rfl
    intro v hv
    exact (ProtectedWorker.attributed_idle (hdone.returned hv).1).symm

def emptyPoll (workerId : String) : PipelineEvent :=
  .claim workerId 0 (fun _ => false) .acknowledged

/-- The loop books its event and finds nothing more to do. -/
def bookAndReturn (workerId : String) : List PipelineEvent :=
  [.record workerId .acknowledged, .mark workerId 0 .acknowledged, emptyPoll workerId,
    emptyPoll workerId, emptyPoll workerId, .finish workerId]

/-- Two loops send at the same time. -/
def overlappingSends : List PipelineEvent :=
  [.claim "a" 0 (fun _ => false) .acknowledged, .claim "b" 0 (fun _ => false) .acknowledged,
    .enter "a", .enter "b", .settle 0 .success 5, .resume "a", .settle 1 .success 6,
    .resume "b"] ++ bookAndReturn "a" ++ bookAndReturn "b"

/-- A loop sends once its predecessor has heard of its own send. -/
def separateSends : List PipelineEvent :=
  [.claim "a" 0 (fun _ => false) .acknowledged, .claim "b" 0 (fun _ => false) .acknowledged,
    .enter "a", .settle 0 .success 5, .resume "a", .enter "b", .settle 1 .success 6,
    .resume "b"] ++ bookAndReturn "a" ++ bookAndReturn "b"

/-- The first send settles while both loops wait, and both book it. -/
theorem overlappingSends_not_tallied : twoNotifications.Fresh ∧
    (∀ e ∈ overlappingSends, e.Succeeds) ∧
    ∃ w, run (pipelineStep {}) twoNotifications overlappingSends = some w ∧
      w.Done {"a","b"} ∧ ¬ w.CallsTallied {"a","b"} := by
  refine ⟨twoNotifications_fresh,by decide +kernel,?_⟩
  obtain ⟨w,hw,hnot,_⟩ := exists_run_of_any (show (run (pipelineStep {}) twoNotifications
    overlappingSends).any (fun w => decide (w.Done {"a","b"} ∧ ¬ w.CallsTallied {"a","b"})) =
      true by decide +kernel)
  exact ⟨w,hw,by simpa using hnot⟩

theorem separateSends_tallied : ∃ w, run (pipelineStep {}) twoNotifications separateSends =
    some w ∧ w.ClaimsTallied {"a","b"} ∧ w.CallsTallied {"a","b"} := by
  obtain ⟨w,hw,hdone,_⟩ := exists_run_of_any (show (run (pipelineStep {}) twoNotifications
    separateSends).any (fun w => decide (w.Done {"a","b"})) = true by decide +kernel)
  obtain ⟨hclaims,hcalls⟩ := notificationCalls_tallied twoNotifications_fresh
    (by decide +kernel) hw (by simpa using hdone)
  exact ⟨w,hw,hclaims,hcalls (by decide +kernel)⟩

/-- The only send times out and settles after its loop has returned. No loop books it. -/
example : (run (pipelineStep { opts := fun _ => { maxAttempts := 1 } }) oneNotification
    ([.claim "a" 0 (fun _ => false) .acknowledged, .enter "a", .advance 200, .timeout "a"] ++
      bookAndReturn "a" ++ [.settle 0 .success 300])).map
      (fun w => ((w.worker "a").phase,(w.worker "a").stats.notificationCallsMade,
        w.callLog.length)) = some (.returned,0,1) := by
  decide +kernel

end SystemsLab.Capstone
