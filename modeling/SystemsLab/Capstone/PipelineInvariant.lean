import SystemsLab.Capstone.ProtectedWorker
import SystemsLab.Outbox.Leases

/-!
# Claims and sends of the pipeline

Two events touch the table: a claim, and the update that ends it. One adds a send, and one
turns a claim away at the breaker. All others only move a loop along, with the claim it is
busy with or without one. The invariant counts sends by claim and attempt.
-/

namespace SystemsLab.Capstone

open SystemsLab.Outbox SystemsLab.Resilience

def ProtectedPhase.event : ProtectedPhase → Option ClaimedEvent
  | .claimed event => some event
  | .sending _ event _ _ _ => some event
  | .backoff _ event _ => some event
  | .recordingSuccess event => some event
  | .markingPublished event => some event
  | .recordingFailure event _ => some event
  | .markingFailed event _ => some event
  | _ => none

/-- The last attempt made, while more may follow. -/
def ProtectedPhase.used : ProtectedPhase → Option Nat
  | .claimed _ => some 0
  | .sending _ _ attempt _ _ => some attempt
  | .backoff _ _ attempt => some attempt
  | _ => none

/-- The breaker has let the claim in or turned it away. -/
def ProtectedPhase.tried : ProtectedPhase → Bool
  | .polling _ => false
  | .claimed _ => false
  | .returned => false
  | .stopped => false
  | _ => true

/-- A loop that moves along without touching the table or the notification service. -/
structure Continues (maxAttempts : Nat) (a b : ProtectedWorker) : Prop where
  lease : b.lease = a.lease ∧ b.phase.event = a.phase.event ∨
    b.lease = none ∧ b.phase.event = none
  used : ∀ k, b.phase.used = some k → a.phase.used = some k
  tried : b.phase.tried = true → a.phase.tried = true ∨ maxAttempts = 0

theorem Continues.refl (n : Nat) (a : ProtectedWorker) : Continues n a a :=
  ⟨.inl ⟨rfl,rfl⟩,fun _ h => h,.inl⟩

private theorem Continues.halt (n : Nat) (a : ProtectedWorker) : Continues n a a.halt :=
  ⟨.inr ⟨rfl,rfl⟩,nofun,nofun⟩

theorem Continues.next (n : Nat) (a : ProtectedWorker) (stats : ProtectedWorkerStats) :
    Continues n a (a.next stats) :=
  ⟨.inr ⟨rfl,rfl⟩,nofun,nofun⟩

/-- The fields of the world that only claims, finalising updates and sends change. -/
structure Untouched (w w' : PipelineWorld) : Prop where
  rows : w'.rows = w.rows
  log : w'.log = w.log
  sends : w'.sends = w.sends
  rejected : w'.rejected = w.rejected

/-- What one event does, as far as claims and sends are concerned. -/
inductive PipelineMove (f : Fleet) (w w' : PipelineWorld) : PipelineEvent → Prop
  | claimed {v now locked commit} (old : OutboxRow EventPayload) (event : ClaimedEvent)
      (b : ProtectedWorker) (n : Nat) : commit.applied = true →
      (w.worker v).phase = .polling n → now ≤ w.clock →
      selectSkipLocked (·.claimable now) (fun row => locked row.id) OutboxRow.age w.rows =
        some old → event.id = old.id → event.attempts = old.attempts + 1 →
      w'.rows = updateWhere (·.id == old.id) (·.claim v (now + DEFAULT_LEASE_MS)) w.rows →
      w'.log = .granted (old.lease v (now + DEFAULT_LEASE_MS)) w.clock::w.log →
      w'.sends = w.sends → w'.rejected = w.rejected → w'.clock = w.clock →
      w'.worker = Function.update w.worker v b →
      b.phase = .claimed event ∧ b.lease = some (old.lease v (now + DEFAULT_LEASE_MS)) ∨
        b = (w.worker v).halt →
      PipelineMove f w w' (.claim v now locked commit)
  | marked {v now commit} (event : ClaimedEvent)
      (g : OutboxRow EventPayload → OutboxRow EventPayload) (b : ProtectedWorker) :
      (w.worker v).phase = .markingPublished event ∧ g = (·.publish now) ∨
        (∃ circuitOpen, (w.worker v).phase = .markingFailed event circuitOpen) ∧
          g = OutboxRow.fail →
      w'.rows = updateLocked w.rows event.id v g →
      w'.log = (w.worker v).lease.toList.map .settled ++ w.log →
      w'.sends = w.sends → w'.rejected = w.rejected → w'.clock = w.clock →
      w'.worker = Function.update w.worker v b → Continues (f.optsOf v).maxAttempts (w.worker v) b →
      PipelineMove f w w' (.mark v now commit)
  | sent {e} (v : String) (event : ClaimedEvent) (attempt : Nat) (b : ProtectedWorker)
      (key : String) : (w.worker v).phase.event = some event →
      (w.worker v).phase.used = some attempt → attempt + 1 ≤ (f.optsOf v).maxAttempts →
      w'.rows = w.rows → w'.log = w.log → w'.rejected = w.rejected → w'.clock = w.clock →
      w'.sends = ⟨v,event.id,((w.worker v).lease.map Lease.number).getD 0,attempt + 1,key⟩::
        w.sends →
      w'.worker = Function.update w.worker v b → b.lease = (w.worker v).lease →
      b.phase.event = some event → b.phase.used = some (attempt + 1) →
      PipelineMove f w w' e
  | turnedAway {v} (event : ClaimedEvent) (b : ProtectedWorker) :
      (w.worker v).phase = .claimed event → w'.rows = w.rows → w'.log = w.log →
      w'.sends = w.sends → w'.rejected = (w.worker v).lease.toList ++ w.rejected →
      w'.clock = w.clock → w'.worker = Function.update w.worker v b →
      b.lease = (w.worker v).lease → b.phase = .recordingFailure event true →
      PipelineMove f w w' (.enter v)
  | moved {e} (v : String) (b : ProtectedWorker) : Untouched w w' → w.clock ≤ w'.clock →
      w'.worker = Function.update w.worker v b → Continues (f.optsOf v).maxAttempts (w.worker v) b →
      PipelineMove f w w' e

/-- The breaker books the outcome of an admitted call. -/
theorem PipelineMove.of_sent {f : Fleet} {w : PipelineWorld} {v : String} {call : CallPhase}
    {event : ClaimedEvent} {e : PipelineEvent} (success : Bool)
    (hevent : (w.worker v).phase.event = some event)
    (htried : (w.worker v).phase.tried = true) :
    PipelineMove f w (w.sent f v call event success) e := by
  apply PipelineMove.moved v
  · exact ⟨rfl,rfl,rfl,rfl⟩
  · exact le_rfl
  · rfl
  · refine ⟨.inl ⟨rfl,?_⟩,?_,fun _ => .inl htried⟩
    · rw [hevent]
      cases success <;> rfl
    · cases success <;> nofun

private theorem PipelineMove.of_attemptFailed {f : Fleet} {w : PipelineWorld} {v : String}
    {call : CallPhase} {event : ClaimedEvent} {attempt : Nat} {e : PipelineEvent}
    (retryable : Bool) (hevent : (w.worker v).phase.event = some event)
    (hused : (w.worker v).phase.used = some attempt)
    (htried : (w.worker v).phase.tried = true) :
    PipelineMove f w (w.attemptFailed f v call event attempt retryable) e := by
  unfold PipelineWorld.attemptFailed
  split
  · apply PipelineMove.moved v
    · exact ⟨rfl,rfl,rfl,rfl⟩
    · exact le_rfl
    · rfl
    · exact ⟨.inl ⟨rfl,hevent.symm⟩,fun _ hk => hused.trans hk,fun _ => .inl htried⟩
  · exact .of_sent false hevent htried

private theorem PipelineMove.of_attempt {f : Fleet} {w w₁ : PipelineWorld} {v : String}
    {call : CallPhase} {event : ClaimedEvent} (attempt : Nat) {e : PipelineEvent}
    (hevent : (w.worker v).phase.event = some event)
    (hused : (w.worker v).phase.used = some attempt)
    (hle : attempt + 1 ≤ (f.optsOf v).maxAttempts) (hsame : Untouched w w₁)
    (hclock : w₁.clock = w.clock) (hworker : ∃ a : ProtectedWorker,
      w₁.worker = Function.update w.worker v a ∧ a.lease = (w.worker v).lease) :
    PipelineMove f w (w₁.attempt f v call event (attempt + 1)) e := by
  obtain ⟨a,hworker,hlease⟩ := hworker
  have hself : w₁.worker v = a := by
    rw [hworker,Function.update_self]
  unfold PipelineWorld.attempt
  rw [if_pos hle]
  apply PipelineMove.sent v event attempt
    { a with phase := .sending call event (attempt + 1) w₁.sends.length w₁.clock }
    event.payload.orderPublicId hevent hused hle
  · exact hsame.rows
  · exact hsame.log
  · exact hsame.rejected
  · exact hclock
  · show _::w₁.sends = _
    rw [hsame.sends,hself,hlease]
  · show Function.update w₁.worker v _ = _
    rw [hself,hworker,Function.update_idem]
  · exact hlease
  · rfl
  · rfl

private theorem claimNextEvent_some {rows rows' : List (OutboxRow EventPayload)}
    {locked : Nat → Bool}
    {now : Int} {v : String} {leaseMs : Int} {event : ClaimedEvent}
    (h : claimNextEvent rows locked now v leaseMs = (rows',some event)) :
    ∃ old, selectSkipLocked (·.claimable now) (fun row => locked row.id) OutboxRow.age rows =
        some old ∧ event.id = old.id ∧ event.attempts = old.attempts + 1 ∧
      rows' = updateWhere (·.id == old.id) (·.claim v (now + leaseMs)) rows := by
  unfold claimNextEvent claimRow at h
  split at h
  · cases h
  · rename_i old hold
    cases h
    exact ⟨old,hold,rfl,rfl,rfl⟩

theorem PipelineMove.of_claim {f : Fleet} {w w' : PipelineWorld} {v : String}
    {now : Int} {locked : Nat → Bool} {commit : Commit}
    (h : pipelineStep f w (.claim v now locked commit) = some w') :
    PipelineMove f w w' (.claim v now locked commit) := by
  unfold pipelineStep at h
  dsimp only at h
  split at h
  · rename_i n hp
    split at h
    · rename_i hcond
      split at h
      · cases h
        apply PipelineMove.moved v
        · exact ⟨rfl,rfl,rfl,rfl⟩
        · exact le_rfl
        · rfl
        · refine ⟨.inl ⟨rfl,?_⟩,nofun,nofun⟩
          rw [hp]
          rfl
      · rename_i rows event hclaim
        obtain ⟨old,hold,hid,hn,rfl⟩ := claimNextEvent_some hclaim
        have hlease : (⟨event.id,v,event.attempts,now + DEFAULT_LEASE_MS⟩ : Lease Nat String) =
            old.lease v (now + DEFAULT_LEASE_MS) := by
          rw [hid,hn]
          rfl
        cases commit with
        | acknowledged =>
          cases h
          rw [hlease]
          exact .claimed old event _ n rfl hp hcond.2 hold hid hn rfl rfl rfl rfl rfl rfl
            (.inl ⟨rfl,rfl⟩)
        | replyLost =>
          cases h
          rw [hlease]
          exact .claimed old event _ n rfl hp hcond.2 hold hid hn rfl rfl rfl rfl rfl rfl
            (.inr rfl)
        | rolledBack =>
          cases h
          exact .moved v _ ⟨rfl,rfl,rfl,rfl⟩ le_rfl rfl (Continues.halt _ _)
    · cases h
  · cases h

private theorem PipelineMove.of_enter {f : Fleet} {w w' : PipelineWorld} {v : String}
    (h : pipelineStep f w (.enter v) = some w') : PipelineMove f w w' (.enter v) := by
  unfold pipelineStep at h
  dsimp only at h
  split at h
  · rename_i event hp
    split at h
    · cases h
      exact .turnedAway event _ hp rfl rfl rfl rfl rfl rfl rfl rfl
    · split at h <;> cases h
      · rename_i hle
        refine PipelineMove.of_attempt 0 ?_ ?_ hle ?_ ?_ ⟨_,rfl,rfl⟩
        · rw [hp]
          rfl
        · rw [hp]
          rfl
        · exact ⟨rfl,rfl,rfl,rfl⟩
        · rfl
      · rename_i hle
        have hzero : (f.optsOf v).maxAttempts = 0 := by
          have : ¬ 1 ≤ (f.optsOf v).maxAttempts := hle
          omega
        apply PipelineMove.moved v
        · exact ⟨rfl,rfl,rfl,rfl⟩
        · exact le_rfl
        · simp only [PipelineWorld.move,PipelineWorld.put,Function.update_idem,
            Function.update_self]
          rfl
        · refine ⟨.inl ⟨rfl,?_⟩,?_,fun _ => .inr hzero⟩
          · rw [hp]
            rfl
          · rw [hp]
            exact fun _ hk => hk
  · cases h

private theorem PipelineMove.of_wake {f : Fleet} {w w' : PipelineWorld} {v : String}
    (h : pipelineStep f w (.wake v) = some w') : PipelineMove f w w' (.wake v) := by
  unfold pipelineStep at h
  dsimp only at h
  split at h <;> cases h
  rename_i call event attempt hp
  by_cases hle : attempt + 1 ≤ (f.optsOf v).maxAttempts
  · have hself := (Function.update_eq_self v w.worker).symm
    refine PipelineMove.of_attempt attempt ?_ ?_ hle ?_ ?_ ⟨_,hself,rfl⟩
    · rw [hp]
      rfl
    · rw [hp]
      rfl
    · exact ⟨rfl,rfl,rfl,rfl⟩
    · rfl
  · rw [PipelineWorld.attempt,if_neg hle]
    apply PipelineMove.of_sent false <;> rw [hp] <;> rfl

private theorem PipelineMove.of_record {f : Fleet} {w w' : PipelineWorld} {v : String}
    {commit : Commit} (h : pipelineStep f w (.record v commit) = some w') :
    PipelineMove f w w' (.record v commit) := by
  unfold pipelineStep at h
  dsimp only at h
  split at h
  · rename_i event hp
    cases commit <;> cases h <;> apply PipelineMove.moved v
    all_goals first | exact ⟨rfl,rfl,rfl,rfl⟩ | exact le_rfl | rfl | skip
    all_goals exact ⟨.inl ⟨rfl,by rw [hp]; rfl⟩,nofun,fun _ => .inl (by rw [hp]; rfl)⟩
  · rename_i event circuitOpen hp
    cases commit <;> cases h <;> apply PipelineMove.moved v
    all_goals first | exact ⟨rfl,rfl,rfl,rfl⟩ | exact le_rfl | rfl | skip
    · exact ⟨.inl ⟨rfl,by rw [hp]; rfl⟩,nofun,fun _ => .inl (by rw [hp]; rfl)⟩
    · exact Continues.halt _ _
    · exact Continues.halt _ _
  · cases h

private theorem PipelineMove.of_mark {f : Fleet} {w w' : PipelineWorld} {v : String}
    {now : Int} {commit : Commit} (h : pipelineStep f w (.mark v now commit) = some w') :
    PipelineMove f w w' (.mark v now commit) := by
  unfold pipelineStep at h
  dsimp only at h
  split at h
  · rename_i event hp
    have hcaught : ∀ total, Continues (f.optsOf v).maxAttempts (w.worker v)
        { (w.worker v).countCalls total with phase := .recordingFailure event false } := by
      intro total
      exact ⟨.inl ⟨rfl,by rw [hp]; rfl⟩,nofun,fun _ => .inl (by rw [hp]; rfl)⟩
    cases commit with
    | acknowledged =>
      cases h
      exact .marked event _ _ (.inl ⟨hp,rfl⟩) rfl rfl rfl rfl rfl rfl (Continues.next _ _ _)
    | replyLost =>
      cases h
      exact .marked event _ _ (.inl ⟨hp,rfl⟩) rfl rfl rfl rfl rfl rfl (hcaught _)
    | rolledBack =>
      cases h
      exact .moved v _ ⟨rfl,rfl,rfl,rfl⟩ le_rfl rfl (hcaught _)
  · rename_i event circuitOpen hp
    cases commit with
    | acknowledged =>
      cases h
      exact .marked event _ _ (.inr ⟨⟨circuitOpen,hp⟩,rfl⟩) rfl rfl rfl rfl rfl rfl
        (Continues.next _ _ _)
    | replyLost =>
      cases h
      exact .marked event _ _ (.inr ⟨⟨circuitOpen,hp⟩,rfl⟩) rfl rfl rfl rfl rfl rfl
        (Continues.halt _ _)
    | rolledBack =>
      cases h
      exact .moved v _ ⟨rfl,rfl,rfl,rfl⟩ le_rfl rfl (Continues.halt _ _)
  · cases h

theorem pipelineStep_move {f : Fleet} {w w' : PipelineWorld} {e : PipelineEvent}
    (h : pipelineStep f w e = some w') : PipelineMove f w w' e := by
  cases e with
  | claim v now locked commit => exact .of_claim h
  | finish v =>
    unfold pipelineStep at h
    dsimp only at h
    split at h
    · rename_i n hp
      split at h <;> cases h
      apply PipelineMove.moved v
      · exact ⟨rfl,rfl,rfl,rfl⟩
      · exact le_rfl
      · rfl
      · refine ⟨.inl ⟨rfl,?_⟩,nofun,nofun⟩
        rw [hp]
        rfl
    · cases h
  | enter v => exact .of_enter h
  | settle send outcome latencyMs =>
    unfold pipelineStep at h
    dsimp only at h
    split at h <;> cases h
    exact .moved "" (w.worker "") ⟨rfl,rfl,rfl,rfl⟩ le_rfl
      (Function.update_eq_self "" w.worker).symm (Continues.refl _ _)
  | resume v =>
    unfold pipelineStep at h
    dsimp only at h
    split at h
    · rename_i call event attempt send since hp
      split at h <;> cases h
      · apply PipelineMove.of_sent true <;> rw [hp] <;> rfl
      · apply PipelineMove.of_attemptFailed true <;> rw [hp] <;> rfl
      · apply PipelineMove.of_attemptFailed false <;> rw [hp] <;> rfl
    · cases h
  | timeout v =>
    unfold pipelineStep at h
    dsimp only at h
    split at h
    · rename_i call event attempt send since hp
      split at h <;> cases h
      apply PipelineMove.of_attemptFailed true <;> rw [hp] <;> rfl
    · cases h
  | wake v => exact .of_wake h
  | record v commit => exact .of_record h
  | mark v now commit => exact .of_mark h
  | crash v =>
    cases h
    exact .moved v _ ⟨rfl,rfl,rfl,rfl⟩ le_rfl rfl (Continues.halt _ _)
  | advance ms =>
    cases h
    refine .moved "" (w.worker "") ⟨rfl,rfl,rfl,rfl⟩ ?_
      (Function.update_eq_self "" w.worker).symm (Continues.refl _ _)
    show w.clock ≤ w.clock + ms
    omega

end SystemsLab.Capstone
