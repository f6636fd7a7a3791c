import SystemsLab.Queue.Jobs

/-!
# When the job queue is a table of leases

`completeJob` and `failJob` write whatever the job has become since the claim. A late
`completeJob` only closes the job. A late `failJob` can put a job back that another worker
holds, or one that is completed. Runs without such a `failJob` refine the lease table.
-/

namespace SystemsLab.Queue

variable {π : Type*}

def JobRow.WellLocked (job : JobRow π) : Prop :=
  (job.status = .processing ↔ job.lockedBy ≠ none) ∧
    (job.status = .processing ↔ job.lockedUntil ≠ none)

def JobRow.slot (job : JobRow π) : Slot Nat String :=
  match job.status, job.lockedBy, job.lockedUntil with
  | .pending, _, _ => .free
  | .processing, some holder, some deadline => .held ⟨job.id,holder,job.attempts,deadline⟩
  | _, _, _ => .closed

def QueueWorld.leases (w : QueueWorld π) : LeaseTable Nat String :=
  .ofRows JobRow.id JobRow.slot JobRow.attempts w.tables.jobs w.clock w.log

/-- A `failJob` for `claim` would undo a completion, or free a job that another claim holds
under a running lease. -/
def JobRow.spoiledBy (job : JobRow π) (clock : Int) (claim : ClaimedJob π) : Bool :=
  job.status == .completed || (job.status == .processing &&
    job.attempts != claim.job.attempts && job.lockedUntil.any (fun t => decide (clock ≤ t)) &&
      !job.terminal)

def WorkerPhase.spoils (phase : WorkerPhase π) (jobs : List (JobRow π)) (clock : Int) : Bool :=
  match phase with
  | .failing claim _ => jobs.any fun job => job.id == claim.job.id && job.spoiledBy clock claim
  | _ => false

/-- No committed `failJob` spoils its job. -/
def FailureFits (w : QueueWorld π) : QueueEvent → Prop
  | .fail k _ commit =>
    commit.applied = true → (w.worker k).phase.spoils w.tables.jobs w.clock = false
  | _ => True

instance : ∀ (w : QueueWorld π) e, Decidable (FailureFits w e)
  | w, .fail k _ commit => inferInstanceAs (Decidable (commit.applied = true →
      (w.worker k).phase.spoils w.tables.jobs w.clock = false))
  | _, .claim _ _ _ _ _ => isTrue trivial
  | _, .process _ _ => isTrue trivial
  | _, .complete _ _ _ _ => isTrue trivial
  | _, .crash _ => isTrue trivial
  | _, .advance _ => isTrue trivial

theorem JobRow.slot_of_claimable {job : JobRow π} {now : Int} (h : job.WellLocked)
    (hc : job.claimable now = true) :
    job.slot = .free ∨ ∃ l, job.slot = .held l ∧ l.deadline < now := by
  obtain ⟨hby,huntil⟩ := h
  cases hs : job.status with
  | pending => exact .inl (by simp [JobRow.slot,hs])
  | processing =>
    obtain ⟨holder,hh⟩ := Option.ne_none_iff_exists'.mp (hby.mp hs)
    obtain ⟨deadline,hd⟩ := Option.ne_none_iff_exists'.mp (huntil.mp hs)
    simp [JobRow.claimable,hs,hd] at hc
    exact .inr ⟨⟨job.id,holder,job.attempts,deadline⟩,by simp [JobRow.slot,hs,hh,hd],hc⟩
  | completed => simp [JobRow.claimable,hs] at hc
  | failed => simp [JobRow.claimable,hs] at hc

theorem JobRow.slot_held {job : JobRow π} {l : Lease Nat String} (h : job.slot = .held l) :
    job.status = .processing ∧ job.lockedUntil = some l.deadline ∧ job.attempts = l.number ∧
      job.id = l.item := by
  unfold JobRow.slot at h
  split at h <;> cases h
  simp [*]

def WorkerPhase.claim : WorkerPhase π → Option (ClaimedJob π)
  | .processing claim => some claim
  | .completing claim => some claim
  | .failing claim _ => some claim
  | _ => none

/-- The transaction an event commits, with the claims that workers carry afterwards. -/
inductive QueueMove (w : QueueWorld π) (w' : QueueWorld π) : QueueEvent → Prop
  | claimed {k now locked tie commit} (claim : ClaimedJob π) : now ≤ w.clock →
      claimJob w.tables locked tie now (w.worker k).result.workerId (w.worker k).leaseMs =
        (w'.tables,some claim) →
      w'.clock = w.clock → w'.log = .granted claim.lease w.clock::w.log →
      (∀ v c, (w'.worker v).phase.claim = some c →
        (w.worker v).phase.claim = some c ∨ c = claim) →
      QueueMove w w' (.claim k now locked tie commit)
  | completed {k now commit error} (claim : ClaimedJob π) :
      (w.worker k).phase = .completing claim →
      w'.tables = completeJob w.tables now claim.job.id claim.attemptId →
      w'.clock = w.clock → w'.log = .settled claim.lease::w.log →
      (∀ v c, (w'.worker v).phase.claim = some c → (w.worker v).phase.claim = some c) →
      QueueMove w w' (.complete k now commit error)
  | failed {k now commit} (claim : ClaimedJob π) (message : String) (r : FailResult) :
      (w.worker k).phase = .failing claim message → commit.applied = true →
      failJob w.tables now claim.job.id claim.attemptId message = .ok (w'.tables,r) →
      w'.clock = w.clock → w'.log = .settled claim.lease::w.log →
      (∀ v c, (w'.worker v).phase.claim = some c → (w.worker v).phase.claim = some c) →
      QueueMove w w' (.fail k now commit)
  | moved {e} : w'.tables = w.tables → w.clock ≤ w'.clock → w'.log = w.log →
      (∀ v c, (w'.worker v).phase.claim = some c → (w.worker v).phase.claim = some c) →
      QueueMove w w' e

theorem QueueWorld.claim_put {w : QueueWorld π} {k v : Nat} {worker : Worker π}
    {c : ClaimedJob π} (h : ((w.put k worker).worker v).phase.claim = some c) :
    v = k ∧ worker.phase.claim = some c ∨ v ≠ k ∧ (w.worker v).phase.claim = some c := by
  by_cases hv : v = k
  · subst hv
    simp only [QueueWorld.put,Function.update_self] at h
    exact .inl ⟨rfl,h⟩
  · simp only [QueueWorld.put,Function.update_of_ne hv] at h
    exact .inr ⟨hv,h⟩

theorem QueueWorld.claim_put_keep {w : QueueWorld π} {k : Nat} {worker : Worker π}
    (h : ∀ c, worker.phase.claim = some c → (w.worker k).phase.claim = some c) (v : Nat)
    (c : ClaimedJob π) (hc : ((w.put k worker).worker v).phase.claim = some c) :
    (w.worker v).phase.claim = some c := by
  rcases QueueWorld.claim_put hc with ⟨rfl,hk⟩ | ⟨_,hv⟩
  · exact h c hk
  · exact hv

theorem QueueWorld.claim_put_none {w : QueueWorld π} {k : Nat} {worker : Worker π}
    (h : worker.phase.claim = none) (v : Nat) (c : ClaimedJob π)
    (hc : ((w.put k worker).worker v).phase.claim = some c) :
    (w.worker v).phase.claim = some c := by
  apply QueueWorld.claim_put_keep _ v c hc
  intro c hk
  rw [h] at hk
  cases hk

theorem queueStep_move {w w' : QueueWorld π} {e : QueueEvent} (h : queueStep w e = some w') :
    QueueMove w w' e := by
  cases e with
  | claim k now locked tie commit =>
    simp only [queueStep] at h
    split at h
    · split at h
      · rename_i hnow
        split at h
        · cases h
          exact .moved rfl le_rfl rfl (QueueWorld.claim_put_none rfl)
        · rename_i tables claim hclaim
          cases commit with
          | acknowledged =>
            cases h
            refine .claimed claim hnow hclaim rfl rfl fun v c hc => ?_
            rcases QueueWorld.claim_put hc with ⟨_,hk⟩ | ⟨_,hv⟩
            · exact .inr (Option.some.inj hk).symm
            · exact .inl hv
          | replyLost =>
            cases h
            exact .claimed claim hnow hclaim rfl rfl
              fun v c hc => .inl (QueueWorld.claim_put_none rfl v c hc)
          | rolledBack =>
            cases h
            exact .moved rfl le_rfl rfl (QueueWorld.claim_put_none rfl)
      · cases h
    · cases h
  | process k error =>
    simp only [queueStep] at h
    split at h <;> cases h
    · rename_i claim hp
      exact .moved rfl le_rfl rfl (QueueWorld.claim_put_keep fun c hc => by rw [hp]; exact hc)
    · rename_i claim message hp
      exact .moved rfl le_rfl rfl (QueueWorld.claim_put_keep fun c hc => by rw [hp]; exact hc)
  | complete k now commit error =>
    simp only [queueStep] at h
    split at h
    · rename_i claim hp
      cases commit with
      | acknowledged =>
        cases h
        exact .completed claim hp rfl rfl rfl (QueueWorld.claim_put_none rfl)
      | replyLost =>
        cases h
        exact .completed claim hp rfl rfl rfl
          (QueueWorld.claim_put_keep fun c hc => by rw [hp]; exact hc)
      | rolledBack =>
        cases h
        exact .moved rfl le_rfl rfl
          (QueueWorld.claim_put_keep fun c hc => by rw [hp]; exact hc)
    · cases h
  | fail k now commit =>
    simp only [queueStep] at h
    split at h
    · rename_i claim message hp
      split at h
      · cases h
        exact .moved rfl le_rfl rfl (QueueWorld.claim_put_none rfl)
      · rename_i tables r hfail
        cases commit with
        | acknowledged =>
          cases h
          exact .failed claim message r hp rfl hfail rfl rfl (QueueWorld.claim_put_none rfl)
        | replyLost =>
          cases h
          exact .failed claim message r hp rfl hfail rfl rfl (QueueWorld.claim_put_none rfl)
        | rolledBack =>
          cases h
          exact .moved rfl le_rfl rfl (QueueWorld.claim_put_none rfl)
    · cases h
  | crash k =>
    cases h
    exact .moved rfl le_rfl rfl (QueueWorld.claim_put_none rfl)
  | advance ms =>
    cases h
    refine .moved rfl ?_ rfl fun _ _ hc => hc
    show w.clock ≤ w.clock + ms
    omega

theorem claimJob_some {tables tables' : JobTables π} {locked : Nat → Bool} {tie : Nat → Nat}
    {now : Int} {workerId : String} {leaseMs : Int} {claim : ClaimedJob π}
    (h : claimJob tables locked tie now workerId leaseMs = (tables',some claim)) :
    ∃ old ∈ tables.jobs, old.claimable now = true ∧ claim.job = old.claim workerId now leaseMs ∧
      tables'.jobs = updateWhere (·.id == old.id) (·.claim workerId now leaseMs) tables.jobs := by
  unfold claimJob at h
  split at h
  · cases h
  · rename_i old hold
    obtain ⟨hmem,hc,_⟩ := selectSkipLocked_some hold
    cases h
    exact ⟨old,hmem,hc,rfl,rfl⟩

theorem failJob_ok {tables tables' : JobTables π} {now : Int} {jobId attemptId : Nat}
    {message : String} {r : FailResult}
    (h : failJob tables now jobId attemptId message = .ok (tables',r)) :
    ∃ job, rowAt JobRow.id tables.jobs jobId = some job ∧
      tables'.jobs = updateWhere (·.id == jobId) (·.fail job.terminal message now) tables.jobs := by
  unfold failJob at h
  split at h
  · cases h
  · rename_i job hjob
    cases h
    exact ⟨job,hjob,rfl⟩

end SystemsLab.Queue
