import SystemsLab.Deadlocks.LockOrderSafety

/-!
# Legs that are retried after a deadlock

`runLegWithRetry` makes another attempt when the server has ended one as the victim of a deadlock,
up to `maxAttempts`, whatever the order is in which the legs lock their rows. Any other error that
has a code ends the leg as `failed`, also when it is the reply to a `COMMIT` that was lost. The
option `rendezvousForFirstAttempt` is not given here: a leg that has it does nothing that these legs
cannot do, but it may wait for its peer for ever.
-/

namespace SystemsLab.Deadlocks

def DEADLOCK_DETECTED_SQLSTATE : String := "40P01"

inductive LegStatus
  | committed
  | deadlockAborted
  | failed
  deriving DecidableEq, Repr

structure LegOutcome where
  workerLabel : WorkerLabel
  status : LegStatus
  sqlstate : Option String := none
  attempts : Nat
  deriving DecidableEq, Repr

/-- The `code` of an error. One without a code is no `PgError`. -/
abbrev ErrorCode := Option String

def toOutcome (workerLabel : WorkerLabel) (attempts : Nat) (code : String) : LegOutcome where
  workerLabel := workerLabel
  status := if code = DEADLOCK_DETECTED_SQLSTATE then .deadlockAborted else .failed
  sqlstate := some code
  attempts := attempts

inductive RetryPhase
  | attempting
  | sleeping
  | returned (outcome : LegOutcome)
  | threw
  deriving DecidableEq, Repr

structure RetryClient where
  plan : LegPlan
  maxAttempts : Nat
  attempt : Nat := 1
  phase : RetryPhase := .attempting
  deriving DecidableEq, Repr

def RetryClient.over (r : RetryClient) : Bool :=
  match r.phase with
  | .returned _ | .threw => true
  | _ => false

/-- The attempt of client `n` is the leg `n`. -/
structure RetryWorld where
  legs : LegsWorld
  client : Nat → Option RetryClient := fun _ => none

inductive RetryEvent
  | start (client : Nat) (strategy : LockOrderStrategy) (workerLabel : WorkerLabel)
      (fromAccountId toAccountId : Nat) (amountCents : Int) (maxAttempts : Nat)
  | query (client : Nat)
  | fail (client : Nat) (code : ErrorCode)
  | loseReply (client : Nat) (code : ErrorCode)
  | wake (client : Nat)
  deriving DecidableEq, Repr

/-- What the attempt of a client has thrown. -/
def RetryClient.caught (r : RetryClient) : ErrorCode → RetryClient
  | none => { r with phase := .threw }
  | some code =>
    let isRetryableDeadlock := code = DEADLOCK_DETECTED_SQLSTATE ∧ r.attempt < r.maxAttempts
    if isRetryableDeadlock then { r with phase := .sleeping }
    else { r with phase := .returned (toOutcome r.plan.workerLabel r.attempt code) }

def RetryClient.committed (r : RetryClient) : RetryClient :=
  let outcome : LegOutcome :=
    { workerLabel := r.plan.workerLabel, status := .committed, attempts := r.attempt }
  { r with phase := .returned outcome }

/-- The code of an `UPDATE` that may not write its balance: a sum that is no integer, or the check
on the balance. -/
def LegsWorld.updateError (w : LegsWorld) (n : Nat) (c : LegCall) : String :=
  let d := if c.phase = .debiting then -c.plan.amountCents else c.plan.amountCents
  let inRange := ((c.target.bind fun k => (w.accounts k).version n).any fun balance =>
    decide (-maxInteger - 1 ≤ balance + d) && decide (balance + d ≤ maxInteger))
  if inRange then "23514" else "22003"

namespace RetryWorld

def put (w : RetryWorld) (n : Nat) (r : RetryClient) (legs : LegsWorld) : RetryWorld where
  legs := legs
  client := Function.update w.client n (some r)

/-- What a client makes of a statement of its attempt. -/
def book (w : RetryWorld) (n : Nat) (r : RetryClient) (code : String) (legs : LegsWorld) :
    RetryWorld :=
  match (legs.call n).map LegCall.phase with
  | some .committed => w.put n r.committed legs
  | some .aborted => w.put n (r.caught (some code)) legs
  | _ => { w with legs }

end RetryWorld

/-- The deadlock detector ends a statement that waits. A server that has committed does not report
a deadlock. -/
def retryStep (w : RetryWorld) : RetryEvent → Option RetryWorld
  | .start n strategy workerLabel fromAccountId toAccountId amountCents maxAttempts =>
    match w.client n with
    | some _ => none
    | none =>
      if fromAccountId ∈ w.legs.ids ∧ toAccountId ∈ w.legs.ids then
        let plan := planLeg strategy workerLabel fromAccountId toAccountId amountCents
        -- with no attempt allowed the loop is left at once, and the function throws
        if 1 ≤ maxAttempts then some (w.put n { plan, maxAttempts } (w.legs.put n { plan }))
        else some (w.put n { plan, maxAttempts, phase := .threw }
          (w.legs.put n { plan, phase := .aborted }))
      else none
  | .query n =>
    match w.client n, w.legs.call n with
    | some r, some c =>
      if r.phase = .attempting then
        (w.legs.runLegAttempt n c).map (w.book n r (w.legs.updateError n c))
      else none
    | _, _ => none
  | .fail n code =>
    match w.client n, w.legs.call n with
    | some r, some c =>
      if r.phase = .attempting ∧ (code = some DEADLOCK_DETECTED_SQLSTATE → c.waiting.isSome) then
        some (w.put n (r.caught code) (w.legs.abort n c))
      else none
    | _, _ => none
  | .loseReply n code =>
    match w.client n, w.legs.call n with
    | some r, some c =>
      if r.phase = .attempting ∧ c.phase = .committing ∧ code ≠ some DEADLOCK_DETECTED_SQLSTATE then
        some (w.put n (r.caught code) (w.legs.commit n c .replyLost))
      else none
    | _, _ => none
  | .wake n =>
    match w.client n with
    | some r =>
      if r.phase = .sleeping then
        some (w.put n { r with attempt := r.attempt + 1, phase := .attempting }
          (w.legs.put n { plan := r.plan }))
      else none
    | none => none

/-- Nobody has started. -/
structure RetryWorld.Idle (w : RetryWorld) : Prop where
  legs : w.legs.Idle
  client : w.client = fun _ => none

/-- What a statement of leg `n` does. -/
inductive AttemptMove (w : LegsWorld) (n : Nat) (c : LegCall) : LegsWorld → Prop
  | queued (k : Nat) (d : Int) (next : LegPhase) : c.Writes k d next → c.waiting = none →
      (w.accounts k).version n = none → AttemptMove w n c
        { w.put n { c with waiting := some w.tickets } with tickets := w.tickets + 1 }
  | wrote (k : Nat) (d : Int) (next : LegPhase) (balance : Int) : c.Writes k d next →
      (w.accounts k).version n = some balance → AttemptMove w n c
        { w.put n { c with phase := next, waiting := none } with
          accounts := w.accounts.put n k (balance + d) }
  | refused (k : Nat) (d : Int) (next : LegPhase) : c.Writes k d next →
      AttemptMove w n c (w.abort n c)
  | committed : c.phase = .committing → AttemptMove w n c (w.commit n c .committed)

variable {w w' : LegsWorld} {n : Nat} {c : LegCall}

private theorem writeRow_attempt {k : Nat} {d : Int} {next : LegPhase} {f : Int → Option Int}
    (hwrites : c.Writes k d next) (hf : ∀ balance v, f balance = some v → v = balance + d)
    (h : w.writeRow n c k f next = some w') : AttemptMove w n c w' := by
  unfold LegsWorld.writeRow at h
  split at h
  next hversion =>
    split at h
    · cases h
    next hwaiting =>
      cases h
      exact .queued k d next hwrites hwaiting hversion
  next balance hversion =>
    split at h
    · cases h
      exact .refused k d next hwrites
    next v hv =>
      cases h
      rw [hf balance v hv]
      exact .wrote k d next balance hwrites hversion

private theorem lockRow_attempt {k : Nat} {next : LegPhase} (hwrites : c.Writes k 0 next)
    (h : w.lockRow n c k next = some w') : AttemptMove w n c w' :=
  writeRow_attempt hwrites (fun _ _ hv => (Option.some.inj hv).symm) h

private theorem addBalance_attempt {k : Nat} {d : Int} {next : LegPhase}
    (hwrites : c.Writes k d next)
    (h : w.addBalance n c k d next = some w') : AttemptMove w n c w' := by
  apply writeRow_attempt hwrites ?_ h
  intro balance v hv
  split at hv
  · exact (Option.some.inj hv).symm
  · cases hv

private theorem runLegAttempt_attempt (h : w.runLegAttempt n c = some w') :
    AttemptMove w n c w' := by
  unfold LegsWorld.runLegAttempt at h
  split at h
  next hp => exact lockRow_attempt (.lockFirst hp) h
  next hp => exact lockRow_attempt (.lockSecond hp) h
  next hp => exact addBalance_attempt (.debit hp) h
  next hp => exact addBalance_attempt (.credit hp) h
  next hp =>
    cases h
    exact .committed hp
  · cases h

/-- What one step does. -/
inductive RetryMove (w : RetryWorld) : RetryEvent → RetryWorld → Prop
  | started (n : Nat) (strategy : LockOrderStrategy) (workerLabel : WorkerLabel) (a b : Nat)
      (amountCents : Int) (maxAttempts : Nat) (plan : LegPlan) (r : RetryClient) (c : LegCall) :
      plan = planLeg strategy workerLabel a b amountCents →
      w.client n = none → a ∈ w.legs.ids ∧ b ∈ w.legs.ids → c.plan = plan →
      (1 ≤ maxAttempts ∧ r = { plan, maxAttempts } ∧ c.phase = .lockingFirst ∨
        r = { plan, maxAttempts, phase := .threw } ∧ c.phase = .aborted) → c.waiting = none →
      RetryMove w (.start n strategy workerLabel a b amountCents maxAttempts)
        (w.put n r (w.legs.put n c))
  | sent (n : Nat) (r : RetryClient) (c : LegCall) (code : String) (legs : LegsWorld) :
      w.client n = some r → w.legs.call n = some c → r.phase = .attempting →
      AttemptMove w.legs n c legs → RetryMove w (.query n) (w.book n r code legs)
  | failed (n : Nat) (r : RetryClient) (c : LegCall) (code : ErrorCode) :
      w.client n = some r → w.legs.call n = some c → r.phase = .attempting →
      RetryMove w (.fail n code) (w.put n (r.caught code) (w.legs.abort n c))
  | lostReply (n : Nat) (r : RetryClient) (c : LegCall) (code : ErrorCode) :
      w.client n = some r → w.legs.call n = some c → r.phase = .attempting →
      c.phase = .committing → code ≠ some DEADLOCK_DETECTED_SQLSTATE →
      RetryMove w (.loseReply n code) (w.put n (r.caught code) (w.legs.commit n c .replyLost))
  | woken (n : Nat) (r : RetryClient) : w.client n = some r → r.phase = .sleeping →
      RetryMove w (.wake n) (w.put n { r with attempt := r.attempt + 1, phase := .attempting }
        (w.legs.put n { plan := r.plan }))

theorem retryStep_move {w w' : RetryWorld} {e : RetryEvent} (h : retryStep w e = some w') :
    RetryMove w e w' := by
  cases e with
  | start n strategy label a b amount maxAttempts =>
    simp only [retryStep] at h
    split at h
    · cases h
    next hnone =>
      split at h
      next hids =>
        split at h
        next hmax =>
          cases h
          exact .started _ _ _ _ _ _ _ _ _ _ rfl hnone hids rfl (.inl ⟨hmax,rfl,rfl⟩) rfl
        · cases h
          exact .started _ _ _ _ _ _ _ _ _ _ rfl hnone hids rfl (.inr ⟨rfl,rfl⟩) rfl
      · cases h
  | query n =>
    simp only [retryStep] at h
    split at h
    next r c hr hc =>
      split at h
      next hattempting =>
        obtain ⟨legs,hlegs,rfl⟩ := Option.map_eq_some_iff.mp h
        exact .sent n r c _ legs hr hc hattempting (runLegAttempt_attempt hlegs)
      · cases h
    · cases h
  | fail n code =>
    simp only [retryStep] at h
    split at h
    next r c hr hc =>
      split at h
      next hok =>
        cases h
        exact .failed n r c code hr hc hok.1
      · cases h
    · cases h
  | loseReply n code =>
    simp only [retryStep] at h
    split at h
    next r c hr hc =>
      split at h
      next hok =>
        cases h
        exact .lostReply n r c code hr hc hok.1 hok.2.1 hok.2.2
      · cases h
    · cases h
  | wake n =>
    simp only [retryStep] at h
    split at h
    next r hr =>
      split at h
      next hsleeping =>
        cases h
        exact .woken n r hr hsleeping
      · cases h
    · cases h

/-- A leg locks the rows it writes, in whatever order. -/
structure LegPlan.Locks (plan : LegPlan) : Prop where
  debited : plan.fromAccountId = plan.firstLockId ∨ plan.fromAccountId = plan.secondLockId
  credited : plan.toAccountId = plan.firstLockId ∨ plan.toAccountId = plan.secondLockId

theorem planLeg_locks (strategy : LockOrderStrategy) (label : WorkerLabel) (a b : Nat)
    (amount : Int) : (planLeg strategy label a b amount).Locks := by
  cases strategy with
  | naiveLockOrder => exact ⟨.inl rfl,.inr rfl⟩
  | consistentLockOrder =>
    have hplan := planLeg_consistent label a b amount
    exact ⟨hplan.from_mem,hplan.to_mem⟩

theorem LegCall.Writes.locks_iff {k : Nat} {d : Int} {next : LegPhase} (h : c.Writes k d next)
    (hplan : c.plan.Locks) (m : Nat) :
    m ∈ ({ c with phase := next, waiting := none } : LegCall).locks ↔ m = k ∨ m ∈ c.locks := by
  have hdebited := hplan.debited
  have hcredited := hplan.credited
  unfold LegCall.locks
  cases h with
  | lockFirst hp =>
    rw [hp]
    simp
  | lockSecond hp =>
    rw [hp]
    simp [or_comm]
  | debit hp =>
    rw [hp]
    simp only [List.mem_cons,List.not_mem_nil,or_false]
    omega
  | credit hp =>
    rw [hp]
    simp only [List.mem_cons,List.not_mem_nil,or_false]
    omega

/-- Each row is locked by the leg that has locked it. -/
def LegsWorld.Held (w : LegsWorld) : Prop :=
  ∀ n k, w.accounts.holder k = some n ↔ ∃ c, w.call n = some c ∧ k ∈ c.locks

namespace LegsWorld.Held

theorem iff_mem (h : w.Held) (hc : w.call n = some c) (k : Nat) :
    w.accounts.holder k = some n ↔ k ∈ c.locks := by
  rw [h,hc]
  simp

private theorem update (h : w.Held) (hcall : w'.call = Function.update w.call n (some c))
    (hself : ∀ k, w'.accounts.holder k = some n ↔ k ∈ c.locks)
    (hother : ∀ m k, m ≠ n → (w'.accounts.holder k = some m ↔ w.accounts.holder k = some m)) :
    w'.Held := by
  intro m k
  rw [hcall]
  by_cases hm : m = n
  · subst hm
    rw [hself,Function.update_self]
    simp
  · rw [hother m k hm,h,Function.update_of_ne hm]

private theorem release (h : w.Held) (hcall : w'.call = Function.update w.call n (some c))
    (hc : c.phase.hasEnded = true)
    (hholder : ∀ k, w'.accounts.holder k =
      if w.accounts.holder k = some n then none else w.accounts.holder k) : w'.Held := by
  apply h.update hcall
  · intro k
    rw [locks_of_hasEnded hc,hholder]
    split <;> simp_all
  · intro m k hm
    rw [hholder]
    split
    next hn =>
      rw [hn]
      simp [Ne.symm hm]
    · exact Iff.rfl

private theorem enter (h : w.Held) (hended : ∀ d, w.call n = some d → d.locks = [])
    (hcall : w'.call = Function.update w.call n (some c)) (hc : c.locks = [])
    (haccounts : w'.accounts = w.accounts) : w'.Held := by
  apply h.update hcall
  · intro k
    rw [haccounts,h,hc]
    constructor
    · rintro ⟨d,hd,hk⟩
      rw [hended d hd] at hk
      exact hk
    · exact fun hk => absurd hk List.not_mem_nil
  · intro m k _
    rw [haccounts]

end LegsWorld.Held

structure LegsWorld.Kept (first w : LegsWorld) : Prop where
  ids : w.ids = first.ids
  plans : ∀ n c, w.call n = some c → c.plan.Locks
  held : w.Held
  books : RowVersions.Books first.accounts w.accounts (netLegs w.commits)
    (RowVersions.pendingOf w.call LegCall.pending)
  recorded : w.Recorded

namespace LegsWorld.Kept

variable {first : LegsWorld}

theorem start (h : first.Idle) : first.Kept first := by
  have hnone : ∀ n c, first.call n ≠ some c := by
    intro n c hc
    rw [h.calls] at hc
    cases hc
  refine ⟨rfl,fun n c hc => absurd hc (hnone n c),?_,?_,?_,?_,fun n c hc => absurd hc (hnone n c)⟩
  · intro n k
    rw [h.calls,RowVersions.holder,h.rows]
    simp
  · have hposted : netLegs first.commits = fun _ => 0 := by
      rw [h.commits]
      rfl
    rw [hposted,h.calls]
    exact .start h.rows
  · intro n plan
    rw [h.commits,h.calls]
    simp
  · rw [h.commits]
    exact List.nodup_nil

private theorem plans_update (h : first.Kept w) {d : LegCall}
    (hcall : w'.call = Function.update w.call n (some d)) (hd : d.plan.Locks) :
    ∀ m e, w'.call m = some e → e.plan.Locks := by
  intro m e he
  rw [hcall] at he
  rcases update_eq_some he with ⟨_,rfl⟩ | ⟨_,hold⟩
  · exact hd
  · exact h.plans m e hold

theorem abort (h : first.Kept w) (hc : w.call n = some c) (hopen : c.phase.hasCommitted = false) :
    first.Kept (w.abort n c) := by
  refine ⟨h.ids,h.plans_update rfl (h.plans n c hc),?_,h.books.rollbackCall fun _ => rfl,?_⟩
  · exact h.held.release rfl rfl (RowVersions.holder_rollback _ _)
  · refine h.recorded.keep (forall_of_eq_some hc hopen) ?_ ?_ rfl rfl rfl
    · rfl
    · exact h.recorded.known n c hc

theorem commit (h : first.Kept w) (hc : w.call n = some c) (hp : c.phase = .committing)
    {phase : LegPhase} (hphase : phase.hasCommitted = true) : first.Kept (w.commit n c phase) := by
  have hended : ({ c with phase } : LegCall).phase.hasEnded = true :=
    hasEnded_of_hasCommitted hphase
  refine ⟨h.ids,h.plans_update rfl (h.plans n c hc),?_,?_,h.recorded.commit hc hp hphase⟩
  · exact h.held.release rfl hended (RowVersions.holder_commit _ _)
  · refine h.books.commitCall hc (fun k => ?_) (pending_of_hasEnded hended)
    show netLegs (w.commits ++ [_]) k = _
    rw [netLegs_append,LegCall.pending,hp]

theorem enter (h : first.Kept w) (hended : ∀ d, w.call n = some d → d.phase = .aborted)
    (hlocks : c.locks = []) (hpending : ∀ k, c.pending k = 0)
    (hopen : c.phase.hasCommitted = false) (hplan : c.plan.Locks)
    (hknown : c.plan.fromAccountId ∈ w.ids ∧ c.plan.toAccountId ∈ w.ids) :
    first.Kept (w.put n c) := by
  have hwas : ∀ d, w.call n = some d → d.phase.hasEnded = true := by
    intro d hd
    rw [hended d hd]
    rfl
  refine ⟨h.ids,h.plans_update rfl hplan,?_,h.books.keepCall fun k => ?_,?_⟩
  · exact h.held.enter (fun d hd => locks_of_hasEnded (hwas d hd)) rfl hlocks rfl
  · rw [hpending,RowVersions.pendingOf]
    cases hcall : w.call n with
    | none => rfl
    | some d => exact (pending_of_hasEnded (hwas d hcall) k).symm
  · refine h.recorded.keep (fun d hd => ?_) hopen hknown rfl rfl rfl
    rw [hended d hd]
    rfl

theorem attempt (h : first.Kept w) (hc : w.call n = some c) (hm : AttemptMove w n c w') :
    first.Kept w' := by
  have hplan := h.plans n c hc
  cases hm with
  | queued k d next hwrites _ _ =>
    have hopen := hwrites.not_hasCommitted.1
    refine ⟨h.ids,h.plans_update rfl hplan,?_,h.books.keepCall fun m => ?_,?_⟩
    · have hheld := h.held.iff_mem hc
      exact h.held.update rfl (fun m => hheld m) fun _ _ _ => Iff.rfl
    · rw [RowVersions.pendingOf_eq hc]
      rfl
    · refine h.recorded.keep (forall_of_eq_some hc hopen) ?_ ?_ rfl rfl rfl
      · exact hopen
      · exact h.recorded.known n c hc
  | wrote k d next balance hwrites hversion =>
    have hopen := hwrites.not_hasCommitted
    refine ⟨h.ids,h.plans_update rfl hplan,?_,h.books.addCall hc hversion hwrites.pending,?_⟩
    · apply h.held.update rfl
      · intro m
        rw [hwrites.locks_iff hplan m,RowVersions.holder_put]
        split
        next hm => simp [hm]
        next hm =>
          rw [h.held.iff_mem hc]
          simp [hm]
      · intro u m hu
        rw [RowVersions.holder_put]
        split
        next hm =>
          subst hm
          rcases RowVersions.holder_of_version hversion with hnone | hown
          · rw [hnone]
            simp [Ne.symm hu]
          · rw [hown]
        · exact Iff.rfl
    · refine h.recorded.keep (forall_of_eq_some hc hopen.1) ?_ ?_ rfl rfl rfl
      · exact hopen.2
      · exact h.recorded.known n c hc
  | refused k d next hwrites => exact h.abort hc hwrites.not_hasCommitted.1
  | committed hp => exact h.commit hc hp rfl

end LegsWorld.Kept

end SystemsLab.Deadlocks
