import SystemsLab.Outbox.Rows
import SystemsLab.Resilience.CircuitBreaker

/-!
# The capstone's protected worker

`runProtectedWorker` claims an event and sends its notification through three layers: the
circuit breaker outside, retries inside it, a timeout inside each attempt. A send that has
timed out keeps running. The loops of one `createProtectedWorker` share its breaker, and any
loops share the table and the notification service.
-/

namespace SystemsLab.Capstone

open SystemsLab.Outbox SystemsLab.Resilience

structure EventPayload where
  orderPublicId : String
  correlationId : String
  customerEmail : String
  amountCents : Int
  deriving DecidableEq, Repr

structure ClaimedEvent where
  id : Nat
  publicId : String
  eventType : String
  payload : EventPayload
  attempts : Nat
  maxAttempts : Int
  deriving DecidableEq, Repr

def claimNextEvent (rows : List (OutboxRow EventPayload)) (locked : Nat → Bool) (now : Int)
    (workerId : String) (leaseMs : Int) :
    List (OutboxRow EventPayload) × Option ClaimedEvent :=
  let r := claimRow rows locked now workerId leaseMs
  (r.1,r.2.map fun row => { row with })

structure ProtectedWorkerStats where
  published : Nat := 0
  failed : Nat := 0
  circuitOpenRejections : Nat := 0
  notificationCallsMade : Nat := 0
  deriving DecidableEq, Repr

structure ProtectedWorkerOptions where
  failureThreshold : Nat := 3
  cooldownMs : Int := 500
  timeoutMs : Int := 200
  maxAttempts : Nat := 3

def ProtectedWorkerOptions.breaker (opts : ProtectedWorkerOptions) : CircuitBreakerOptions where
  failureThreshold := opts.failureThreshold
  cooldownMs := opts.cooldownMs

inductive SendOutcome
  | success
  | transientError
  | otherError
  deriving DecidableEq, Repr

/-- The caller of one send: `number` is that of the caller's claim and `attempt` counts the
retries inside the claim. -/
structure SendCall where
  workerId : String
  eventId : Nat
  number : Nat
  attempt : Nat
  dedupeKey : String
  deriving DecidableEq, Repr

structure NotificationCallLogEntry where
  atMs : Int
  dedupeKey : String
  success : Bool
  latencyMs : Int
  deriving DecidableEq, Repr

structure NotificationAttemptRow where
  orderPublicId : String
  correlationId : String
  channel : String := "email"
  outcome : String
  breakerState : CircuitState
  latencyMs : Int
  deriving DecidableEq, Repr

/-- Where one loop stands between two of its segments. `send` is the index of the awaited
send and `since` the time its timer was set. -/
inductive ProtectedPhase
  | polling (emptyPolls : Nat)
  | claimed (event : ClaimedEvent)
  | sending (call : CallPhase) (event : ClaimedEvent) (attempt send : Nat) (since : Int)
  | backoff (call : CallPhase) (event : ClaimedEvent) (attempt : Nat)
  | recordingSuccess (event : ClaimedEvent)
  | markingPublished (event : ClaimedEvent)
  | recordingFailure (event : ClaimedEvent) (circuitOpen : Bool)
  | markingFailed (event : ClaimedEvent) (circuitOpen : Bool)
  | returned
  | stopped
  deriving DecidableEq, Repr

/-- `lease` is the claim the loop is busy with and is not part of the program's state. -/
structure ProtectedWorker where
  phase : ProtectedPhase := .polling 0
  stats : ProtectedWorkerStats := {}
  callsBefore : Nat := 0
  start : Int := 0
  lease : Option (Lease Nat String) := none

/-- The options of each `createProtectedWorker`, the instance each loop belongs to, and the
`maxEmptyPolls` of each loop. -/
structure Fleet where
  opts : Nat → ProtectedWorkerOptions := fun _ => {}
  instanceOf : String → Nat := fun _ => 0
  maxEmptyPolls : String → Nat := fun _ => 3

def Fleet.optsOf (f : Fleet) (workerId : String) : ProtectedWorkerOptions :=
  f.opts (f.instanceOf workerId)

/-- `sends` lists the invocations of `send`, newest first. `log` and `rejected` record the
claims, the finalising updates and the claims that met an open breaker. -/
structure PipelineWorld where
  rows : List (OutboxRow EventPayload)
  clock : Int
  breaker : Nat → CircuitBreaker := fun _ => {}
  worker : String → ProtectedWorker := fun _ => {}
  sends : List SendCall := []
  outcome : Nat → Option SendOutcome := fun _ => none
  callLog : List NotificationCallLogEntry := []
  notificationAttempts : List NotificationAttemptRow := []
  log : List (LeaseEntry Nat String) := []
  rejected : List (Lease Nat String) := []

inductive PipelineEvent
  | claim (workerId : String) (now : Int) (locked : Nat → Bool) (commit : Commit)
  | finish (workerId : String)
  | enter (workerId : String)
  | settle (send : Nat) (outcome : SendOutcome) (latencyMs : Int)
  | resume (workerId : String)
  | timeout (workerId : String)
  | wake (workerId : String)
  | record (workerId : String) (commit : Commit)
  | mark (workerId : String) (now : Int) (commit : Commit)
  | crash (workerId : String)
  | advance (ms : Nat)

def PipelineWorld.put (w : PipelineWorld) (workerId : String) (worker : ProtectedWorker) :
    PipelineWorld :=
  { w with worker := Function.update w.worker workerId worker }

def PipelineWorld.move (w : PipelineWorld) (workerId : String) (phase : ProtectedPhase) :
    PipelineWorld :=
  w.put workerId { w.worker workerId with phase }

/-- The callback only logs and counts, so it does not throw. -/
def neverThrows : Throws := fun _ _ => false

/-- The breaker after the `fn` of an admitted call has settled. -/
def settleCall (opts : CircuitBreakerOptions) (now : Int) (call : CallPhase)
    (success : Bool) (b : CircuitBreaker) : CircuitBreaker :=
  match call, success with
  | .probing, true => (probeResolved neverThrows now b).breaker
  | .probing, false => (probeRejected now b).breaker
  | .attempting, true => (closedResolved b).breaker
  | .attempting, false => (closedRejected opts now b).breaker
  | _, _ => b

/-- `notificationCallsMade += totalCallCount - callsBefore`, on both ways out of the send. -/
def ProtectedWorker.countCalls (worker : ProtectedWorker) (totalCallCount : Nat) :
    ProtectedWorker :=
  { worker with stats := { worker.stats with
      notificationCallsMade :=
        worker.stats.notificationCallsMade + (totalCallCount - worker.callsBefore) } }

/-- `sendProtected` resolves or rejects: the breaker books it, and the loop goes on to
record the outcome. -/
def PipelineWorld.sent (w : PipelineWorld) (f : Fleet) (workerId : String) (call : CallPhase)
    (event : ClaimedEvent) (success : Bool) : PipelineWorld :=
  let i := f.instanceOf workerId
  let b := settleCall (f.opts i).breaker w.clock call success (w.breaker i)
  let worker := (w.worker workerId).countCalls w.callLog.length
  let phase := if success then .recordingSuccess event else .recordingFailure event false
  { w.put workerId { worker with phase } with breaker := Function.update w.breaker i b }

/-- The head of the retry loop: the next attempt, or the last error thrown. -/
def PipelineWorld.attempt (w : PipelineWorld) (f : Fleet) (workerId : String)
    (call : CallPhase) (event : ClaimedEvent) (attempt : Nat) : PipelineWorld :=
  if attempt ≤ (f.optsOf workerId).maxAttempts then
    let number := ((w.worker workerId).lease.map Lease.number).getD 0
    let dedupeKey := event.payload.orderPublicId
    { w.move workerId (.sending call event attempt w.sends.length w.clock) with
      sends := ⟨workerId,event.id,number,attempt,dedupeKey⟩::w.sends }
  else w.sent f workerId call event false

/-- The `catch` of the retry loop. -/
def PipelineWorld.attemptFailed (w : PipelineWorld) (f : Fleet) (workerId : String)
    (call : CallPhase) (event : ClaimedEvent) (attempt : Nat) (isRetryable : Bool) :
    PipelineWorld :=
  if isRetryable && decide (attempt < (f.optsOf workerId).maxAttempts) then
    w.move workerId (.backoff call event attempt)
  else w.sent f workerId call event false

/-- The `catch` of the loop, reached by an error after the send itself succeeded. -/
def PipelineWorld.caught (w : PipelineWorld) (workerId : String) (event : ClaimedEvent) :
    PipelineWorld :=
  w.put workerId { (w.worker workerId).countCalls w.callLog.length with
    phase := .recordingFailure event false }

def PipelineWorld.recorded (w : PipelineWorld) (f : Fleet) (workerId : String)
    (event : ClaimedEvent) (outcome : String) : PipelineWorld :=
  { w with notificationAttempts := w.notificationAttempts ++ [
      { orderPublicId := event.payload.orderPublicId
        correlationId := event.payload.correlationId
        outcome
        breakerState := (w.breaker (f.instanceOf workerId)).state
        latencyMs := w.clock - (w.worker workerId).start }] }

/-- The loop starts over after an event. -/
def ProtectedWorker.next (worker : ProtectedWorker) (stats : ProtectedWorkerStats) :
    ProtectedWorker :=
  { worker with phase := .polling 0, stats, lease := none }

def ProtectedWorker.halt (worker : ProtectedWorker) : ProtectedWorker :=
  { worker with phase := .stopped, lease := none }

def pipelineStep (f : Fleet) (w : PipelineWorld) : PipelineEvent → Option PipelineWorld
  | .claim workerId now locked commit =>
    let worker := w.worker workerId
    match worker.phase with
    | .polling emptyPolls =>
      if emptyPolls < f.maxEmptyPolls workerId ∧ now ≤ w.clock then
        match claimNextEvent w.rows locked now workerId DEFAULT_LEASE_MS with
        | (_,none) => some (w.move workerId (.polling (emptyPolls + 1)))
        | (rows,some event) =>
          let lease : Lease Nat String :=
            ⟨event.id,workerId,event.attempts,now + DEFAULT_LEASE_MS⟩
          let log := .granted lease w.clock::w.log
          match commit with
          | .acknowledged =>
            let claimer := { worker with phase := .claimed event, lease := some lease }
            some { w.put workerId claimer with rows, log }
          -- `claimNextEvent` throws out of the loop
          | .replyLost => some { w.put workerId worker.halt with rows, log }
          | .rolledBack => some (w.put workerId worker.halt)
      else none
    | _ => none
  | .finish workerId =>
    match (w.worker workerId).phase with
    | .polling emptyPolls =>
      if emptyPolls < f.maxEmptyPolls workerId then none
      else some (w.move workerId .returned)
    | _ => none
  | .enter workerId =>
    let worker := w.worker workerId
    match worker.phase with
    | .claimed event =>
      let i := f.instanceOf workerId
      let entered := executeEnter (f.opts i).breaker neverThrows w.clock (w.breaker i)
      let breaker := Function.update w.breaker i entered.breaker
      let started := { worker with callsBefore := w.callLog.length, start := w.clock }
      match entered.phase with
      | .done =>
        -- `CircuitOpenError`
        let turnedAway := { started with phase := .recordingFailure event true }
        let rejected := worker.lease.toList ++ w.rejected
        some { w.put workerId turnedAway with breaker, rejected }
      | call =>
        let admitted := { w.put workerId started with breaker }
        if 1 ≤ (f.opts i).maxAttempts then some (admitted.attempt f workerId call event 1)
        else some (admitted.move workerId (.backoff call event 0))
    | _ => none
  | .settle send outcome latencyMs =>
    match w.sends.reverse[send]?, w.outcome send with
    | some call, none =>
      let entry := ⟨w.clock,call.dedupeKey,outcome == .success,latencyMs⟩
      let outcomes := Function.update w.outcome send (some outcome)
      some { w with outcome := outcomes, callLog := w.callLog ++ [entry] }
    | _, _ => none
  | .resume workerId =>
    match (w.worker workerId).phase with
    | .sending call event attempt send _ =>
      match w.outcome send with
      | some .success => some (w.sent f workerId call event true)
      | some .transientError => some (w.attemptFailed f workerId call event attempt true)
      | some .otherError => some (w.attemptFailed f workerId call event attempt false)
      | none => none
    | _ => none
  | .timeout workerId =>
    match (w.worker workerId).phase with
    | .sending call event attempt _ since =>
      -- a `TimeoutError` is retryable, and the send itself goes on
      if since + (f.optsOf workerId).timeoutMs ≤ w.clock then
        some (w.attemptFailed f workerId call event attempt true)
      else none
    | _ => none
  | .wake workerId =>
    match (w.worker workerId).phase with
    | .backoff call event attempt => some (w.attempt f workerId call event (attempt + 1))
    | _ => none
  | .record workerId commit =>
    let worker := w.worker workerId
    match worker.phase with
    | .recordingSuccess event =>
      let w' := if commit.applied then w.recorded f workerId event "success" else w
      if commit = .acknowledged then some (w'.move workerId (.markingPublished event))
      else some (w'.caught workerId event)
    | .recordingFailure event circuitOpen =>
      let outcome := if circuitOpen then "circuit_open" else "failure"
      let w' := if commit.applied then w.recorded f workerId event outcome else w
      if commit = .acknowledged then some (w'.move workerId (.markingFailed event circuitOpen))
      else some (w'.put workerId worker.halt)
    | _ => none
  | .mark workerId now commit =>
    let worker := w.worker workerId
    match worker.phase with
    | .markingPublished event =>
      let rows := if commit.applied then markPublished w.rows now event.id workerId else w.rows
      let log := if commit.applied then (worker.lease.toList.map .settled) ++ w.log else w.log
      let marked := { w with rows, log }
      if commit = .acknowledged then
        let stats := { worker.stats with published := worker.stats.published + 1 }
        some (marked.put workerId (worker.next stats))
      else some (marked.caught workerId event)
    | .markingFailed event circuitOpen =>
      let rows := if commit.applied then markPublishFailed w.rows event.id workerId else w.rows
      let log := if commit.applied then (worker.lease.toList.map .settled) ++ w.log else w.log
      let marked := { w with rows, log }
      if commit = .acknowledged then
        let rejections := worker.stats.circuitOpenRejections + if circuitOpen then 1 else 0
        let stats := { worker.stats with
          failed := worker.stats.failed + 1, circuitOpenRejections := rejections }
        some (marked.put workerId (worker.next stats))
      else some (marked.put workerId worker.halt)
    | _ => none
  | .crash workerId => some (w.put workerId (w.worker workerId).halt)
  | .advance ms => some { w with clock := w.clock + ms }

/-- Untried events, idle loops, closed breakers, and a notification service without calls. -/
def PipelineWorld.Fresh (w : PipelineWorld) : Prop :=
  (w.rows.map OutboxRow.id).Nodup ∧ w.worker = (fun _ => {}) ∧ w.breaker = (fun _ => {}) ∧
    w.sends = [] ∧ w.outcome = (fun _ => none) ∧ w.callLog = [] ∧ w.log = [] ∧
    w.rejected = [] ∧ ∀ row ∈ w.rows, row.status = .pending ∧ row.lockedBy = none ∧
      row.lockedUntil = none ∧ row.attempts = 0

/-- How often an event has been claimed. -/
def PipelineWorld.claims (w : PipelineWorld) (eventId : Nat) : Nat :=
  (leasesOf eventId w.log).length

/-- How often `send` has been invoked for an event. -/
def PipelineWorld.sendsFor (w : PipelineWorld) (eventId : Nat) : Nat :=
  w.sends.countP (·.eventId == eventId)

end SystemsLab.Capstone
