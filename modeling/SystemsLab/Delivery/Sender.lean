import SystemsLab.Framework.LockTable
import SystemsLab.Framework.RowVersions
import SystemsLab.Framework.Table
import SystemsLab.Framework.Transition

/-!
# Senders that retry and an idempotent receiver

`sendWithRetry` sends until an acknowledgment arrives or its attempts are used up; what the
network does to each attempt is scripted. An attempt that arrives runs the transaction of
`idempotentProcessMessage`. A step is one statement of that transaction or the settlement of
another `await`, together with the synchronous code up to the next one.
-/

namespace SystemsLab.Delivery

inductive NetworkOutcome
  | messageLost
  | ackLost
  | success
  deriving DecidableEq, Repr

structure NetworkScript where
  outcomes : List NetworkOutcome
  deriving DecidableEq, Repr

/-- Attempts beyond the script repeat its last outcome. -/
def outcomeForAttempt (script : NetworkScript) (attemptNumber : Nat) :
    Except String NetworkOutcome :=
  match script.outcomes with
  | [] => .error "NetworkScript.outcomes must contain at least one outcome"
  | o::os =>
    .ok ((o::os).get ⟨min (attemptNumber - 1) os.length,by rw [List.length_cons]; omega⟩)

inductive DeliveryOutcome
  | sentLost
  | deliveredAckLost
  | deliveredAcked
  deriving DecidableEq, Repr

structure DeliveryAttempt where
  attemptNumber : Nat
  outcome : DeliveryOutcome
  deriving DecidableEq, Repr

def toDeliveryOutcome : NetworkOutcome → DeliveryOutcome
  | .messageLost => .sentLost
  | .ackLost => .deliveredAckLost
  | .success => .deliveredAcked

structure SendWithRetryResult where
  attempts : List DeliveryAttempt
  acked : Bool
  deriving DecidableEq, Repr

/-- The next statement of `idempotentProcessMessage`. -/
inductive ReceiverPhase
  | claiming
  | updating
  | committing (applied : Bool)
  deriving DecidableEq, Repr

/-- What a run of `sendWithRetry` is waiting for. -/
inductive SendPhase
  | delivering (networkOutcome : NetworkOutcome) (receiver : ReceiverPhase)
  | reporting (attempt : DeliveryAttempt)
  | sleeping
  | returned (result : SendWithRetryResult)
  | threw
  deriving DecidableEq, Repr

/-- `deliveries` records the attempts that `deliverToReceiver` was called for. -/
structure SendRun where
  messageId : Nat
  script : NetworkScript
  maxAttempts : Nat
  attemptNumber : Nat := 1
  attempts : List DeliveryAttempt := []
  deliveries : List Nat := []
  phase : SendPhase := .sleeping
  deriving DecidableEq, Repr

namespace SendRun

/-- The attempt is decided: it is pushed, and `onAttempt` is called. -/
def push (r : SendRun) (networkOutcome : NetworkOutcome) : SendRun :=
  let attempt : DeliveryAttempt := ⟨r.attemptNumber,toDeliveryOutcome networkOutcome⟩
  { r with attempts := r.attempts ++ [attempt], phase := .reporting attempt }

/-- From the head of the loop. -/
def iterate (r : SendRun) : SendRun :=
  if r.attemptNumber ≤ r.maxAttempts then
    match outcomeForAttempt r.script r.attemptNumber with
    | .error _ => { r with phase := .threw }
    | .ok .messageLost => r.push .messageLost
    | .ok networkOutcome =>
      { r with
        phase := .delivering networkOutcome .claiming
        deliveries := r.deliveries ++ [r.attemptNumber] }
  else { r with phase := .returned ⟨r.attempts,false⟩ }

def advance (r : SendRun) : SendRun := { r with attemptNumber := r.attemptNumber + 1 }

/-- From the settlement of `onAttempt`. -/
def afterReport (r : SendRun) (attempt : DeliveryAttempt) : SendRun :=
  if attempt.outcome = .deliveredAcked then { r with phase := .returned ⟨r.attempts,true⟩ }
  else if r.attemptNumber < r.maxAttempts then { r with phase := .sleeping }
  else r.advance.iterate

/-- The id that the open receiver transaction of a run has inserted. -/
def claimed (r : SendRun) : Option Nat :=
  match r.phase with
  | .delivering _ .updating => some r.messageId
  | .delivering _ (.committing true) => some r.messageId
  | _ => none

end SendRun

/-- `known` are the ids in `notifications`; a version of one is its `receiver_processed_count`.
`processedIds` is the table `processed_message_ids`. -/
structure DeliveryWorld where
  known : Nat → Bool
  notifications : RowVersions Nat Nat Int
  processedIds : List Nat := []
  messageLock : LockTable Nat Nat := fun _ => none
  run : Nat → Option SendRun := fun _ => none

/-- `receive` is the next statement of the receiver, `reject` its failure. -/
inductive DeliveryEvent
  | send (run messageId : Nat) (script : NetworkScript) (maxAttempts : Nat)
  | receive (run : Nat)
  | reject (run : Nat)
  | report (run : Nat) (ok : Bool)
  | wake (run : Nat)
  deriving DecidableEq, Repr

namespace DeliveryWorld

def put (w : DeliveryWorld) (n : Nat) (r : SendRun) : DeliveryWorld :=
  { w with run := Function.update w.run n (some r) }

/-- A failed statement: `ROLLBACK`, and both functions throw. -/
def reject (w : DeliveryWorld) (n : Nat) (r : SendRun) : DeliveryWorld :=
  { w.put n { r with phase := .threw } with
    notifications := w.notifications.rollback n
    messageLock := w.messageLock.release r.claimed }

/-- `INSERT … ON CONFLICT (message_id) DO NOTHING RETURNING id`, then the `if`. -/
def claimMessage (w : DeliveryWorld) (n : Nat) (r : SendRun) (networkOutcome : NetworkOutcome) :
    Option DeliveryWorld :=
  if r.messageId ∈ w.processedIds then
    some (w.put n { r with phase := .delivering networkOutcome (.committing false) })
  else if (w.messageLock r.messageId).isSome then none
  else if w.known r.messageId then
    some { w.put n { r with phase := .delivering networkOutcome .updating } with
      messageLock := w.messageLock.acquire r.messageId n }
  else some (w.reject n r)

/-- `SET receiver_processed_count = receiver_processed_count + 1 WHERE id = $1`. -/
def countMessage (w : DeliveryWorld) (n : Nat) (r : SendRun) (networkOutcome : NetworkOutcome) :
    Option DeliveryWorld :=
  match (w.notifications r.messageId).version n with
  | none => none
  | some count =>
    if count + 1 ≤ maxInteger then
      some { w.put n { r with phase := .delivering networkOutcome (.committing true) } with
        notifications := w.notifications.put n r.messageId (count + 1) }
    else some (w.reject n r)

/-- `COMMIT`; `sendWithRetry` runs on with the attempt that was delivered. -/
def commitMessage (w : DeliveryWorld) (n : Nat) (r : SendRun) (networkOutcome : NetworkOutcome)
    (applied : Bool) : DeliveryWorld :=
  { w.put n (r.push networkOutcome) with
    notifications := w.notifications.commit n
    processedIds := if applied then w.processedIds ++ [r.messageId] else w.processedIds
    messageLock := w.messageLock.release r.claimed }

def idempotentProcessMessage (w : DeliveryWorld) (n : Nat) (r : SendRun) :
    Option DeliveryWorld :=
  match r.phase with
  | .delivering networkOutcome .claiming => w.claimMessage n r networkOutcome
  | .delivering networkOutcome .updating => w.countMessage n r networkOutcome
  | .delivering networkOutcome (.committing applied) =>
    some (w.commitMessage n r networkOutcome applied)
  | _ => none

end DeliveryWorld

def deliveryStep (w : DeliveryWorld) : DeliveryEvent → Option DeliveryWorld
  | .send n messageId script maxAttempts =>
    match w.run n with
    | some _ => none
    | none =>
      let r : SendRun := { messageId, script, maxAttempts }
      some (w.put n r.iterate)
  | .receive n =>
    match w.run n with
    | some r => w.idempotentProcessMessage n r
    | none => none
  | .reject n =>
    match w.run n with
    | some r =>
      match r.phase with
      | .delivering _ _ => some (w.reject n r)
      | _ => none
    | none => none
  | .report n ok =>
    match w.run n with
    | some r =>
      match r.phase with
      | .reporting attempt =>
        some (w.put n (if ok then r.afterReport attempt else { r with phase := .threw }))
      | _ => none
    | none => none
  | .wake n =>
    match w.run n with
    | some r =>
      match r.phase with
      | .sleeping => some (w.put n r.advance.iterate)
      | _ => none
    | none => none

/-- No run is on its way, and `message_id` is unique in what is there. -/
structure DeliveryWorld.Idle (w : DeliveryWorld) : Prop where
  rows : ∀ k, (w.notifications k).held = none
  nodup : w.processedIds.Nodup
  locks : w.messageLock = fun _ => none
  runs : w.run = fun _ => none

/-- The outcomes of the first attempts, as far as the script has any. -/
def NetworkScript.outcomesUpTo (script : NetworkScript) (attempts : Nat) : List NetworkOutcome :=
  (List.range attempts).filterMap fun i => (outcomeForAttempt script (i + 1)).toOption

/-- The prefix that ends with the first `success`. -/
def upToSuccess : List NetworkOutcome → List NetworkOutcome
  | [] => []
  | .success::_ => [.success]
  | o::os => o::upToSuccess os

def numberedAttempts (outcomes : List NetworkOutcome) : List DeliveryAttempt :=
  outcomes.mapIdx fun i o => ⟨i + 1,toDeliveryOutcome o⟩

/-- The attempts that were not lost. -/
def arrivedAttempts (attempts : List DeliveryAttempt) : List Nat :=
  (attempts.filter (·.outcome ≠ .sentLost)).map DeliveryAttempt.attemptNumber

end SystemsLab.Delivery
