import SystemsLab.Framework.Table
import SystemsLab.Resilience.ProbeInvariant

/-!
# Timeout, retries and circuit breaker around one downstream

`makeCall` runs the whole retry sequence inside one `execute` of the breaker, and each attempt of
it inside a timeout of its own. Calls may run side by side, and all of them share the breaker.
What `retryWithBackoff` sleeps is any fraction of a cap, so that a sleep may end at any time.
-/

namespace SystemsLab.Resilience

inductive DownstreamHealth
  | healthy
  | degraded
  | downFailFast
  | downHang
  deriving DecidableEq, Repr

inductive CallError
  | TransientDownstreamError (message : String)
  | NonTransientDownstreamError (message : String)
  | TimeoutError (timeoutMs : Nat)
  deriving DecidableEq, Repr

structure DownstreamOptions where
  fastLatencyRangeMs : Nat × Nat := (5,30)
  slowLatencyRangeMs : Nat × Nat := (400,900)
  hangMs : Nat := 5000

/-- Which of the rates of a degraded downstream the random number falls under. -/
inductive DegradedRoll
  | transientError
  | nonTransientError
  | slow
  | fast
  deriving DecidableEq, Repr

/-- What the random numbers of one call come to, in whole milliseconds as timers count them. -/
structure Rolls where
  degraded : DegradedRoll
  fastMs : Nat
  slowMs : Nat
  deriving DecidableEq, Repr

/-- `pickLatency` stays within its range. -/
def Rolls.Within (rolls : Rolls) (opts : DownstreamOptions) : Prop :=
  opts.fastLatencyRangeMs.1 ≤ rolls.fastMs ∧ rolls.fastMs ≤ opts.fastLatencyRangeMs.2 ∧
    opts.slowLatencyRangeMs.1 ≤ rolls.slowMs ∧ rolls.slowMs ≤ opts.slowLatencyRangeMs.2

instance (rolls : Rolls) (opts : DownstreamOptions) : Decidable (rolls.Within opts) :=
  inferInstanceAs (Decidable (_ ∧ _ ∧ _ ∧ _))

/-- After how long a promise settles, and how. -/
abbrev Settles := Nat × Except CallError Unit

def settleGeneric (opts : DownstreamOptions) (health : DownstreamHealth) (label : String)
    (rolls : Rolls) : Settles :=
  match health with
  | .healthy => (rolls.fastMs,.ok ())
  | .downFailFast =>
    (rolls.fastMs,.error (.TransientDownstreamError ("downstream is down (call: " ++ label ++ ")")))
  | .downHang => (opts.hangMs,.ok ())
  | .degraded =>
    match rolls.degraded with
    | .transientError => (rolls.fastMs,.error (.TransientDownstreamError
        ("downstream returned a transient error (call: " ++ label ++ ")")))
    | .nonTransientError => (rolls.fastMs,.error (.NonTransientDownstreamError
        ("downstream rejected the request (call: " ++ label ++ ")")))
    | .slow => (rolls.slowMs,.ok ())
    | .fast => (rolls.fastMs,.ok ())

/-- Timers fire in the order they are due, and the timer of the timeout is set first. -/
def withTimeout (timeoutMs : Nat) (fn : Settles) : Settles :=
  if fn.1 < timeoutMs then fn else (timeoutMs,.error (.TimeoutError timeoutMs))

structure ComposedOptions where
  timeoutMs : Nat
  maxAttempts : Nat
  positive : 0 < maxAttempts := by decide
  breaker : CircuitBreakerOptions
  downstream : DownstreamOptions := {}

def composedOptions : ComposedOptions where
  timeoutMs := 150
  maxAttempts := 3
  breaker := ⟨4,300⟩

def isRetryable : CallError → Bool
  | .TransientDownstreamError _ => true
  | .NonTransientDownstreamError _ => false
  | .TimeoutError _ => true

/-- Where the retry loop of one call stands. -/
inductive AttemptPhase
  | racing (attempt : Nat) (dueAt : Int) (outcome : Except CallError Unit)
  | sleeping (attempt : Nat)
  | returned (attempt : Nat)
  | threw (attempt : Nat) (err : CallError)
  deriving DecidableEq, Repr

/-- The attempts made so far. -/
def AttemptPhase.attempts : AttemptPhase → Nat
  | .racing attempt _ _ | .sleeping attempt | .returned attempt | .threw attempt _ => attempt

def AttemptPhase.busy : AttemptPhase → Bool
  | .racing _ _ _ | .sleeping _ => true
  | _ => false

/-- A `makeCall` that the breaker has let through. -/
structure ComposedCall where
  id : Nat
  label : String
  phase : AttemptPhase
  deriving DecidableEq, Repr

structure LoggedCall where
  atMs : Int
  label : String
  deriving DecidableEq, Repr

structure ComposedWorld where
  breaker : World
  health : DownstreamHealth
  callLog : List LoggedCall := []
  calls : List ComposedCall := []

inductive ComposedEvent
  | makeCall (id : Nat) (label : String) (rolls : Rolls)
  | settle (id : Nat)
  | wake (id : Nat) (rolls : Rolls)
  | setHealth (health : DownstreamHealth)
  | advance (ms : Nat)

/-- The breaker's `fn` is running. -/
def CallPhase.invoked : CallPhase → Bool
  | .probing | .attempting => true
  | _ => false

/-- `onStateChange` only logs. -/
def logsOnly : Throws := fun _ _ => false

namespace ComposedWorld

/-- `withTimeout(() => downstream.call(label), TIMEOUT_MS)`. -/
def race (opts : ComposedOptions) (w : ComposedWorld) (label : String) (attempt : Nat)
    (rolls : Rolls) : AttemptPhase :=
  let settles := withTimeout opts.timeoutMs (settleGeneric opts.downstream w.health label rolls)
  .racing attempt (w.breaker.clock + settles.1) settles.2

def log (w : ComposedWorld) (label : String) : List LoggedCall :=
  w.callLog ++ [⟨w.breaker.clock,label⟩]

def setPhase (w : ComposedWorld) (id : Nat) (phase : AttemptPhase) : List ComposedCall :=
  updateWhere (·.id == id) (fun call => { call with phase }) w.calls

/-- An attempt is over: the loop goes on, or `execute` has its outcome. -/
def attempted (opts : ComposedOptions) (w : ComposedWorld) (id attempt : Nat)
    (outcome : Except CallError Unit) : Option ComposedWorld :=
  match outcome with
  | .ok () =>
    (breakerStep opts.breaker w.breaker (.resolve id logsOnly)).map fun breaker =>
      { w with breaker, calls := w.setPhase id (.returned attempt) }
  | .error err =>
    let attemptsRemain := decide (attempt < opts.maxAttempts)
    if !isRetryable err || !attemptsRemain then
      (breakerStep opts.breaker w.breaker (.reject id)).map fun breaker =>
        { w with breaker, calls := w.setPhase id (.threw attempt err) }
    else some { w with calls := w.setPhase id (.sleeping attempt) }

end ComposedWorld

def composedStep (opts : ComposedOptions) (w : ComposedWorld) :
    ComposedEvent → Option ComposedWorld
  | .makeCall id label rolls =>
    if rolls.Within opts.downstream then
      (breakerStep opts.breaker w.breaker (.execute id logsOnly)).map fun breaker =>
        if (breaker.call id).invoked then
          { w with
            breaker
            callLog := w.log label
            calls := w.calls ++ [⟨id,label,w.race opts label 1 rolls⟩] }
        else { w with breaker }
    else none
  | .settle id =>
    match rowAt ComposedCall.id w.calls id with
    | some ⟨_,_,.racing attempt dueAt outcome⟩ =>
      if dueAt ≤ w.breaker.clock then w.attempted opts id attempt outcome else none
    | _ => none
  | .wake id rolls =>
    if rolls.Within opts.downstream then
      match rowAt ComposedCall.id w.calls id with
      | some ⟨_,label,.sleeping attempt⟩ =>
        some { w with
          callLog := w.log label
          calls := w.setPhase id (w.race opts label (attempt + 1) rolls) }
      | _ => none
    else none
  | .setHealth health => some { w with health }
  | .advance ms =>
    (breakerStep opts.breaker w.breaker (.advance ms)).map fun breaker => { w with breaker }

/-- Neither the breaker nor the downstream has been called. -/
structure ComposedWorld.Fresh (w : ComposedWorld) : Prop where
  breaker : w.breaker = .initial w.breaker.clock
  callLog : w.callLog = []
  calls : w.calls = []

/-- The calls that are under way. -/
def ComposedWorld.inFlight (w : ComposedWorld) : Nat :=
  w.calls.countP fun call => call.phase.busy

end SystemsLab.Resilience
