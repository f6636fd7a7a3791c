import SystemsLab.Framework.Transition

/-!
# Circuit breaker

Both copies of `CircuitBreaker` are the same class. An `execute` call is two synchronous
segments: the part before `await fn()` admits or rejects the call, and the part after it
books the outcome. Between the two segments any other call may run, so a call admitted
while the breaker was `CLOSED` can settle in any later state.
-/

namespace SystemsLab.Resilience

inductive CircuitState
  | CLOSED
  | OPEN
  | HALF_OPEN
  deriving DecidableEq, Repr

structure CircuitBreakerOptions where
  failureThreshold : Nat
  cooldownMs : Int

structure CircuitBreaker where
  state : CircuitState := .CLOSED
  consecutiveFailures : Nat := 0
  openedAt : Int := 0
  halfOpenProbeInFlight : Bool := false
  deriving DecidableEq, Repr

/-- What an outside observer of one breaker sees. -/
inductive Notice
  | changed (src dst : CircuitState) (reason : String)
  | opened (time : Int)
  | invoked (time : Int)
  deriving DecidableEq, Repr

/-- Where one `execute` call stands: inside `fn` as the half-open probe, inside `fn` as a
call admitted while `CLOSED`, or finished. -/
inductive CallPhase
  | notStarted
  | probing
  | attempting
  | done
  deriving DecidableEq, Repr

/-- The result of one synchronous segment, with its notices newest first. -/
structure Segment where
  breaker : CircuitBreaker
  phase : CallPhase
  notices : List Notice
  deriving DecidableEq, Repr

/-- `onStateChange` may throw; this says for which changes it does. -/
abbrev Throws := CircuitState → CircuitState → Bool

def CircuitBreaker.transition (b : CircuitBreaker) (dst : CircuitState) : CircuitBreaker :=
  { b with state := dst }

/-- The observer is only told about a real change. -/
def CircuitBreaker.change (b : CircuitBreaker) (dst : CircuitState) (reason : String) :
    List Notice :=
  if b.state = dst then [] else [.changed b.state dst reason]

/-- The `HALF_OPEN` branch up to `await fn()`: one probe at a time. -/
def enterHalfOpen (now : Int) (b : CircuitBreaker) : Segment :=
  if b.halfOpenProbeInFlight then ⟨b, .done, []⟩
  else ⟨{ b with halfOpenProbeInFlight := true }, .probing, [.invoked now]⟩

/-- `execute` up to `await fn()`. -/
def executeEnter (opts : CircuitBreakerOptions) (throws : Throws) (now : Int)
    (b : CircuitBreaker) : Segment :=
  match b.state with
  | .OPEN =>
    if opts.cooldownMs ≤ now - b.openedAt then
      let half := b.transition .HALF_OPEN
      let change := b.change .HALF_OPEN "cooldown elapsed"
      -- a throwing callback leaves `execute` with the new state already written
      if throws .OPEN .HALF_OPEN then ⟨half, .done, change⟩
      else
        let entered := enterHalfOpen now half
        { entered with notices := entered.notices ++ change }
    else ⟨b, .done, []⟩
  | .HALF_OPEN => enterHalfOpen now b
  | .CLOSED => ⟨b, .attempting, [.invoked now]⟩

/-- Write `openedAt`, then `transition("OPEN")`. -/
def CircuitBreaker.reopen (b : CircuitBreaker) (now : Int) (reason : String) :
    CircuitBreaker × List Notice :=
  (({ b with openedAt := now }).transition .OPEN, b.change .OPEN reason ++ [.opened now])

/-- `execute` after the probe's `fn` resolved. A callback that throws on the way to
`CLOSED` lands in the same `catch` clause as a failed probe. -/
def probeResolved (throws : Throws) (now : Int) (b : CircuitBreaker) : Segment :=
  let closed := ({ b with consecutiveFailures := 0 }).transition .CLOSED
  let change := b.change .CLOSED "probe succeeded"
  if b.state ≠ .CLOSED ∧ throws b.state .CLOSED then
    let r := closed.reopen now "probe failed"
    ⟨{ r.1 with halfOpenProbeInFlight := false }, .done, r.2 ++ change⟩
  else ⟨{ closed with halfOpenProbeInFlight := false }, .done, change⟩

/-- `execute` after the probe's `fn` rejected. -/
def probeRejected (now : Int) (b : CircuitBreaker) : Segment :=
  let r := b.reopen now "probe failed"
  ⟨{ r.1 with halfOpenProbeInFlight := false }, .done, r.2⟩

/-- `execute` after the `fn` of a call admitted while `CLOSED` resolved. -/
def closedResolved (b : CircuitBreaker) : Segment :=
  ⟨{ b with consecutiveFailures := 0 }, .done, []⟩

/-- `execute` after the `fn` of a call admitted while `CLOSED` rejected. The breaker's
present state is not looked at. -/
def closedRejected (opts : CircuitBreakerOptions) (now : Int) (b : CircuitBreaker) : Segment :=
  let failures := b.consecutiveFailures + 1
  let counted := { b with consecutiveFailures := failures }
  if opts.failureThreshold ≤ failures then
    let r := counted.reopen now "failure threshold reached"
    ⟨r.1, .done, r.2⟩
  else ⟨counted, .done, []⟩

structure World where
  breaker : CircuitBreaker
  clock : Int
  call : Nat → CallPhase
  notices : List Notice

inductive Event
  | execute (id : Nat) (throws : Throws)
  | resolve (id : Nat) (throws : Throws)
  | reject (id : Nat)
  | advance (ms : Nat)

def World.initial (clock : Int) : World :=
  { breaker := {}, clock, call := fun _ => .notStarted, notices := [] }

/-- Book a segment that call `id` ran. -/
def World.book (w : World) (id : Nat) (seg : Segment) : World :=
  { w with
    breaker := seg.breaker
    call := Function.update w.call id seg.phase
    notices := seg.notices ++ w.notices }

/-- One synchronous segment of one call, or the passage of time. -/
def breakerStep (opts : CircuitBreakerOptions) (w : World) : Event → Option World
  | .execute id throws =>
    match w.call id with
    | .notStarted => some (w.book id (executeEnter opts throws w.clock w.breaker))
    | _ => none
  | .resolve id throws =>
    match w.call id with
    | .probing => some (w.book id (probeResolved throws w.clock w.breaker))
    | .attempting => some (w.book id (closedResolved w.breaker))
    | _ => none
  | .reject id =>
    match w.call id with
    | .probing => some (w.book id (probeRejected w.clock w.breaker))
    | .attempting => some (w.book id (closedRejected opts w.clock w.breaker))
    | _ => none
  | .advance ms => some { w with clock := w.clock + ms }

end SystemsLab.Resilience
