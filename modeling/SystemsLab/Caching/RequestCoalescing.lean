import SystemsLab.Framework.Transition
import Mathlib.Logic.Function.Basic

/-!
# In-process request coalescing

`getProduct` keeps the promise of a running fetch in `inFlight`, and later calls for the same
key wait for that promise. A step is one synchronous segment: it runs from the settlement it
waited for to the next `await`. Redis and the database settle when and how they like.
-/

namespace SystemsLab.Caching

def productCacheKey (productId : Int) : String := "product:" ++ toString productId

variable {α ε : Type}

/-- What the async function that fetches is waiting for. -/
inductive FetchPhase (α ε : Type)
  | gettingCached
  | gettingProduct
  | settingCached (product : α)
  | settled (outcome : Except ε α)

structure Fetch (α ε : Type) where
  key : String
  phase : FetchPhase α ε := .gettingCached

/-- The promise has not settled. -/
def Fetch.Unsettled (f : Fetch α ε) : Prop :=
  ∀ outcome, f.phase ≠ .settled outcome

/-- A call waits for the promise `fetch`. The initiator has a `finally` block to run. -/
structure GetProduct (α ε : Type) where
  key : String
  fetch : Nat
  initiator : Bool
  outcome : Option (Except ε α) := none

structure CoalescingWorld (α ε : Type) where
  inFlight : String → Option Nat := fun _ => none
  fetch : Nat → Option (Fetch α ε) := fun _ => none
  nextFetch : Nat := 0
  call : Nat → Option (GetProduct α ε) := fun _ => none

inductive CoalescingEvent (α ε : Type)
  | getProduct (call : Nat) (productId : Int)
  | redisGet (fetch : Nat) (reply : Except ε (Option String))
  | database (fetch : Nat) (reply : Except ε α)
  | redisSet (fetch : Nat) (reply : Except ε Unit)
  | resume (call : Nat)

namespace CoalescingWorld

def setPhase (w : CoalescingWorld α ε) (f : Nat) (key : String) (phase : FetchPhase α ε) :
    CoalescingWorld α ε :=
  { w with fetch := Function.update w.fetch f (some ⟨key,phase⟩) }

def setCall (w : CoalescingWorld α ε) (n : Nat) (c : GetProduct α ε) : CoalescingWorld α ε :=
  { w with call := Function.update w.call n (some c) }

/-- The segment of a new call: it joins the promise in `inFlight`, or starts a fetch and
stores its promise. -/
def getProduct (w : CoalescingWorld α ε) (n : Nat) (productId : Int) : CoalescingWorld α ε :=
  let key := productCacheKey productId
  match w.inFlight key with
  | some existing => w.setCall n { key, fetch := existing, initiator := false }
  | none =>
    let started := w.setPhase w.nextFetch key .gettingCached
    { started.setCall n { key, fetch := w.nextFetch, initiator := true } with
      inFlight := Function.update w.inFlight key (some w.nextFetch)
      nextFetch := w.nextFetch + 1 }

/-- After `redis.get`. The empty string is falsy. -/
def afterGet (parse : String → Except ε α) : Except ε (Option String) → FetchPhase α ε
  | .error e => .settled (.error e)
  | .ok none => .gettingProduct
  | .ok (some cached) => if cached = "" then .gettingProduct else .settled (parse cached)

def afterDatabase : Except ε α → FetchPhase α ε
  | .error e => .settled (.error e)
  | .ok product => .settingCached product

def afterSet (product : α) : Except ε Unit → FetchPhase α ε
  | .error e => .settled (.error e)
  | .ok () => .settled (.ok product)

/-- The promise has settled: the initiator runs `inFlight.delete(key)` before it settles. -/
def resume (w : CoalescingWorld α ε) (n : Nat) (c : GetProduct α ε) (outcome : Except ε α) :
    CoalescingWorld α ε :=
  let settled := w.setCall n { c with outcome := some outcome }
  if c.initiator then { settled with inFlight := Function.update w.inFlight c.key none }
  else settled

end CoalescingWorld

/-- `parse` is `JSON.parse`. -/
def coalescingStep (parse : String → Except ε α) (w : CoalescingWorld α ε) :
    CoalescingEvent α ε → Option (CoalescingWorld α ε)
  | .getProduct n productId =>
    match w.call n with
    | none => some (w.getProduct n productId)
    | some _ => none
  | .redisGet f reply =>
    match w.fetch f with
    | some ⟨key,.gettingCached⟩ => some (w.setPhase f key (CoalescingWorld.afterGet parse reply))
    | _ => none
  | .database f reply =>
    match w.fetch f with
    | some ⟨key,.gettingProduct⟩ => some (w.setPhase f key (CoalescingWorld.afterDatabase reply))
    | _ => none
  | .redisSet f reply =>
    match w.fetch f with
    | some ⟨key,.settingCached product⟩ =>
      some (w.setPhase f key (CoalescingWorld.afterSet product reply))
    | _ => none
  | .resume n =>
    match w.call n with
    | some ⟨key,f,initiator,none⟩ =>
      match w.fetch f with
      | some ⟨_,.settled outcome⟩ => some (w.resume n ⟨key,f,initiator,none⟩ outcome)
      | _ => none
    | _ => none

end SystemsLab.Caching
