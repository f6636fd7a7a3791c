import SystemsLab.Caching.RequestCoalescing
import SystemsLab.Locks.BasicLock

/-!
# Refilling a cache under a lease

`getProduct` of `createLeaseBasedCache`: on a miss a call tries for a lease in Redis, and either
asks the database and fills the cache, or polls the cache. The calls are those of all processes
for one product, over one Redis. A step is one command, one reply of the database, or what a call
does on its own when it wakes up.
-/

namespace SystemsLab.Caching

open Locks

/-- `JSON.stringify` and `JSON.parse` on products. -/
structure ProductJson (α : Type) where
  stringify : α → String
  parse : String → Except String α
  parse_stringify : ∀ product, parse (stringify product) = .ok product
  stringify_ne : ∀ product, stringify product ≠ ""

/-- The options of the process of a call, with their defaults. -/
structure LeaseCacheOptions where
  ttlSeconds : Int := 30
  leaseMs : Int := 2000
  pollIntervalMs : Int := 20
  maxAttempts : Int := 5
  deriving DecidableEq, Repr

inductive LeaseError
  | rejected (error : String)
  | gaveUp (message : String)
  deriving DecidableEq, Repr

/-- What a call waits for. A call that was `refused` the lease has yet to begin its polling. -/
inductive LeasePhase (α : Type)
  | getting (attempt : Nat)
  | acquiring (attempt : Nat) (owner : String)
  | fetching (owner : String)
  | setting (owner : String) (product : α)
  | releasing (owner : String) (outcome : Except LeaseError α)
  | refused (attempt : Nat)
  | polling (attempt : Nat) (deadline : Int)
  | sleeping (attempt : Nat) (deadline wakeAt : Int)
  | settled (outcome : Except LeaseError α)

/-- The lease under which a call asks the database or sets the entry. -/
def LeasePhase.refill {α : Type} : LeasePhase α → Option String
  | .fetching owner => some owner
  | .setting owner _ => some owner
  | _ => none

structure LeaseCall (α : Type) where
  options : LeaseCacheOptions
  phase : LeasePhase α

/-- `owners` are the values of `randomUUID` so far, `produced` what the database has replied. -/
structure LeaseWorld (α : Type) where
  productId : Int
  redis : Keyspace
  clock : Int
  owners : List String := []
  invocations : Nat := 0
  produced : List α := []
  started : Nat := 0
  call : Nat → Option (LeaseCall α) := fun _ => none

/-- `owner` is what `randomUUID` returns if the call needs it. -/
inductive LeaseEvent (α : Type)
  | getProduct (options : LeaseCacheOptions)
  | redis (call : Nat) (owner : String)
  | database (call : Nat) (product : α)
  | resume (call : Nat)
  | fail (call : Nat) (error : String)
  | advance (ms : Nat)

/-- `RELEASE_IF_OWNER_SCRIPT`. -/
def releaseIfOwner (redis : Keyspace) (now : Int) (lockKey owner : String) : Keyspace :=
  if redis.get now lockKey = some owner then redis.del lockKey else redis

variable {α : Type}

/-- `if (cached) return JSON.parse(cached)`. The empty string is falsy. -/
def cachedProduct (json : ProductJson α) : Option String → Option (Except LeaseError α)
  | none => none
  | some cached => if cached = "" then none else some ((json.parse cached).mapError .rejected)

namespace LeaseWorld

def key (w : LeaseWorld α) : String := productCacheKey w.productId

def lockKey (w : LeaseWorld α) : String := "lock:" ++ w.key

def put (w : LeaseWorld α) (n : Nat) (c : LeaseCall α) : LeaseWorld α :=
  { w with call := Function.update w.call n (some c) }

def settle (w : LeaseWorld α) (n : Nat) (c : LeaseCall α) (outcome : Except LeaseError α) :
    LeaseWorld α :=
  w.put n { c with phase := .settled outcome }

/-- `redis.get(key)`. -/
def cached (w : LeaseWorld α) (json : ProductJson α) : Option (Except LeaseError α) :=
  cachedProduct json (w.redis.get w.clock w.key)

/-- After a miss. -/
def miss (w : LeaseWorld α) (n : Nat) (c : LeaseCall α) (attempt : Nat) (owner : String) :
    Option (LeaseWorld α) :=
  if owner ∈ w.owners then none
  else some { w.put n { c with phase := .acquiring attempt owner } with
    owners := owner::w.owners }

/-- `SET lock:key owner PX leaseMs NX`. A call that has the lease calls the database at once. -/
def acquire (w : LeaseWorld α) (n : Nat) (c : LeaseCall α) (attempt : Nat) (owner : String) :
    LeaseWorld α :=
  match w.redis.setNxPx w.clock w.lockKey owner c.options.leaseMs with
  | .error error => w.settle n c (.error (.rejected error))
  | .ok (redis,true) => { w.put n { c with phase := .fetching owner } with
      redis
      invocations := w.invocations + 1 }
  | .ok (redis,false) => { w.put n { c with phase := .refused attempt } with redis }

/-- `SET key product EX ttlSeconds`. Whether it fails or not, the `finally` block is next. -/
def fill (w : LeaseWorld α) (json : ProductJson α) (n : Nat) (c : LeaseCall α) (owner : String)
    (product : α) : LeaseWorld α :=
  match w.redis.setEx w.clock w.key (json.stringify product) c.options.ttlSeconds with
  | .error error => w.put n { c with phase := .releasing owner (.error (.rejected error)) }
  | .ok redis => { w.put n { c with phase := .releasing owner (.ok product) } with redis }

/-- The command that a call waits for. -/
def command (w : LeaseWorld α) (json : ProductJson α) (n : Nat) (owner : String)
    (c : LeaseCall α) : Option (LeaseWorld α) :=
  match c.phase with
  | .getting attempt =>
    match w.cached json with
    | some outcome => some (w.settle n c outcome)
    | none => w.miss n c attempt owner
  | .acquiring attempt owner => some (w.acquire n c attempt owner)
  | .setting owner product => some (w.fill json n c owner product)
  | .releasing owner outcome => some { w.settle n c outcome with
      redis := releaseIfOwner w.redis w.clock w.lockKey owner }
  | .polling attempt deadline =>
    match w.cached json with
    | some outcome => some (w.settle n c outcome)
    | none =>
      let wakeAt := w.clock + c.options.pollIntervalMs
      some (w.put n { c with phase := .sleeping attempt deadline wakeAt })
  | _ => none

/-- The polling is over, and found nothing. -/
def afterPolling (w : LeaseWorld α) (n : Nat) (c : LeaseCall α) (attempt : Nat) : LeaseWorld α :=
  if c.options.maxAttempts ≤ attempt then
    let message := "Lease-based refill gave up after " ++ toString c.options.maxAttempts ++
      " attempts for product " ++ toString w.productId ++
      " - the lease holder never populated the cache"
    w.settle n c (.error (.gaveUp message))
  else w.put n { c with phase := .getting (attempt + 1) }

/-- `while (Date.now() < deadline)`. -/
def loopHead (w : LeaseWorld α) (n : Nat) (c : LeaseCall α) (attempt : Nat) (deadline : Int) :
    LeaseWorld α :=
  if w.clock < deadline then w.put n { c with phase := .polling attempt deadline }
  else w.afterPolling n c attempt

/-- A call goes on by itself: it begins to poll, or its sleep is over. -/
def resume (w : LeaseWorld α) (n : Nat) (c : LeaseCall α) : Option (LeaseWorld α) :=
  match c.phase with
  | .refused attempt => some (w.loopHead n c attempt (w.clock + (c.options.leaseMs + 250)))
  | .sleeping attempt deadline wakeAt =>
    if wakeAt ≤ w.clock then some (w.loopHead n c attempt deadline) else none
  | _ => none

/-- What the call waits for is rejected, and has had no effect. -/
def fail (w : LeaseWorld α) (n : Nat) (c : LeaseCall α) (error : String) :
    Option (LeaseWorld α) :=
  match c.phase with
  | .fetching owner => some (w.put n { c with phase := .releasing owner (.error (.rejected error)) })
  | .setting owner _ => some (w.put n { c with phase := .releasing owner (.error (.rejected error)) })
  | .refused _ => none
  | .sleeping _ _ _ => none
  | .settled _ => none
  | _ => some (w.settle n c (.error (.rejected error)))

end LeaseWorld

def leaseStep (json : ProductJson α) (w : LeaseWorld α) : LeaseEvent α → Option (LeaseWorld α)
  | .getProduct options =>
    match w.call w.started with
    | some _ => none
    | none => some { w.put w.started { options, phase := .getting 1 } with
        started := w.started + 1 }
  | .redis n owner =>
    match w.call n with
    | some c => w.command json n owner c
    | none => none
  | .database n product =>
    match w.call n with
    | some ⟨options,.fetching owner⟩ => some { w.put n ⟨options,.setting owner product⟩ with
        produced := w.produced ++ [product] }
    | _ => none
  | .resume n =>
    match w.call n with
    | some c => w.resume n c
    | none => none
  | .fail n error =>
    match w.call n with
    | some c => w.fail n c error
    | none => none
  | .advance ms => some { w with clock := w.clock + ms }

/-- Nothing is cached, nobody has the lease, and nobody has called yet. -/
structure LeaseWorld.Cold (w : LeaseWorld α) : Prop where
  entry : w.redis.lookup w.clock w.key = none
  lease : w.redis.lookup w.clock w.lockKey = none
  invocations : w.invocations = 0
  produced : w.produced = []
  started : w.started = 0
  calls : w.call = fun _ => none

/-- The lease under which a call refills the cache. -/
def LeaseWorld.refill (w : LeaseWorld α) (n : Nat) : Option String :=
  (w.call n).bind fun c => c.phase.refill

/-- No command or database call fails, no refill outlives its lease, and the entry does not
expire. -/
def LeaseEvent.Smooth (w : LeaseWorld α) : LeaseEvent α → Prop
  | .getProduct options => 0 < options.leaseMs ∧ 0 < options.ttlSeconds
  | .fail _ _ => False
  | .advance ms => (∀ n < w.started, ∀ owner ∈ w.refill n,
        w.redis.get (w.clock + ms) w.lockKey = some owner) ∧
      ∀ e ∈ w.redis.lookup w.clock w.key, e.expired (w.clock + ms) = false
  | _ => True

instance (w : LeaseWorld α) : ∀ e, Decidable (LeaseEvent.Smooth w e)
  | .getProduct options => inferInstanceAs (Decidable (0 < options.leaseMs ∧ _))
  | .redis _ _ => isTrue trivial
  | .database _ _ => isTrue trivial
  | .resume _ => isTrue trivial
  | .fail _ _ => isFalse id
  | .advance _ => inferInstanceAs (Decidable ((∀ n < w.started, ∀ owner ∈ w.refill n, _) ∧
      ∀ e ∈ w.redis.lookup w.clock w.key, _))

/-- The `SET … NX` of the call would be granted though the cache has an entry. -/
def LeaseWorld.races (w : LeaseWorld α) (c : LeaseCall α) : Bool :=
  match c.phase with
  | .acquiring _ _ => (w.redis.lookup w.clock w.lockKey).isNone &&
      (w.redis.lookup w.clock w.key).isSome
  | _ => false

/-- The polling of the call is over, and its attempts are used up. -/
def LeaseWorld.givesUp (w : LeaseWorld α) (c : LeaseCall α) : Bool :=
  match c.phase with
  | .refused attempt => decide (c.options.leaseMs + 250 ≤ 0 ∧ c.options.maxAttempts ≤ attempt)
  | .sleeping attempt deadline _ => decide (deadline ≤ w.clock ∧ c.options.maxAttempts ≤ attempt)
  | _ => false

/-- No lease is granted while the entry is there, and no call gives up. -/
def LeaseEvent.Unraced (w : LeaseWorld α) : LeaseEvent α → Prop
  | .redis n _ => ∀ c ∈ w.call n, w.races c = false
  | .resume n => ∀ c ∈ w.call n, w.givesUp c = false
  | _ => True

instance (w : LeaseWorld α) : ∀ e, Decidable (LeaseEvent.Unraced w e)
  | .redis n _ => inferInstanceAs (Decidable (∀ c ∈ w.call n, _))
  | .resume n => inferInstanceAs (Decidable (∀ c ∈ w.call n, _))
  | .getProduct _ => isTrue trivial
  | .database _ _ => isTrue trivial
  | .fail _ _ => isTrue trivial
  | .advance _ => isTrue trivial

end SystemsLab.Caching
