import SystemsLab.Caching.LeaseRefill
import Mathlib.Data.Finset.Insert
import Mathlib.Data.Finset.Erase

/-!
# Stale while revalidate

`getProduct` of `createStaleWhileRevalidateCache`: an entry is served as long as Redis has it, and
once it is stale a refresh is started in the background. Redis executes a command, and the
database reads a row, at some time before the reply arrives; a reply may be lost, and Redis may
get a `SET` again that it has executed. The calls are those of one cache, for any products.
-/

namespace SystemsLab.Locks

/-- `SET key value PX ttlMs`. -/
def Keyspace.setPx (db : Keyspace) (now : Int) (key value : String) (ttlMs : Int) :
    Except String Keyspace :=
  if ttlMs ≤ 0 then .error "ERR invalid expire time in 'set' command"
  else .ok (Function.update db key (some ⟨.text value,some (now + ttlMs)⟩))

end SystemsLab.Locks

namespace SystemsLab.Caching

open Locks

variable {α : Type}

/-- The options, with their defaults. -/
structure RevalidateOptions where
  freshMs : Int := 500
  staleMs : Int := 5000
  deriving DecidableEq, Repr

structure CacheEntry (α : Type) where
  product : α
  freshUntil : Int
  deriving DecidableEq, Repr

/-- What is awaited while an entry is being filled. A fill that is `settled` has yet to run what
comes behind it. -/
inductive FillPhase (α : Type)
  | querying
  | queried (product : α)
  | setting (product : α) (entry : String)
  | stored (product : α) (entry : String)
  | settled (outcome : Except String α)
  | done

/-- A call of `getProductFromDatabase` and the `writeEntry` behind it, for a call that found
nothing or in the background. -/
structure Fill (α : Type) where
  productId : Int
  call : Option Nat
  startedAt : Int
  phase : FillPhase α := .querying

inductive LookupPhase (α : Type)
  | getting
  | answered (raw : Option String) (answeredAt : Int)
  | filling
  | settled (outcome : Except String α)

structure Lookup (α : Type) where
  productId : Int
  phase : LookupPhase α := .getting

/-- What the database has read, and when. -/
structure ProductRead (α : Type) where
  productId : Int
  product : α
  time : Int
  deriving DecidableEq, Repr

/-- A value that a call has returned from the cache: Redis had it at `answeredAt`. -/
structure Served (α : Type) where
  productId : Int
  product : α
  answeredAt : Int
  servedAt : Int
  deriving DecidableEq, Repr

structure RevalidateWorld (α : Type) where
  redis : Keyspace
  clock : Int
  refreshInFlight : Finset String := ∅
  calls : Nat := 0
  call : Nat → Option (Lookup α) := fun _ => none
  fills : Nat := 0
  fill : Nat → Option (Fill α) := fun _ => none
  reads : List (ProductRead α) := []
  served : List (Served α) := []

inductive RevalidateEvent (α : Type)
  | getProduct (productId : Int)
  | redisGet (call : Nat)
  | reply (call : Nat)
  | rejectGet (call : Nat) (error : String)
  | read (fill : Nat) (product : α)
  | fetched (fill : Nat)
  | redisSet (fill : Nat)
  | acknowledged (fill : Nat)
  | rejectFill (fill : Nat) (error : String)
  | finish (fill : Nat)
  | advance (ms : Nat)
  deriving DecidableEq, Repr

namespace RevalidateWorld

def putCall (w : RevalidateWorld α) (n : Nat) (c : Lookup α) : RevalidateWorld α :=
  { w with call := Function.update w.call n (some c) }

def putFill (w : RevalidateWorld α) (f : Nat) (c : Fill α) : RevalidateWorld α :=
  { w with fill := Function.update w.fill f (some c) }

/-- `getProductFromDatabase(productId)`. -/
def startFill (w : RevalidateWorld α) (productId : Int) (call : Option Nat) :
    RevalidateWorld α :=
  { w.putFill w.fills { productId, call, startedAt := w.clock } with fills := w.fills + 1 }

def triggerBackgroundRefresh (w : RevalidateWorld α) (productId : Int) : RevalidateWorld α :=
  let key := productCacheKey productId
  if key ∈ w.refreshInFlight then w
  else { w.startFill productId none with refreshInFlight := insert key w.refreshInFlight }

def serve (w : RevalidateWorld α) (n : Nat) (productId : Int) (product : α) (answeredAt : Int) :
    RevalidateWorld α :=
  { w.putCall n ⟨productId,.settled (.ok product)⟩ with
    served := w.served ++ [⟨productId,product,answeredAt,w.clock⟩] }

/-- `JSON.parse(raw)`, if there is an entry. The empty string is falsy. -/
def parseRaw (json : ProductJson (CacheEntry α)) (raw : Option String) :
    Option (Except String (CacheEntry α)) :=
  (raw.filter fun text => text ≠ "").map json.parse

/-- After `redis.get`. -/
def afterGet (json : ProductJson (CacheEntry α)) (w : RevalidateWorld α) (n : Nat)
    (productId : Int) (raw : Option String) (answeredAt : Int) : RevalidateWorld α :=
  match parseRaw json raw with
  | none => (w.startFill productId (some n)).putCall n ⟨productId,.filling⟩
  | some (.error error) => w.putCall n ⟨productId,.settled (.error error)⟩
  | some (.ok entry) =>
    if w.clock < entry.freshUntil then w.serve n productId entry.product answeredAt
    else (w.triggerBackgroundRefresh productId).serve n productId entry.product answeredAt

/-- The command `SET key entry PX staleMs` of a fill. A command that Redis refuses changes
nothing. -/
def set (options : RevalidateOptions) (w : RevalidateWorld α) (f : Nat) (c : Fill α) (product : α)
    (entry : String) : RevalidateWorld α :=
  match w.redis.setPx w.clock (productCacheKey c.productId) entry options.staleMs with
  | .error error => w.putFill f { c with phase := .settled (.error error) }
  | .ok redis => { w.putFill f { c with phase := .stored product entry } with redis }

/-- The `finally` block of a refresh, or the `return` of the call that waits for the fill. -/
def finish (w : RevalidateWorld α) (f : Nat) (c : Fill α) (outcome : Except String α) :
    RevalidateWorld α :=
  let settled := w.putFill f { c with phase := .done }
  match c.call with
  | none => { settled with
      refreshInFlight := settled.refreshInFlight.erase (productCacheKey c.productId) }
  | some n => settled.putCall n ⟨c.productId,.settled outcome⟩

end RevalidateWorld

/-- The `SET` that a fill has sent and not got a reply for. -/
def FillPhase.command : FillPhase α → Option (α × String)
  | .setting product entry => some (product,entry)
  | .stored product entry => some (product,entry)
  | _ => none

/-- The fill waits for the database or for Redis. -/
def FillPhase.waiting : FillPhase α → Bool
  | .settled _ => false
  | .done => false
  | _ => true

def revalidateStep (options : RevalidateOptions) (json : ProductJson (CacheEntry α))
    (w : RevalidateWorld α) : RevalidateEvent α → Option (RevalidateWorld α)
  | .getProduct productId => some { w.putCall w.calls { productId } with calls := w.calls + 1 }
  | .redisGet n =>
    match w.call n with
    | some ⟨productId,.getting⟩ =>
      let raw := w.redis.get w.clock (productCacheKey productId)
      some (w.putCall n ⟨productId,.answered raw w.clock⟩)
    | _ => none
  | .reply n =>
    match w.call n with
    | some ⟨productId,.answered raw answeredAt⟩ =>
      some (w.afterGet json n productId raw answeredAt)
    | _ => none
  | .rejectGet n error =>
    match w.call n with
    | some ⟨productId,.getting⟩ => some (w.putCall n ⟨productId,.settled (.error error)⟩)
    | some ⟨productId,.answered _ _⟩ => some (w.putCall n ⟨productId,.settled (.error error)⟩)
    | _ => none
  | .read f product =>
    match w.fill f with
    | some ⟨productId,call,startedAt,.querying⟩ =>
      some { w.putFill f ⟨productId,call,startedAt,.queried product⟩ with
        reads := w.reads ++ [⟨productId,product,w.clock⟩] }
    | _ => none
  | .fetched f =>
    match w.fill f with
    | some ⟨productId,call,startedAt,.queried product⟩ =>
      let entry := json.stringify ⟨product,w.clock + options.freshMs⟩
      some (w.putFill f ⟨productId,call,startedAt,.setting product entry⟩)
    | _ => none
  | .redisSet f => do
    let c ← w.fill f
    let (product,entry) ← c.phase.command
    return w.set options f c product entry
  | .acknowledged f =>
    match w.fill f with
    | some ⟨productId,call,startedAt,.stored product _⟩ =>
      some (w.putFill f ⟨productId,call,startedAt,.settled (.ok product)⟩)
    | _ => none
  | .rejectFill f error => do
    let c ← w.fill f
    if c.phase.waiting then some (w.putFill f { c with phase := .settled (.error error) })
    else none
  | .finish f =>
    match w.fill f with
    | some ⟨productId,call,startedAt,.settled outcome⟩ =>
      some (w.finish f ⟨productId,call,startedAt,.settled outcome⟩ outcome)
    | _ => none
  | .advance ms => some { w with clock := w.clock + ms }

/-- Nothing is cached, and nobody has called yet. -/
structure RevalidateWorld.Cold (w : RevalidateWorld α) : Prop where
  entries : ∀ productId, w.redis.lookup w.clock (productCacheKey productId) = none
  refreshInFlight : w.refreshInFlight = ∅
  calls : w.call = fun _ => none
  fills : w.fill = fun _ => none
  served : w.served = []

end SystemsLab.Caching
