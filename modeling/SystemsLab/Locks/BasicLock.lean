import SystemsLab.Framework.Tenure
import SystemsLab.Framework.Transition
import SystemsLab.Locks.FencingToken

/-!
# Acquiring, releasing and renewing a lock

`acquireLock` is `SET … PX … NX`. `releaseLock` and `renewLock` are scripts that compare the
token before they delete the key or move its expiry; the server runs each in one piece.
-/

namespace SystemsLab.Locks

/-- The text that `GET` replies with. -/
def RedisValue.toText : RedisValue → String
  | .text value => value
  | .counter value => toString value

def Keyspace.get (db : Keyspace) (now : Int) (key : String) : Option String :=
  (db.lookup now key).map (·.value.toText)

/-- `DEL key`, after a `GET` that found the key. -/
def Keyspace.del (db : Keyspace) (key : String) : Keyspace :=
  Function.update db key none

/-- `PEXPIRE key ttlMs`, after a `GET` that found the key. A time that is not in the future
deletes it. -/
def Keyspace.pexpire (db : Keyspace) (now : Int) (key : String) (ttlMs : Int) : Keyspace :=
  if ttlMs ≤ 0 then db.del key
  else Function.update db key
    ((db.lookup now key).map fun e => { e with expiresAt := some (now + ttlMs) })

/-- `RELEASE_SCRIPT`, and whether it returns 1. -/
def releaseLock (redis : Keyspace) (now : Int) (key ownerToken : String) : Keyspace × Bool :=
  if redis.get now key = some ownerToken then (redis.del key,true) else (redis,false)

/-- `RENEW_SCRIPT`, and whether it returns 1. -/
def renewLock (redis : Keyspace) (now : Int) (key ownerToken : String) (ttlMs : Int) :
    Keyspace × Bool :=
  if redis.get now key = some ownerToken then (redis.pexpire now key ttlMs,true)
  else (redis,false)

inductive LockCall
  | acquire (ownerToken : String) (ttlMs : Int)
  | release (ownerToken : String)
  | renew (ownerToken : String) (ttlMs : Int)
  deriving DecidableEq, Repr

/-- A call whose commands have run, and what it returns. -/
structure LockReply where
  call : LockCall
  time : Int
  result : Bool
  deriving DecidableEq, Repr

/-- `replies` lists the newest call first. -/
structure LockWorld where
  redis : Keyspace
  clock : Int
  replies : List LockReply := []

inductive LockEvent
  | call (call : LockCall)
  | advance (ms : Nat)

def LockWorld.reply (w : LockWorld) (call : LockCall) (redis : Keyspace) (result : Bool) :
    LockWorld :=
  { w with redis, replies := ⟨call,w.clock,result⟩::w.replies }

/-- The calls of all clients on the lock `key`. A command that Redis refuses throws. -/
def lockStep (key : String) (w : LockWorld) : LockEvent → Option LockWorld
  | .call (.acquire ownerToken ttlMs) =>
    match acquireLock w.redis w.clock key ownerToken ttlMs with
    | .error _ => some w
    | .ok (redis,result) => some (w.reply (.acquire ownerToken ttlMs) redis result)
  | .call (.release ownerToken) =>
    let r := releaseLock w.redis w.clock key ownerToken
    some (w.reply (.release ownerToken) r.1 r.2)
  | .call (.renew ownerToken ttlMs) =>
    let r := renewLock w.redis w.clock key ownerToken ttlMs
    some (w.reply (.renew ownerToken ttlMs) r.1 r.2)
  | .advance ms => some { w with clock := w.clock + ms }

/-- Nobody holds the lock, and nobody has called yet. -/
def LockWorld.Free (key : String) (w : LockWorld) : Prop :=
  w.redis.lookup w.clock key = none ∧ w.replies = []

/-- The tokens that acquisitions have used so far. -/
def LockWorld.attempted (w : LockWorld) : List String :=
  w.replies.filterMap fun r =>
    match r.call with
    | .acquire ownerToken _ => some ownerToken
    | _ => none

/-- An acquisition brings a token of its own, and times to live are positive. -/
def LockEvent.FreshToken (w : LockWorld) : LockEvent → Prop
  | .call (.acquire ownerToken ttlMs) => ownerToken ∉ w.attempted ∧ 0 < ttlMs
  | .call (.renew _ ttlMs) => 0 < ttlMs
  | _ => True

instance : ∀ w e, Decidable (LockEvent.FreshToken w e)
  | w, .call (.acquire ownerToken ttlMs) =>
    inferInstanceAs (Decidable (ownerToken ∉ w.attempted ∧ 0 < ttlMs))
  | _, .call (.renew _ ttlMs) => inferInstanceAs (Decidable (0 < ttlMs))
  | _, .call (.release _) => isTrue trivial
  | _, .advance _ => isTrue trivial

/-- What a call has changed: a call that returns `false` changes nothing. -/
def LockReply.event (r : LockReply) : Option (TenureEvent String) :=
  match r.result, r.call with
  | false, _ => none
  | true, .acquire ownerToken ttlMs => some (.granted ownerToken r.time (r.time + ttlMs))
  | true, .renew ownerToken ttlMs => some (.extended ownerToken r.time (r.time + ttlMs))
  | true, .release ownerToken => some (.ended ownerToken r.time)

def LockWorld.history (w : LockWorld) : List (TenureEvent String) :=
  w.replies.filterMap LockReply.event

end SystemsLab.Locks
