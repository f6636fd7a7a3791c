import SystemsLab.Framework.Table
import SystemsLab.Framework.Transition
import SystemsLab.Locks.Redis

/-!
# Fencing tokens

`acquireLockWithFencingToken` is two Redis commands: `SET … NX PX` on the lock key, then
`INCR` on the counter key. Each is atomic, the pair is not, and the lease may lapse between
them. Every other caller's commands and the fenced `UPDATE`s may run in that gap.
-/

namespace SystemsLab.Locks

def lockKeyFor (resourceName : String) : String := "lock:resource:" ++ resourceName

def fencingCounterKeyFor (resourceName : String) : String := "fencing:resource:" ++ resourceName

theorem lockKeyFor_ne_counter (r q : String) : lockKeyFor r ≠ fencingCounterKeyFor q := by
  intro h
  have hl : "lock:resource:".toList ++ r.toList = "fencing:resource:".toList ++ q.toList :=
    String.toList_append.symm.trans ((congrArg String.toList h).trans String.toList_append)
  have hh := congrArg List.head? hl
  rw [List.head?_append_of_ne_nil _ (by decide),List.head?_append_of_ne_nil _ (by decide)] at hh
  exact absurd hh (by decide)

@[simp] theorem lockKeyFor_inj {r q : String} : lockKeyFor r = lockKeyFor q ↔ r = q :=
  String.append_right_inj _

@[simp] theorem fencingCounterKeyFor_inj {r q : String} :
    fencingCounterKeyFor r = fencingCounterKeyFor q ↔ r = q :=
  String.append_right_inj _

def acquireLock (redis : Keyspace) (now : Int) (key ownerToken : String) (ttlMs : Int) :
    Except String (Keyspace × Bool) :=
  redis.setNxPx now key ownerToken ttlMs

structure ResourceStateRow where
  name : String
  fencingToken : Int
  lastWriter : Option String
  deriving DecidableEq, Repr

/-- The conditional `UPDATE` and its row count. -/
def writeResourceStateFenced (rows : List ResourceStateRow) (name writerId : String)
    (fencingToken : Int) : List ResourceStateRow × Nat :=
  let hit := fun r : ResourceStateRow => r.name == name && decide (r.fencingToken < fencingToken)
  (updateWhere hit (fun r => { r with fencingToken, lastWriter := some writerId }) rows,
    rows.countP hit)

inductive FencingPhase
  | idle
  | acquired
  | holding (fencingToken : Int)
  | refused
  | failed
  deriving DecidableEq, Repr

/-- One `acquireLockWithFencingToken` call. `turn` is its place among all successful
`SET … NX` commands and is not part of the program's state. -/
structure Caller where
  resource : String := ""
  phase : FencingPhase := .idle
  turn : Nat := 0
  leaseUntil : Int := 0
  deriving DecidableEq, Repr

def Caller.token (c : Caller) : Option Int :=
  match c.phase with
  | .holding n => some n
  | _ => none

/-- `issued` lists the callers whose `SET … NX` succeeded and `accepted` the callers whose
fenced writes changed a row, both newest first. -/
structure FencingWorld where
  redis : Keyspace
  resourceState : List ResourceStateRow
  clock : Int
  caller : Nat → Caller := fun _ => {}
  issued : List Nat := []
  accepted : List Nat := []

inductive FencingEvent
  | setNx (id : Nat) (resource ownerToken : String) (ttlMs : Int)
  | incr (id : Nat)
  | write (id : Nat) (writerId : String)
  | advance (ms : Nat)

def FencingWorld.put (w : FencingWorld) (id : Nat) (c : Caller) : FencingWorld :=
  { w with caller := Function.update w.caller id c }

def fencingStep (w : FencingWorld) : FencingEvent → Option FencingWorld
  | .setNx id resource ownerToken ttlMs =>
    match (w.caller id).phase with
    | .idle =>
      match acquireLock w.redis w.clock (lockKeyFor resource) ownerToken ttlMs with
      | .error _ => some (w.put id { resource, phase := .failed })
      | .ok (_,false) => some (w.put id { resource, phase := .refused })
      | .ok (redis,true) =>
        let turn := w.issued.length
        let leaseUntil := w.clock + ttlMs
        some { w.put id { resource, phase := .acquired, turn, leaseUntil } with
          redis, issued := id::w.issued }
    | _ => none
  | .incr id =>
    match (w.caller id).phase with
    | .acquired =>
      match w.redis.incr w.clock (fencingCounterKeyFor (w.caller id).resource) with
      | .error _ => some (w.put id { w.caller id with phase := .failed })
      | .ok (redis,n) => some { w.put id { w.caller id with phase := .holding n } with redis }
    | _ => none
  | .write id writerId =>
    match (w.caller id).phase with
    | .holding n =>
      let r := writeResourceStateFenced w.resourceState (w.caller id).resource writerId n
      some { w with
        resourceState := r.1
        accepted := if r.2 = 0 then w.accepted else id::w.accepted }
    -- a caller that got no lock writes with `fencingToken ?? -1`
    | .refused =>
      some { w with resourceState :=
        (writeResourceStateFenced w.resourceState (w.caller id).resource writerId (-1)).1 }
    | _ => none
  | .advance ms => some { w with clock := w.clock + ms }

/-- Nobody has called yet, and no fencing counter has an expiry. -/
def FencingWorld.Fresh (w : FencingWorld) : Prop :=
  w.caller = (fun _ => {}) ∧ w.issued = [] ∧ w.accepted = [] ∧
    ∀ r e, w.redis (fencingCounterKeyFor r) = some e → e.expiresAt = none

/-- Tokens follow the order of acquisitions of one lock key, and no write of an earlier
acquirer is accepted after one of a later acquirer. -/
structure Fenced (w : FencingWorld) : Prop where
  tokens : ∀ a b m n, (w.caller a).phase = .holding m → (w.caller b).phase = .holding n →
    (w.caller a).resource = (w.caller b).resource → (w.caller a).turn < (w.caller b).turn → m < n
  writes : w.accepted.Pairwise fun newer older =>
    (w.caller newer).resource = (w.caller older).resource →
      ¬ (w.caller newer).turn < (w.caller older).turn

/-- An `INCR` runs before every later acquirer of the same lock key has run its own. -/
def InTurn (w : FencingWorld) : FencingEvent → Prop
  | .incr id => ∀ j ∈ w.issued, (w.caller j).resource = (w.caller id).resource →
      (w.caller id).turn < (w.caller j).turn → (w.caller j).token = none
  | _ => True

instance : ∀ w e, Decidable (InTurn w e)
  | w, .incr id => inferInstanceAs (Decidable (∀ j ∈ w.issued,
      (w.caller j).resource = (w.caller id).resource →
        (w.caller id).turn < (w.caller j).turn → (w.caller j).token = none))
  | _, .setNx _ _ _ _ => isTrue trivial
  | _, .write _ _ => isTrue trivial
  | _, .advance _ => isTrue trivial

end SystemsLab.Locks
