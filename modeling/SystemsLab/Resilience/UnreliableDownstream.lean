import Mathlib.Algebra.BigOperators.Group.Finset.Basic
import SystemsLab.Framework.Table
import SystemsLab.Framework.Transition

/-!
# `UnreliableDownstream.charge`

Up to its first `await` a call runs without interruption: it looks the key up, charges the ledger
and registers the key. The response comes at any later time, and the caller may no longer wait for
it then. Amounts are taken to be added exactly.
-/

namespace SystemsLab.Resilience

variable {ν : Type*}

structure CallLogEntry where
  atMs : Nat
  label : String
  idempotencyKey : Option String
  deriving DecidableEq, Repr

structure ChargeResult (ν : Type*) where
  chargeId : String
  amountCents : ν
  idempotencyKey : Option String
  deriving DecidableEq, Repr

/-- `appliedCharges` is a `Map`, in the order in which its keys were set. -/
structure UnreliableDownstream (ν : Type*) [AddCommMonoid ν] where
  callLog : List CallLogEntry := []
  ledgerTotalCents : ν := 0
  chargeCounter : Nat := 0
  appliedCharges : List (String × ChargeResult ν) := []

/-- What `if (idempotencyKey)` asks. -/
def isTruthy (idempotencyKey : Option String) : Bool := idempotencyKey.any fun key => key ≠ ""

namespace UnreliableDownstream

variable [AddCommMonoid ν]

def ledgerTotal (d : UnreliableDownstream ν) : ν := d.ledgerTotalCents

def chargesApplied (d : UnreliableDownstream ν) : Nat := d.chargeCounter

def uniqueChargeCount (d : UnreliableDownstream ν) : Nat := d.appliedCharges.length

/-- `this.appliedCharges.get(key)`. -/
def appliedCharge (d : UnreliableDownstream ν) (key : String) : Option (ChargeResult ν) :=
  (rowAt Prod.fst d.appliedCharges key).map Prod.snd

/-- The original result, if the key has been seen before. -/
def existing (d : UnreliableDownstream ν) : Option String → Option (ChargeResult ν)
  | some key => if isTruthy (some key) then d.appliedCharge key else none
  | none => none

/-- `this.appliedCharges.set(key, result)`, if there is a key. -/
def register (d : UnreliableDownstream ν) (idempotencyKey : Option String)
    (result : ChargeResult ν) : List (String × ChargeResult ν) :=
  match idempotencyKey with
  | some key =>
    if isTruthy (some key) then
      if key ∈ d.appliedCharges.map Prod.fst then
        updateWhere (fun entry => entry.1 = key) (fun _ => (key,result)) d.appliedCharges
      else d.appliedCharges ++ [(key,result)]
    else d.appliedCharges
  | none => d.appliedCharges

/-- What a call does before it waits, and what it returns in the end. -/
def charge (d : UnreliableDownstream ν) (atMs : Nat) (amountCents : ν)
    (idempotencyKey : Option String) : ChargeResult ν × UnreliableDownstream ν :=
  let callLog := d.callLog ++ [⟨atMs,"charge",idempotencyKey⟩]
  match d.existing idempotencyKey with
  | some existing => (existing,{ d with callLog })
  | none =>
    let chargeCounter := d.chargeCounter + 1
    let result := ⟨"ch_" ++ toString chargeCounter,amountCents,idempotencyKey⟩
    (result,{
      callLog
      chargeCounter
      ledgerTotalCents := d.ledgerTotalCents + amountCents
      appliedCharges := d.register idempotencyKey result })

end UnreliableDownstream

/-- A call that has been made, the result that its response will carry, and whether it has
`charged` the ledger. -/
structure ChargeCall (ν : Type*) where
  amountCents : ν
  idempotencyKey : Option String
  result : ChargeResult ν
  charged : Bool
  deriving DecidableEq, Repr

/-- The calls by the order they were made in, what each has resolved to by now, and whether its
caller has given up. -/
structure ChargeWorld (ν : Type*) [AddCommMonoid ν] where
  downstream : UnreliableDownstream ν := {}
  calls : List (ChargeCall ν) := []
  resolution : Nat → Option (ChargeResult ν) := fun _ => none
  abandoned : Nat → Bool := fun _ => false

inductive ChargeEvent (ν : Type*)
  | charge (atMs : Nat) (amountCents : ν) (idempotencyKey : Option String)
  | respond (call : Nat)
  | abandon (call : Nat)
  deriving DecidableEq, Repr

def ChargeEvent.providesEmptyKey : ChargeEvent ν → Bool
  | charge _ _ idempotencyKey => idempotencyKey = some ""
  | _ => false

def ChargeWorld.step [AddCommMonoid ν] (w : ChargeWorld ν) : ChargeEvent ν → Option (ChargeWorld ν)
  | .charge atMs amountCents idempotencyKey =>
    let r := w.downstream.charge atMs amountCents idempotencyKey
    let charged := w.downstream.chargeCounter < r.2.chargeCounter
    some { w with
      downstream := r.2
      calls := w.calls ++ [⟨amountCents,idempotencyKey,r.1,charged⟩] }
  | .respond call =>
    w.calls[call]?.map fun c =>
      { w with resolution := Function.update w.resolution call (some c.result) }
  | .abandon call => some { w with abandoned := Function.update w.abandoned call true }

end SystemsLab.Resilience
