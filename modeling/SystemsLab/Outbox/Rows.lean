import SystemsLab.Framework.LeaseTable
import SystemsLab.Framework.Table

/-!
# The `outbox_events` table and its three statements

The publisher lab and the capstone send the same SQL, each from its own copy of `claim`,
`markPublished` and `markPublishFailed`. Only the payload differs. `attempts` counts claims,
and both finalising updates are guarded by `locked_by`.
-/

namespace SystemsLab.Outbox

variable {π : Type*}

inductive EventStatus
  | pending
  | processing
  | published
  | failed
  deriving DecidableEq, Repr

structure OutboxRow (π : Type*) where
  id : Nat
  publicId : String
  eventType : String
  payload : π
  status : EventStatus := .pending
  lockedBy : Option String := none
  lockedUntil : Option Int := none
  attempts : Nat := 0
  maxAttempts : Int := 5
  publishedAt : Option Int := none
  createdAt : Int := 0
  deriving DecidableEq, Repr

def DEFAULT_LEASE_MS : Int := 5000

/-- `status = 'pending' OR (status = 'processing' AND locked_until < now())`. -/
def OutboxRow.claimable (now : Int) (row : OutboxRow π) : Bool :=
  row.status == .pending ||
    (row.status == .processing && row.lockedUntil.any fun t => decide (t < now))

/-- `ORDER BY created_at, id`. -/
def OutboxRow.age (row : OutboxRow π) : Int ×ₗ Nat := toLex (row.createdAt,row.id)

def OutboxRow.claim (workerId : String) (lockedUntil : Int) (row : OutboxRow π) : OutboxRow π :=
  { row with
    status := .processing
    lockedBy := some workerId
    lockedUntil := some lockedUntil
    attempts := row.attempts + 1 }

/-- The claim transaction: the table after it and the row that `RETURNING` hands back. `now`
is the start of the transaction and `locked` holds of the rows other transactions lock. -/
def claimRow (rows : List (OutboxRow π)) (locked : Nat → Bool) (now : Int) (workerId : String)
    (leaseMs : Int) : List (OutboxRow π) × Option (OutboxRow π) :=
  match selectSkipLocked (·.claimable now) (fun row => locked row.id) OutboxRow.age rows with
  | none => (rows,none)
  | some candidate =>
    (updateWhere (·.id == candidate.id) (·.claim workerId (now + leaseMs)) rows,
      some (candidate.claim workerId (now + leaseMs)))

/-- `UPDATE … WHERE id = $1 AND locked_by = $2`. -/
def updateLocked (rows : List (OutboxRow π)) (id : Nat) (workerId : String)
    (f : OutboxRow π → OutboxRow π) : List (OutboxRow π) :=
  updateWhere (fun row => row.id == id && row.lockedBy == some workerId) f rows

def OutboxRow.publish (now : Int) (row : OutboxRow π) : OutboxRow π :=
  { row with
    status := .published
    publishedAt := some now
    lockedBy := none
    lockedUntil := none }

def OutboxRow.fail (row : OutboxRow π) : OutboxRow π :=
  { row with
    status := if row.maxAttempts ≤ row.attempts then .failed else .pending
    lockedBy := none
    lockedUntil := none }

def markPublished (rows : List (OutboxRow π)) (now : Int) (id : Nat) (workerId : String) :
    List (OutboxRow π) :=
  updateLocked rows id workerId (·.publish now)

def markPublishFailed (rows : List (OutboxRow π)) (id : Nat) (workerId : String) :
    List (OutboxRow π) :=
  updateLocked rows id workerId OutboxRow.fail

/-- A row is `processing` exactly while both lock columns are set, and neither is set
otherwise. -/
def OutboxRow.WellLocked (row : OutboxRow π) : Prop :=
  (row.status = .processing ↔ row.lockedBy ≠ none) ∧
    (row.status = .processing ↔ row.lockedUntil ≠ none)

def OutboxRow.slot (row : OutboxRow π) : Slot Nat String :=
  match row.status, row.lockedBy, row.lockedUntil with
  | .pending, _, _ => .free
  | .processing, some holder, some deadline => .held ⟨row.id,holder,row.attempts,deadline⟩
  | _, _, _ => .closed

/-- The table of leases that the rows stand for. -/
abbrev leaseTable (rows : List (OutboxRow π)) (clock : Int)
    (log : List (LeaseEntry Nat String)) : LeaseTable Nat String :=
  .ofRows OutboxRow.id OutboxRow.slot OutboxRow.attempts rows clock log

theorem OutboxRow.slot_held {row : OutboxRow π} {l : Lease Nat String} (h : row.slot = .held l) :
    row.status = .processing ∧ row.lockedBy = some l.holder ∧
      row.lockedUntil = some l.deadline ∧ row.attempts = l.number ∧ row.id = l.item := by
  unfold OutboxRow.slot at h
  split at h <;> cases h
  simp [*]

theorem OutboxRow.slot_of_claimable {row : OutboxRow π} {now : Int} (h : row.WellLocked)
    (hc : row.claimable now = true) :
    row.slot = .free ∨ ∃ l, row.slot = .held l ∧ l.deadline < now := by
  obtain ⟨hby,huntil⟩ := h
  cases hs : row.status with
  | pending => exact .inl (by simp [OutboxRow.slot,hs])
  | processing =>
    obtain ⟨holder,hh⟩ := Option.ne_none_iff_exists'.mp (hby.mp hs)
    obtain ⟨deadline,hd⟩ := Option.ne_none_iff_exists'.mp (huntil.mp hs)
    simp [OutboxRow.claimable,hs,hd] at hc
    exact .inr ⟨⟨row.id,holder,row.attempts,deadline⟩,by simp [OutboxRow.slot,hs,hh,hd],hc⟩
  | published => simp [OutboxRow.claimable,hs] at hc
  | failed => simp [OutboxRow.claimable,hs] at hc

theorem OutboxRow.wellLocked_claim (workerId : String) (t : Int) (row : OutboxRow π) :
    (row.claim workerId t).WellLocked := by
  simp [OutboxRow.WellLocked,OutboxRow.claim]

theorem claimRow_some {rows rows' : List (OutboxRow π)} {locked : Nat → Bool} {now : Int}
    {workerId : String} {leaseMs : Int} {row : OutboxRow π}
    (h : claimRow rows locked now workerId leaseMs = (rows',some row)) :
    ∃ old ∈ rows, old.claimable now = true ∧ row = old.claim workerId (now + leaseMs) ∧
      rows' = updateWhere (·.id == old.id) (·.claim workerId (now + leaseMs)) rows := by
  unfold claimRow at h
  split at h
  · cases h
  · rename_i old hold
    obtain ⟨hmem,hc,_⟩ := selectSkipLocked_some hold
    cases h
    exact ⟨old,hmem,hc,rfl,rfl⟩

theorem rowAt_updateLocked {rows : List (OutboxRow π)} {id target : Nat} {worker : String}
    {f : OutboxRow π → OutboxRow π} (hf : ∀ r, (f r).id = r.id)
    (h : rowAt OutboxRow.id (updateLocked rows target worker f) id ≠
      rowAt OutboxRow.id rows id) :
    ∃ row, rowAt OutboxRow.id rows id = some row ∧ id = target ∧
      row.lockedBy = some worker := by
  rw [updateLocked,rowAt_updateWhere_key hf] at h
  by_cases hid : id = target
  · subst hid
    rw [if_pos rfl] at h
    cases hr : rowAt OutboxRow.id rows id with
    | none => simp [hr] at h
    | some row =>
      refine ⟨row,rfl,rfl,?_⟩
      by_contra hby
      simp [hr,hby] at h
  · simp [hid] at h

end SystemsLab.Outbox
