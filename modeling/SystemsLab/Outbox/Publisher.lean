import SystemsLab.Framework.Transition
import SystemsLab.Outbox.Rows

/-!
# Outbox publishers

`claimAndPublish` claims one event, hands it to the broker, and records the outcome, in
three separate steps. Between them any other publisher may run, the lease may lapse, and
the publisher may crash. Publishers are told apart by their worker ids.
-/

namespace SystemsLab.Outbox

variable {π : Type*}

structure BrokerEvent (π : Type*) where
  publicId : String
  eventType : String
  payload : π
  deriving DecidableEq, Repr

structure ClaimedEvent (π : Type*) where
  id : Nat
  publicId : String
  eventType : String
  payload : π
  attempts : Nat
  maxAttempts : Int
  lockedUntil : Int
  deriving DecidableEq, Repr

def OutboxRow.brokerEvent (row : OutboxRow π) : BrokerEvent π :=
  ⟨row.publicId,row.eventType,row.payload⟩

def ClaimedEvent.brokerEvent (event : ClaimedEvent π) : BrokerEvent π :=
  ⟨event.publicId,event.eventType,event.payload⟩

def ClaimedEvent.lease (event : ClaimedEvent π) (workerId : String) : Lease Nat String :=
  ⟨event.id,workerId,event.attempts,event.lockedUntil⟩

/-- The claim, as `claimAndPublish` receives it. -/
def claimNextEvent (rows : List (OutboxRow π)) (locked : Nat → Bool) (now : Int)
    (workerId : String) (leaseMs : Int) : List (OutboxRow π) × Option (ClaimedEvent π) :=
  let r := claimRow rows locked now workerId leaseMs
  (r.1,r.2.map fun row => { row with lockedUntil := now + leaseMs })

/-- Where one publisher stands between two steps of `claimAndPublish`. -/
inductive PublisherPhase (π : Type*)
  | idle
  | publishing (event : ClaimedEvent π)
  | markingPublished (event : ClaimedEvent π)
  | markingFailed (event : ClaimedEvent π) (error : String)
  deriving DecidableEq, Repr

def PublisherPhase.event : PublisherPhase π → Option (ClaimedEvent π)
  | .idle => none
  | .publishing event => some event
  | .markingPublished event => some event
  | .markingFailed event _ => some event

/-- `deliveries` is the broker's own list. `log` records the committed claims and
finalising updates and is not part of the program's state. -/
structure PublisherWorld (π : Type*) where
  rows : List (OutboxRow π)
  clock : Int
  phase : String → PublisherPhase π := fun _ => .idle
  deliveries : List (BrokerEvent π) := []
  log : List (LeaseEntry Nat String) := []

/-- `now` is the start time of the transaction, `locked` the rows other transactions hold
locked, and `commit` what the publisher learns about its transaction. -/
inductive PublisherEvent
  | claim (workerId : String) (leaseMs : Option Int) (now : Int) (locked : Nat → Bool)
      (commit : Commit)
  | brokerSucceeds (workerId : String)
  | brokerFails (workerId error : String)
  | markPublished (workerId : String) (now : Int) (commit : Commit) (error : String)
  | markPublishFailed (workerId : String) (commit : Commit)
  | abandon (workerId : String)
  | advance (ms : Nat)

def PublisherWorld.put (w : PublisherWorld π) (workerId : String) (phase : PublisherPhase π) :
    PublisherWorld π :=
  { w with phase := Function.update w.phase workerId phase }

def publisherStep (w : PublisherWorld π) : PublisherEvent → Option (PublisherWorld π)
  | .claim workerId leaseMs now locked commit =>
    match w.phase workerId with
    | .idle =>
      if now ≤ w.clock then
        match claimNextEvent w.rows locked now workerId (leaseMs.getD DEFAULT_LEASE_MS) with
        | (_,none) => some w
        | (rows,some event) =>
          let log := .granted (event.lease workerId) w.clock::w.log
          match commit with
          | .acknowledged => some { w.put workerId (.publishing event) with rows, log }
          -- `claimNextEvent` throws, and the row stays claimed until its lease lapses
          | .replyLost => some { w with rows, log }
          | .rolledBack => some w
      else none
    | _ => none
  | .brokerSucceeds workerId =>
    match w.phase workerId with
    | .publishing event => some { w.put workerId (.markingPublished event) with
        deliveries := event.brokerEvent::w.deliveries }
    | _ => none
  | .brokerFails workerId error =>
    match w.phase workerId with
    | .publishing event => some (w.put workerId (.markingFailed event error))
    | _ => none
  | .markPublished workerId now commit error =>
    match w.phase workerId with
    | .markingPublished event =>
      -- an error here is caught by the same `catch` as a broker failure
      let next := if commit = .acknowledged then .idle else .markingFailed event error
      if commit.applied then
        let rows := markPublished w.rows now event.id workerId
        let log := .settled (event.lease workerId)::w.log
        some { w.put workerId next with rows, log }
      else some (w.put workerId next)
    | _ => none
  | .markPublishFailed workerId commit =>
    match w.phase workerId with
    | .markingFailed event _ =>
      if commit.applied then
        let rows := markPublishFailed w.rows event.id workerId
        let log := .settled (event.lease workerId)::w.log
        some { w.put workerId .idle with rows, log }
      else some (w.put workerId .idle)
    | _ => none
  | .abandon workerId => some (w.put workerId .idle)
  | .advance ms => some { w with clock := w.clock + ms }

/-- The publisher whose finalising update an event is. -/
def PublisherEvent.finaliser : PublisherEvent → Option String
  | .markPublished workerId _ _ _ => some workerId
  | .markPublishFailed workerId _ => some workerId
  | _ => none

def PublisherWorld.row (w : PublisherWorld π) (id : Nat) : Option (OutboxRow π) :=
  rowAt OutboxRow.id w.rows id

/-- All events are seeded and untried, and no publisher has started. -/
def PublisherWorld.Fresh (w : PublisherWorld π) : Prop :=
  (w.rows.map OutboxRow.id).Nodup ∧ w.phase = (fun _ => .idle) ∧ w.deliveries = [] ∧
    w.log = [] ∧ ∀ row ∈ w.rows, row.status = .pending ∧ row.lockedBy = none ∧
      row.lockedUntil = none ∧ row.attempts = 0

/-- What holds of the table in every state. -/
structure PublisherWorld.Safe (w : PublisherWorld π) : Prop where
  exclusive : Exclusive w.log
  locks : ∀ row ∈ w.rows,
    row.status = .processing ↔ row.lockedBy ≠ none ∧ row.lockedUntil ≠ none
  delivered : ∀ row ∈ w.rows, row.status = .published → row.brokerEvent ∈ w.deliveries
  attempts : ∀ row ∈ w.rows, row.attempts = (leasesOf row.id w.log).length

/-- What holds of every step: only the newest claimant finalises an event, and published
and failed events do not change. -/
structure SafeStep (w : PublisherWorld π) (e : PublisherEvent) (w' : PublisherWorld π) :
    Prop where
  finaliser : ∀ worker, e.finaliser = some worker → ∀ id, w'.row id ≠ w.row id →
    ∃ l, (leasesOf id w.log).head? = some l ∧ l.holder = worker
  terminal : ∀ id row, w.row id = some row → row.status = .published ∨ row.status = .failed →
    w'.row id = some row

end SystemsLab.Outbox
