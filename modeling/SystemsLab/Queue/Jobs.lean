import SystemsLab.Framework.LeaseTable
import SystemsLab.Framework.Table
import SystemsLab.Framework.Transition

/-!
# The job queue and its workers

`claimJob`, `completeJob` and `failJob` are one transaction each. A claim records who holds
the job and until when, but `completeJob` and `failJob` find the job by its id alone. A
worker runs the three around its own processing until a claim comes back empty.
-/

namespace SystemsLab.Queue

variable {π : Type*}

inductive JobStatus
  | pending
  | processing
  | completed
  | failed
  deriving DecidableEq, Repr

structure JobRow (π : Type*) where
  id : Nat
  publicId : String
  jobType : String
  payload : π
  status : JobStatus := .pending
  attempts : Nat := 0
  maxAttempts : Nat := 5
  lockedBy : Option String := none
  lockedUntil : Option Int := none
  lastError : Option String := none
  createdAt : Int := 0
  updatedAt : Int := 0
  deriving DecidableEq, Repr

inductive JobAttemptStatus
  | claimed
  | completed
  | failed
  | expired
  deriving DecidableEq, Repr

structure JobAttemptRow where
  id : Nat
  jobId : Nat
  workerId : String
  attemptNumber : Nat
  status : JobAttemptStatus
  claimedAt : Int
  releasedAt : Option Int := none
  error : Option String := none
  deriving DecidableEq, Repr

/-- Both tables and the identity sequence of `job_attempts`. -/
structure JobTables (π : Type*) where
  jobs : List (JobRow π)
  jobAttempts : List JobAttemptRow := []
  attemptSeq : Nat := 0

structure ClaimedJob (π : Type*) where
  job : JobRow π
  attemptId : Nat
  reclaimed : Bool
  deriving DecidableEq, Repr

structure FailResult where
  terminal : Bool
  attempts : Nat
  maxAttempts : Nat
  deriving DecidableEq, Repr

/-- `status = 'pending' OR (status = 'processing' AND locked_until < now())`. -/
def JobRow.claimable (now : Int) (job : JobRow π) : Bool :=
  job.status == .pending ||
    (job.status == .processing && job.lockedUntil.any fun t => decide (t < now))

def JobRow.claim (workerId : String) (now leaseMs : Int) (job : JobRow π) : JobRow π :=
  { job with
    status := .processing
    lockedBy := some workerId
    lockedUntil := some (now + leaseMs)
    attempts := job.attempts + 1
    updatedAt := now }

/-- The open attempt of the previous claim becomes `expired`. -/
def expireAttempts (jobId : Nat) (now : Int) (rows : List JobAttemptRow) :
    List JobAttemptRow :=
  updateWhere (fun r => r.jobId == jobId && r.status == .claimed)
    (fun r => { r with status := .expired, releasedAt := some now }) rows

/-- `now` is the start of the transaction, `locked` holds of the rows other transactions
lock, and `tie` is the order in which rows of equal `created_at` come back. -/
def claimJob (tables : JobTables π) (locked : Nat → Bool) (tie : Nat → Nat) (now : Int)
    (workerId : String) (leaseMs : Int) : JobTables π × Option (ClaimedJob π) :=
  match selectSkipLocked (·.claimable now) (fun job : JobRow π => locked job.id)
      (fun job => (toLex (job.createdAt,tie job.id) : Int ×ₗ Nat)) tables.jobs with
  | none => (tables,none)
  | some row =>
    let reclaimed := row.status == .processing
    let job := row.claim workerId now leaseMs
    let attempts :=
      if reclaimed then expireAttempts job.id now tables.jobAttempts else tables.jobAttempts
    let attempt : JobAttemptRow :=
      { id := tables.attemptSeq + 1, jobId := job.id, workerId,
        attemptNumber := job.attempts, status := .claimed, claimedAt := now }
    ({ jobs := updateWhere (·.id == row.id) (·.claim workerId now leaseMs) tables.jobs
       jobAttempts := attempts ++ [attempt]
       attemptSeq := tables.attemptSeq + 1 },
      some { job, attemptId := attempt.id, reclaimed })

def JobRow.complete (now : Int) (job : JobRow π) : JobRow π :=
  { job with status := .completed, lockedBy := none, lockedUntil := none, updatedAt := now }

def releaseAttempt (attemptId : Nat) (status : JobAttemptStatus) (error : Option String)
    (now : Int) (rows : List JobAttemptRow) : List JobAttemptRow :=
  updateWhere (·.id == attemptId)
    (fun r => { r with status, releasedAt := some now, error := error <|> r.error }) rows

def completeJob (tables : JobTables π) (now : Int) (jobId attemptId : Nat) : JobTables π :=
  { tables with
    jobs := updateWhere (·.id == jobId) (·.complete now) tables.jobs
    jobAttempts := releaseAttempt attemptId .completed none now tables.jobAttempts }

def JobRow.terminal (job : JobRow π) : Bool := decide (job.maxAttempts ≤ job.attempts)

def JobRow.fail (terminal : Bool) (errorMessage : String) (now : Int) (job : JobRow π) :
    JobRow π :=
  { job with
    status := if terminal then .failed else .pending
    lockedBy := none
    lockedUntil := none
    lastError := some errorMessage
    updatedAt := now }

def failJob (tables : JobTables π) (now : Int) (jobId attemptId : Nat) (errorMessage : String) :
    Except String (JobTables π × FailResult) :=
  match rowAt JobRow.id tables.jobs jobId with
  | none => .error ("job " ++ toString jobId ++ " does not exist")
  | some job =>
    .ok ({ tables with
      jobs := updateWhere (·.id == jobId) (·.fail job.terminal errorMessage now) tables.jobs
      jobAttempts :=
        releaseAttempt attemptId .failed (some errorMessage) now tables.jobAttempts },
      { terminal := job.terminal, attempts := job.attempts, maxAttempts := job.maxAttempts })

structure WorkerRunResult where
  workerId : String
  claimedJobIds : List Nat := []
  completedJobIds : List Nat := []
  failedAttemptJobIds : List Nat := []
  deriving DecidableEq, Repr

/-- Where `runWorkerUntilEmpty` stands between two transactions. -/
inductive WorkerPhase (π : Type*)
  | claiming
  | processing (claim : ClaimedJob π)
  | completing (claim : ClaimedJob π)
  | failing (claim : ClaimedJob π) (message : String)
  | returned
  | stopped
  deriving DecidableEq, Repr

structure Worker (π : Type*) where
  leaseMs : Int
  result : WorkerRunResult
  phase : WorkerPhase π := .claiming
  deriving DecidableEq, Repr

/-- `log` records the committed claims and finalising transactions and is not part of the
program's state. -/
structure QueueWorld (π : Type*) where
  tables : JobTables π
  clock : Int
  worker : Nat → Worker π
  log : List (LeaseEntry Nat String) := []

inductive QueueEvent
  | claim (k : Nat) (now : Int) (locked : Nat → Bool) (tie : Nat → Nat) (commit : Commit)
  | process (k : Nat) (error : Option String)
  | complete (k : Nat) (now : Int) (commit : Commit) (error : String)
  | fail (k : Nat) (now : Int) (commit : Commit)
  | crash (k : Nat)
  | advance (ms : Nat)

/-- The lease that a claim took out. -/
def ClaimedJob.lease (claim : ClaimedJob π) : Lease Nat String where
  item := claim.job.id
  holder := claim.job.lockedBy.getD ""
  number := claim.job.attempts
  deadline := claim.job.lockedUntil.getD 0

def QueueWorld.put (w : QueueWorld π) (k : Nat) (worker : Worker π) : QueueWorld π :=
  { w with worker := Function.update w.worker k worker }

def QueueWorld.move (w : QueueWorld π) (k : Nat) (phase : WorkerPhase π) : QueueWorld π :=
  w.put k { w.worker k with phase }

def WorkerRunResult.claimed (r : WorkerRunResult) (id : Nat) : WorkerRunResult :=
  { r with claimedJobIds := r.claimedJobIds ++ [id] }

def WorkerRunResult.completed (r : WorkerRunResult) (id : Nat) : WorkerRunResult :=
  { r with completedJobIds := r.completedJobIds ++ [id] }

def WorkerRunResult.failedAttempt (r : WorkerRunResult) (id : Nat) : WorkerRunResult :=
  { r with failedAttemptJobIds := r.failedAttemptJobIds ++ [id] }

def queueStep (w : QueueWorld π) : QueueEvent → Option (QueueWorld π)
  | .claim k now locked tie commit =>
    let worker := w.worker k
    match worker.phase with
    | .claiming =>
      if now ≤ w.clock then
        match claimJob w.tables locked tie now worker.result.workerId worker.leaseMs with
        | (_,none) => some (w.move k .returned)
        | (tables,some claim) =>
          let log := .granted claim.lease w.clock::w.log
          match commit with
          | .acknowledged =>
            let result := worker.result.claimed claim.job.id
            some { w.put k { worker with result, phase := .processing claim } with tables, log }
          -- `claimJob` throws out of the loop
          | .replyLost => some { w.move k .stopped with tables, log }
          | .rolledBack => some (w.move k .stopped)
      else none
    | _ => none
  | .process k error =>
    match (w.worker k).phase, error with
    | .processing claim, none => some (w.move k (.completing claim))
    | .processing claim, some message => some (w.move k (.failing claim message))
    | _, _ => none
  | .complete k now commit error =>
    let worker := w.worker k
    match worker.phase with
    | .completing claim =>
      let tables := completeJob w.tables now claim.job.id claim.attemptId
      let log := .settled claim.lease::w.log
      match commit with
      | .acknowledged =>
        let result := worker.result.completed claim.job.id
        some { w.put k { worker with result, phase := .claiming } with tables, log }
      -- an error here is caught by the same `catch` as a failed `process`
      | .replyLost => some { w.move k (.failing claim error) with tables, log }
      | .rolledBack => some (w.move k (.failing claim error))
    | _ => none
  | .fail k now commit =>
    let worker := w.worker k
    match worker.phase with
    | .failing claim message =>
      match failJob w.tables now claim.job.id claim.attemptId message with
      | .error _ => some (w.move k .stopped)
      | .ok (tables,_) =>
        let log := .settled claim.lease::w.log
        match commit with
        | .acknowledged =>
          let result := worker.result.failedAttempt claim.job.id
          some { w.put k { worker with result, phase := .claiming } with tables, log }
        | .replyLost => some { w.move k .stopped with tables, log }
        | .rolledBack => some (w.move k .stopped)
    | _ => none
  | .crash k => some (w.move k .stopped)
  | .advance ms => some { w with clock := w.clock + ms }

/-- Freshly enqueued jobs, and workers that have not claimed anything. -/
def QueueWorld.Fresh (w : QueueWorld π) : Prop :=
  (w.tables.jobs.map JobRow.id).Nodup ∧ w.tables.jobAttempts = [] ∧ w.log = [] ∧
    (∀ k, (w.worker k).phase = .claiming) ∧
    ∀ job ∈ w.tables.jobs, job.status = .pending ∧ job.lockedBy = none ∧
      job.lockedUntil = none ∧ job.attempts = 0

def QueueWorld.job (w : QueueWorld π) (id : Nat) : Option (JobRow π) :=
  rowAt JobRow.id w.tables.jobs id

end SystemsLab.Queue
