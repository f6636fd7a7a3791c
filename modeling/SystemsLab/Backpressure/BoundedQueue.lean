import SystemsLab.Framework.LockTable
import SystemsLab.Framework.Table
import SystemsLab.Framework.Transition

/-!
# The bounded queue

One row of `queue_state` counts the jobs that are not completed. `enqueue`, `claimOneJob` and
`completeJob` are transactions of a few statements. A step is one statement at READ COMMITTED:
a statement that has to wait for a row lock is not enabled until the lock is free.
-/

namespace SystemsLab.Backpressure

inductive JobStatus
  | pending
  | processing
  | completed
  deriving DecidableEq, Repr

structure JobRow where
  id : Nat
  publicId : String
  status : JobStatus := .pending
  workerId : Option String := none
  submittedAt : Int
  deriving DecidableEq, Repr

/-- The job takes up a slot. -/
def JobRow.active (job : JobRow) : Bool :=
  job.status == .pending || job.status == .processing

structure QueueState where
  capacity : Nat
  pendingCount : Nat
  deriving DecidableEq, Repr

structure EnqueueResult where
  accepted : Bool
  publicId : Option String := none
  pendingCount : Nat
  capacity : Nat
  deriving DecidableEq, Repr

/-- What is committed. -/
structure QueueTables where
  state : QueueState
  jobs : List JobRow := []
  jobSeq : Nat := 1
  deriving DecidableEq, Repr

def resetQueueState (t : QueueTables) (capacity : Nat) : QueueTables :=
  { t with state := ⟨capacity,0⟩, jobs := [] }

/-- The statement an `enqueue` sends next. The state is the row it has read or written. -/
inductive EnqueuePhase
  | updatingState
  | insertingJob (state : QueueState)
  | committing (job : JobRow) (state : QueueState)
  | selectingState
  | rollingBack (state : QueueState)
  | returned (result : EnqueueResult)
  | thrown
  deriving DecidableEq, Repr

/-- The statement a worker sends next; `working` is its `sleep`. -/
inductive WorkerPhase
  | selectingJob
  | committingEmpty
  | markingJob (jobId : Nat)
  | committingClaim (jobId : Nat)
  | working (jobId : Nat)
  | completingJob (jobId : Nat)
  | freeingSlot (jobId : Nat)
  | committingCompletion (jobId : Nat) (pendingCount : Nat)
  | returned
  | thrown
  | crashed
  deriving DecidableEq, Repr

structure Worker where
  workerId : String
  processedCount : Nat := 0
  phase : WorkerPhase := .selectingJob
  deriving DecidableEq, Repr

inductive Process
  | enqueue (phase : EnqueuePhase)
  | worker (worker : Worker)
  deriving DecidableEq, Repr

namespace Process

/-- The transaction has updated `queue_state`. -/
def heldState : Process → Option Unit
  | .enqueue (.insertingJob _) => some ()
  | .enqueue (.committing _ _) => some ()
  | .worker { phase := .committingCompletion _ _, .. } => some ()
  | _ => none

/-- The job row that the transaction has locked. -/
def heldJob : Process → Option Nat
  | .worker { phase := .markingJob jobId, .. } => some jobId
  | .worker { phase := .committingClaim jobId, .. } => some jobId
  | .worker { phase := .freeingSlot jobId, .. } => some jobId
  | .worker { phase := .committingCompletion jobId _, .. } => some jobId
  | _ => none

/-- What the process becomes when its transaction is aborted; `none` if it is in none. -/
def aborted : Process → Option Process
  | .enqueue (.returned _) => none
  | .enqueue .thrown => none
  | .enqueue _ => some (.enqueue .thrown)
  | .worker { phase := .working _, .. } => none
  | .worker { phase := .returned, .. } => none
  | .worker { phase := .thrown, .. } => none
  | .worker { phase := .crashed, .. } => none
  | .worker w => some (.worker { w with phase := .thrown })

end Process

structure JobRecord where
  process : Nat
  publicId : String
  deriving DecidableEq, Repr

structure ClaimRecord where
  process : Nat
  jobId : Nat
  deriving DecidableEq, Repr

/-- Who has committed what. -/
structure Ledger where
  added : List JobRecord := []
  claims : List ClaimRecord := []
  completions : List ClaimRecord := []
  deriving DecidableEq, Repr

structure BoundedWorld where
  tables : QueueTables
  stateLock : LockTable Unit Nat := fun _ => none
  jobLock : LockTable Nat Nat := fun _ => none
  process : Nat → Option Process := fun _ => none
  ledger : Ledger := {}

/-- What the server and the caller decide about a statement: `now()`, `gen_random_uuid()`, the
order of jobs with equal `submitted_at`, and `shouldStop()`. -/
structure Choice where
  now : Int := 0
  uuid : String := ""
  tie : Nat → Nat := id
  shouldStop : Bool := false

inductive BoundedEvent
  | enqueue (n : Nat)
  | work (n : Nat) (workerId : String)
  | query (n : Nat) (choice : Choice)
  | abort (n : Nat)
  | crash (n : Nat)

def BoundedWorld.put (w : BoundedWorld) (n : Nat) (p : Process) : BoundedWorld :=
  { w with process := Function.update w.process n (some p) }

/-- The transaction of `old` ends: its locks go, and the process is `p` from now on. -/
def BoundedWorld.finish (w : BoundedWorld) (n : Nat) (old p : Process) : BoundedWorld :=
  { w.put n p with
    stateLock := w.stateLock.release old.heldState
    jobLock := w.jobLock.release old.heldJob }

def JobRow.mark (workerId : String) (job : JobRow) : JobRow :=
  { job with status := .processing, workerId := some workerId }

def JobRow.complete (job : JobRow) : JobRow :=
  { job with status := .completed }

/-- The next statement of `enqueue`. -/
def enqueueQuery (w : BoundedWorld) (n : Nat) (phase : EnqueuePhase) (choice : Choice) :
    Option BoundedWorld :=
  let state := w.tables.state
  let p := Process.enqueue phase
  match phase with
  | .updatingState =>
    if state.pendingCount < state.capacity then
      match w.stateLock () with
      | some _ => none
      | none =>
        let updated := { state with pendingCount := state.pendingCount + 1 }
        some { w.put n (.enqueue (.insertingJob updated)) with
          stateLock := w.stateLock.acquire () n }
    else some (w.put n (.enqueue .selectingState))
  | .insertingJob updated =>
    if choice.uuid ∈ w.tables.jobs.map JobRow.publicId then
      some (w.finish n p (.enqueue .thrown))
    else
      let job : JobRow :=
        { id := w.tables.jobSeq, publicId := choice.uuid, submittedAt := choice.now }
      some { w.put n (.enqueue (.committing job updated)) with
        tables := { w.tables with jobSeq := w.tables.jobSeq + 1 } }
  | .committing job updated =>
    let result : EnqueueResult :=
      { accepted := true
        publicId := some job.publicId
        pendingCount := updated.pendingCount
        capacity := updated.capacity }
    let committed := { w with
      tables := { w.tables with state := updated, jobs := w.tables.jobs ++ [job] }
      ledger := { w.ledger with added := w.ledger.added ++ [JobRecord.mk n job.publicId] } }
    some (committed.finish n p (.enqueue (.returned result)))
  | .selectingState => some (w.put n (.enqueue (.rollingBack state)))
  | .rollingBack read =>
    let result : EnqueueResult :=
      { accepted := false, pendingCount := read.pendingCount, capacity := read.capacity }
    some (w.finish n p (.enqueue (.returned result)))
  | .returned _ => none
  | .thrown => none

/-- The next statement of `runBoundedQueueWorker`, in `claimOneJob` or `completeJob`. -/
def workerQuery (w : BoundedWorld) (n : Nat) (worker : Worker) (choice : Choice) :
    Option BoundedWorld :=
  let p := Process.worker worker
  let next (phase : WorkerPhase) : Process := .worker { worker with phase }
  match worker.phase with
  | .selectingJob =>
    match selectSkipLocked (·.status == .pending) (fun job => (w.jobLock job.id).isSome)
        (fun job => (toLex (job.submittedAt,choice.tie job.id) : Int ×ₗ Nat)) w.tables.jobs with
    | none => some (w.put n (next .committingEmpty))
    | some job =>
      some { w.put n (next (.markingJob job.id)) with jobLock := w.jobLock.acquire job.id n }
  | .committingEmpty =>
    some (w.put n (next (if choice.shouldStop then .returned else .selectingJob)))
  | .markingJob jobId => some (w.put n (next (.committingClaim jobId)))
  | .committingClaim jobId =>
    let committed := { w with
      tables := { w.tables with
        jobs := updateWhere (·.id == jobId) (JobRow.mark worker.workerId) w.tables.jobs }
      ledger := { w.ledger with claims := w.ledger.claims ++ [ClaimRecord.mk n jobId] } }
    some (committed.finish n p (next (.working jobId)))
  | .working jobId => some (w.put n (next (.completingJob jobId)))
  | .completingJob jobId =>
    match w.jobLock jobId with
    | some _ => none
    | none =>
      some { w.put n (next (.freeingSlot jobId)) with jobLock := w.jobLock.acquire jobId n }
  | .freeingSlot jobId =>
    match w.stateLock () with
    | some _ => none
    | none =>
      -- `GREATEST(pending_count - 1, 0)`
      let pendingCount := w.tables.state.pendingCount - 1
      some { w.put n (next (.committingCompletion jobId pendingCount)) with
        stateLock := w.stateLock.acquire () n }
  | .committingCompletion jobId pendingCount =>
    let committed := { w with
      tables := { w.tables with
        state := { w.tables.state with pendingCount }
        jobs := updateWhere (·.id == jobId) JobRow.complete w.tables.jobs }
      ledger := { w.ledger with completions := w.ledger.completions ++ [ClaimRecord.mk n jobId] } }
    let processedCount := worker.processedCount + 1
    some (committed.finish n p (.worker { worker with processedCount, phase := .selectingJob }))
  | .returned => none
  | .thrown => none
  | .crashed => none

def boundedStep (w : BoundedWorld) : BoundedEvent → Option BoundedWorld
  | .enqueue n =>
    match w.process n with
    | none => some (w.put n (.enqueue .updatingState))
    | some _ => none
  | .work n workerId =>
    match w.process n with
    | none => some (w.put n (.worker { workerId }))
    | some _ => none
  | .query n choice =>
    match w.process n with
    | some (.enqueue phase) => enqueueQuery w n phase choice
    | some (.worker worker) => workerQuery w n worker choice
    | none => none
  | .abort n =>
    match w.process n with
    | some p =>
      match p.aborted with
      | some q => some (w.finish n p q)
      | none => none
    | none => none
  | .crash n =>
    match w.process n with
    | some (.worker worker) =>
      some (w.finish n (.worker worker) (.worker { worker with phase := .crashed }))
    | _ => none

/-- After `resetQueueState`, before anything else has started. -/
def BoundedWorld.Reset (capacity : Nat) (w : BoundedWorld) : Prop :=
  (∃ t, w.tables = resetQueueState t capacity) ∧ w.stateLock = (fun _ => none) ∧
    w.jobLock = (fun _ => none) ∧ w.process = (fun _ => none) ∧ w.ledger = {}

end SystemsLab.Backpressure
