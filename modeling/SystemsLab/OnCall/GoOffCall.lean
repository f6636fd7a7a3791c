import SystemsLab.Framework.Serializability
import SystemsLab.Framework.Table

/-!
# Going off call

`attemptGoOffCall` counts the others of the team who are on call, and sets its own staff member
off call if there is one, in a SERIALIZABLE transaction; `retryGoOffCall` tries again after a
serialization failure. A step is one statement. A snapshot has any number of the commits so far, a
`COMMIT` succeeds only while the committed transactions are serializable, and any statement may
fail, with 40001 or otherwise.
-/

namespace SystemsLab.OnCall

structure StaffRow where
  id : Nat
  team : String
  name : String
  isOnCall : Bool
  deriving DecidableEq, Repr

def countOnCall (staff : List StaffRow) (team : String) : Nat :=
  staff.countP fun row => row.team == team && row.isOnCall

def countOthersOnCall (staff : List StaffRow) (team : String) (excludeStaffId : Nat) : Nat :=
  staff.countP fun row => row.team == team && row.isOnCall && row.id != excludeStaffId

def setOffCall (staff : List StaffRow) (staffId : Nat) : List StaffRow :=
  updateWhere (·.id == staffId) (fun row => { row with isOnCall := false }) staff

inductive AttemptOutcome
  | committed
  | rejected
  deriving DecidableEq, Repr

structure RetryOutcome where
  staffName : String
  staffId : Nat
  finalOutcome : AttemptOutcome
  attempts : Nat
  conflictsEncountered : Nat
  deriving DecidableEq, Repr

/-- A transaction that sets its staff member off call: what its snapshot had, and what it read. -/
structure GoOffCall where
  staffId : Nat
  seen : Nat
  othersOnCall : Nat
  deriving DecidableEq, Repr

/-- The transaction on its own. -/
def GoOffCall.alone (team : String) (staff : List StaffRow) (t : GoOffCall) :
    Option (List StaffRow) :=
  if countOthersOnCall staff team t.staffId = t.othersOnCall then
    some (setOffCall staff t.staffId)
  else none

inductive RetryError
  | exhausted (message : String)
  | other
  deriving DecidableEq, Repr

/-- The statement that an attempt sends next, or how the call ended. Between attempts a call backs
off and connects. After `replyLost` the transaction is committed, but the client was not told and
throws. -/
inductive RetryPhase
  | connecting
  | counting
  | updating (t : GoOffCall)
  | committing (t : GoOffCall)
  | rollingBack
  | returned (outcome : RetryOutcome)
  | threw (error : RetryError)
  | replyLost
  deriving DecidableEq, Repr

def RetryPhase.hasEnded : RetryPhase → Bool
  | .returned _ => true
  | .threw _ => true
  | .replyLost => true
  | _ => false

/-- A statement is on its way. -/
def RetryPhase.inTransaction : RetryPhase → Bool
  | .counting => true
  | .updating _ => true
  | .committing _ => true
  | .rollingBack => true
  | _ => false

structure RetryCall where
  staffName : String
  maxAttempts : Int
  attempt : Nat := 1
  conflictsEncountered : Nat := 0
  phase : RetryPhase := .connecting
  deriving DecidableEq, Repr

/-- A committed state is the first one after some of the commits. Each staff member makes at most
one call, so a call goes by the id of its staff member. -/
structure OnCallWorld where
  team : String
  initial : List StaffRow
  commits : List GoOffCall := []
  call : Nat → Option RetryCall := fun _ => none

/-- An attempt begins with `attemptGoOffCall`, which sends the `BEGIN`. -/
inductive OnCallEvent
  | retryGoOffCall (staffId : Nat) (staffName : String) (maxAttempts : Option Int)
  | attemptGoOffCall (staffId : Nat)
  | count (staffId seen : Nat)
  | query (staffId : Nat)
  | serializationFailure (staffId : Nat)
  | loseReply (staffId : Nat)
  | fail (staffId : Nat)
  deriving DecidableEq, Repr

def stateAfter (initial : List StaffRow) (commits : List GoOffCall) : List StaffRow :=
  commits.foldl (fun staff t => setOffCall staff t.staffId) initial

namespace OnCallWorld

def snapshot (w : OnCallWorld) (seen : Nat) : List StaffRow :=
  stateAfter w.initial (w.commits.take seen)

/-- The committed state. -/
def staff (w : OnCallWorld) : List StaffRow := stateAfter w.initial w.commits

def put (w : OnCallWorld) (k : Nat) (c : RetryCall) : OnCallWorld :=
  { w with call := Function.update w.call k (some c) }

/-- `SELECT count(*)`, the first statement with a snapshot, and the check of the client. -/
def count (w : OnCallWorld) (k seen : Nat) (c : RetryCall) : OnCallWorld :=
  let othersOnCall := countOthersOnCall (w.snapshot seen) w.team k
  if othersOnCall < 1 then w.put k { c with phase := .rollingBack }
  else w.put k { c with phase := .updating { staffId := k, seen, othersOnCall } }

/-- The head of the loop: the next attempt, or the end. -/
def nextAttempt (w : OnCallWorld) (k : Nat) (c : RetryCall) : OnCallWorld :=
  if c.attempt ≤ c.maxAttempts then w.put k { c with phase := .connecting }
  else
    let message := c.staffName ++ ": exhausted " ++ toString c.maxAttempts ++
      " attempts without a terminal outcome"
    w.put k { c with phase := .threw (.exhausted message) }

/-- The outcome of the attempt is `conflict`. -/
def conflict (w : OnCallWorld) (k : Nat) (c : RetryCall) : OnCallWorld :=
  w.nextAttempt k { c with
    attempt := c.attempt + 1
    conflictsEncountered := c.conflictsEncountered + 1 }

/-- The outcome of the attempt is terminal. -/
def terminal (w : OnCallWorld) (k : Nat) (c : RetryCall) (finalOutcome : AttemptOutcome) :
    OnCallWorld :=
  let outcome : RetryOutcome :=
    { staffName := c.staffName
      staffId := k
      finalOutcome
      attempts := c.attempt
      conflictsEncountered := c.conflictsEncountered }
  w.put k { c with phase := .returned outcome }

/-- The committed transactions with `t` as the last one. -/
def Admits (w : OnCallWorld) (t : GoOffCall) : Prop :=
  Serializable (GoOffCall.alone w.team) GoOffCall.seen w.initial
    (stateAfter w.initial (w.commits ++ [t])) (w.commits ++ [t])

instance (w : OnCallWorld) (t : GoOffCall) : Decidable (w.Admits t) :=
  inferInstanceAs (Decidable (Serializable _ _ _ _ _))

def commit (w : OnCallWorld) (t : GoOffCall) : OnCallWorld :=
  { w with commits := w.commits ++ [t] }

/-- The `COMMIT` took effect, and its reply is lost. -/
def loseReply (w : OnCallWorld) (k : Nat) (c : RetryCall) : Option OnCallWorld :=
  match c.phase with
  | .committing t =>
    if w.Admits t then some ((w.commit t).put k { c with phase := .replyLost }) else none
  | _ => none

def query (w : OnCallWorld) (k : Nat) (c : RetryCall) : Option OnCallWorld :=
  match c.phase with
  | .updating t => some (w.put k { c with phase := .committing t })
  | .committing t =>
    if w.Admits t then some ((w.commit t).terminal k c .committed) else none
  | .rollingBack => some (w.terminal k c .rejected)
  | _ => none

end OnCallWorld

def onCallStep (w : OnCallWorld) : OnCallEvent → Option OnCallWorld
  | .retryGoOffCall k staffName maxAttempts =>
    match w.call k with
    | some _ => none
    | none =>
      if ∃ row ∈ w.initial, row.id = k ∧ row.team = w.team ∧ row.name = staffName then
        some (w.nextAttempt k { staffName, maxAttempts := maxAttempts.getD 5 })
      else none
  | .attemptGoOffCall k =>
    match w.call k with
    | some c => if c.phase = .connecting then some (w.put k { c with phase := .counting }) else none
    | none => none
  | .count k seen =>
    match w.call k with
    | some c =>
      if c.phase = .counting ∧ seen ≤ w.commits.length then some (w.count k seen c) else none
    | none => none
  | .query k =>
    match w.call k with
    | some c => w.query k c
    | none => none
  | .serializationFailure k =>
    match w.call k with
    | some c => if c.phase.inTransaction then some (w.conflict k c) else none
    | none => none
  | .loseReply k =>
    match w.call k with
    | some c => w.loseReply k c
    | none => none
  | .fail k =>
    match w.call k with
    | some c => if c.phase.hasEnded then none else some (w.put k { c with phase := .threw .other })
    | none => none

/-- Nobody has called yet, and the team, which is not empty, is on call. -/
structure OnCallWorld.Staffed (w : OnCallWorld) : Prop where
  team : ∃ row ∈ w.initial, row.team = w.team
  onCall : ∀ row ∈ w.initial, row.team = w.team → row.isOnCall = true
  commits : w.commits = []
  calls : w.call = fun _ => none

end SystemsLab.OnCall
