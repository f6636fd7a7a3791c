import SystemsLab.Framework.OrderedSelect
import SystemsLab.Framework.RowVersions
import SystemsLab.Framework.Transition

/-!
# Dual writes beside a backfill of `display_name`

Inserts and renames write `full_name` and `display_name` together, and any number of backfills
copy the one into the other, a batch at a time. Statements run under READ COMMITTED: a batch
chooses its rows from a snapshot, then locks them one by one, and goes on with the newest
committed version of each. Its own writes become visible when it commits.
-/

namespace SystemsLab.Backfill

/-- A row of `customers`, apart from its id. -/
structure Customer where
  fullName : String
  displayName : Option String
  email : String
  country : String
  deriving DecidableEq, Repr

/-- `SET display_name = full_name`. -/
def Customer.copyName (customer : Customer) : Customer :=
  { customer with displayName := some customer.fullName }

/-- `SET full_name = $1, display_name = $1`. -/
def Customer.rename (fullName : String) (customer : Customer) : Customer :=
  { customer with
    fullName
    displayName := some fullName }

inductive RenamePhase
  | updating
  | committing
  | returned
  | threw
  deriving DecidableEq, Repr

/-- A batch that is `updating` has yet to lock the rows `remaining`. -/
inductive BatchPhase
  | selecting
  | updating (remaining : List Int) (updated : Nat)
  | returned
  | threw
  deriving DecidableEq, Repr

/-- A call of `dualWriteRenameCustomer` or of `backfillDisplayName`, with its local variables. -/
inductive CustomerCall
  | rename (id : Int) (fullName : String) (phase : RenamePhase)
  | backfill (batchSize batches rowsBackfilled : Nat) (phase : BatchPhase)
  deriving DecidableEq, Repr

structure CustomerWorld where
  ids : List Int
  rows : RowVersions Int Nat Customer
  call : Nat → Option CustomerCall := fun _ => none

inductive CustomerEvent
  | insert (id : Int) (fullName email country : String)
  | startRename (call : Nat) (id : Int) (fullName : String)
  | startBackfill (call batchSize : Nat)
  | select (call : Nat)
  | update (call : Nat) (id : Int)
  | commit (call : Nat)
  | abort (call : Nat)
  deriving DecidableEq, Repr

namespace CustomerWorld

/-- `display_name IS NULL`, in the version that is committed. -/
def isPending (w : CustomerWorld) (id : Int) : Bool := (w.rows id).committed.displayName.isNone

/-- `SELECT id FROM customers WHERE display_name IS NULL ORDER BY id LIMIT $1`. -/
def pendingIds (w : CustomerWorld) (batchSize : Nat) : List Int :=
  selectOrdered w.isPending (fun id => id) batchSize w.ids

def put (w : CustomerWorld) (n : Nat) (c : CustomerCall) : CustomerWorld :=
  { w with call := Function.update w.call n (some c) }

/-- `dualWriteInsertCustomer`. -/
def insertCustomer (w : CustomerWorld) (id : Int) (fullName email country : String) :
    CustomerWorld :=
  { w with
    ids := w.ids ++ [id]
    rows := w.rows.overwrite id ⟨fullName,some fullName,email,country⟩ }

/-- The statement of a call writes a row, if nobody else has its lock. -/
def write (w : CustomerWorld) (n : Nat) (id : Int) (f : Customer → Customer) (c : CustomerCall) :
    Option CustomerWorld :=
  ((w.rows id).version n).map fun customer =>
    { w.put n c with rows := w.rows.put n id (f customer) }

def update (w : CustomerWorld) (n : Nat) (id : Int) : CustomerCall → Option CustomerWorld
  | .rename target fullName .updating =>
    if id = target then
      if id ∈ w.ids then w.write n id (.rename fullName) (.rename target fullName .committing)
      else some (w.put n (.rename target fullName .returned))
    else none
  | .backfill batchSize batches rowsBackfilled (.updating remaining updated) =>
    if id ∈ remaining then
      w.write n id .copyName (.backfill batchSize batches rowsBackfilled
        (.updating (remaining.filter (· ≠ id)) (updated + 1)))
    else none
  | _ => none

/-- A statement ends. The loop of a backfill ends with the first batch that updates no row. -/
def commit (w : CustomerWorld) (n : Nat) : CustomerCall → Option CustomerWorld
  | .rename id fullName .committing =>
    some { w.put n (.rename id fullName .returned) with rows := w.rows.commit n }
  | .backfill batchSize batches rowsBackfilled (.updating [] updated) =>
    let c : CustomerCall :=
      if updated = 0 then .backfill batchSize batches rowsBackfilled .returned
      else .backfill batchSize (batches + 1) (rowsBackfilled + updated) .selecting
    some { w.put n c with rows := w.rows.commit n }
  | _ => none

/-- The call ends with an error, or its process dies. A statement that is open is undone. -/
def abort (w : CustomerWorld) (n : Nat) : CustomerCall → Option CustomerWorld
  | .rename _ _ .returned => none
  | .rename _ _ .threw => none
  | .rename id fullName _ =>
    some { w.put n (.rename id fullName .threw) with rows := w.rows.rollback n }
  | .backfill _ _ _ .returned => none
  | .backfill _ _ _ .threw => none
  | .backfill batchSize batches rowsBackfilled _ =>
    some { w.put n (.backfill batchSize batches rowsBackfilled .threw) with
      rows := w.rows.rollback n }

end CustomerWorld

def customerStep (w : CustomerWorld) : CustomerEvent → Option CustomerWorld
  | .insert id fullName email country =>
    if id ∈ w.ids ∨ email ∈ w.ids.map (fun id => (w.rows id).committed.email) then none
    else some (w.insertCustomer id fullName email country)
  | .startRename n id fullName =>
    match w.call n with
    | some _ => none
    | none => some (w.put n (.rename id fullName .updating))
  | .startBackfill n batchSize =>
    match w.call n with
    | some _ => none
    | none => some (w.put n (.backfill batchSize 0 0 .selecting))
  | .select n =>
    match w.call n with
    | some (.backfill batchSize batches rowsBackfilled .selecting) =>
      some (w.put n (.backfill batchSize batches rowsBackfilled
        (.updating (w.pendingIds batchSize) 0)))
    | _ => none
  | .update n id => (w.call n).bind (w.update n id)
  | .commit n => (w.call n).bind (w.commit n)
  | .abort n => (w.call n).bind (w.abort n)

end SystemsLab.Backfill
