import SystemsLab.Framework.OrderedSelect
import SystemsLab.Framework.Transition

/-!
# A batched backfill of `loyalty_points`

`backfillLoyaltyPoints` updates the rows that are still `NULL`, a batch at a time, and each batch
is a transaction of its own. Between two batches the process may die, and other clients write to
other columns.
-/

namespace SystemsLab.Backfill

/-- A row of `orders`. -/
structure OrderRow where
  id : Int
  publicId : String
  customerEmail : String
  amountCents : Int
  status : String
  createdAt : Int
  loyaltyPoints : Option Int
  deriving DecidableEq, Repr

namespace OrderRow

/-- `loyalty_points IS NULL`. -/
def pending (order : OrderRow) : Bool := order.loyaltyPoints.isNone

/-- `SET loyalty_points = floor(amount_cents / 100.0)`. The division rounds down. -/
def setPoints (order : OrderRow) : OrderRow :=
  { order with loyaltyPoints := some (order.amountCents / 100) }

end OrderRow

/-- `SELECT id FROM orders WHERE loyalty_points IS NULL ORDER BY id LIMIT $1`. -/
def pendingIds (batchSize : Nat) (orders : List OrderRow) : List Int :=
  (selectOrdered OrderRow.pending OrderRow.id batchSize orders).map OrderRow.id

/-- The rows that the next batch writes: `WHERE id IN (…)`. -/
def inBatch (batchSize : Nat) (orders : List OrderRow) (order : OrderRow) : Bool :=
  decide (order.id ∈ pendingIds batchSize orders)

def updateBatch (batchSize : Nat) (orders : List OrderRow) : List OrderRow :=
  updateWhere (inBatch batchSize orders) OrderRow.setPoints orders

def rowCount (batchSize : Nat) (orders : List OrderRow) : Nat :=
  orders.countP (inBatch batchSize orders)

/-- The single statement `UPDATE orders SET … WHERE loyalty_points IS NULL`. -/
def runNaiveGiantUpdate (orders : List OrderRow) : List OrderRow :=
  updateWhere OrderRow.pending OrderRow.setPoints orders

structure BackfillOptions where
  batchSize : Nat
  sleepMs : Int
  maxBatches : Option Int := none
  deriving DecidableEq, Repr

/-- A call of `backfillLoyaltyPoints`, with its local variables. -/
structure BackfillRun where
  options : BackfillOptions
  batches : Nat := 0
  rowsBackfilled : Nat := 0
  deriving DecidableEq, Repr

inductive BackfillOutcome
  | returned
  | threw (message : String)
  | crashed
  deriving DecidableEq, Repr

/-- `writes` counts, for each row, how often a batch has written it. -/
structure BackfillWorld where
  orders : List OrderRow
  current : Option BackfillRun := none
  ended : List (BackfillRun × BackfillOutcome) := []
  writes : Nat → Nat := fun _ => 0

/-- `change` is what other clients do to the rows. -/
inductive BackfillEvent
  | start (options : BackfillOptions)
  | batch
  | crash
  | write (change : OrderRow → OrderRow)

namespace BackfillWorld

def finish (w : BackfillWorld) (run : BackfillRun) (outcome : BackfillOutcome) : BackfillWorld :=
  { w with
    current := none
    ended := w.ended ++ [(run,outcome)] }

/-- After a batch that has updated rows: the loop goes on, or stops at `maxBatches`. -/
def afterBatch (w : BackfillWorld) (run : BackfillRun) : BackfillWorld :=
  match run.options.maxBatches with
  | none => { w with current := some run }
  | some maxBatches =>
    if maxBatches ≤ run.batches then
      w.finish run (.threw ("simulated crash after " ++ toString run.batches ++
        " committed batches (maxBatches=" ++ toString maxBatches ++ ")"))
    else { w with current := some run }

/-- One round of the loop, up to the next statement. -/
def batch (w : BackfillWorld) (run : BackfillRun) : BackfillWorld :=
  let batchSize := run.options.batchSize
  let count := rowCount batchSize w.orders
  if count = 0 then w.finish run .returned
  else
    let committed := { w with
      orders := updateBatch batchSize w.orders
      writes := fun i => w.writes i +
        if (w.orders[i]?).any (inBatch batchSize w.orders) then 1 else 0 }
    committed.afterBatch { run with
      batches := run.batches + 1
      rowsBackfilled := run.rowsBackfilled + count }

/-- Other columns may change, and rows may get new ids, as long as the ids stay unique. -/
def Admits (w : BackfillWorld) (change : OrderRow → OrderRow) : Prop :=
  (∀ order ∈ w.orders, (change order).amountCents = order.amountCents ∧
    (change order).loyaltyPoints = order.loyaltyPoints) ∧
  ((w.orders.map change).map OrderRow.id).Nodup

instance (w : BackfillWorld) (change : OrderRow → OrderRow) : Decidable (w.Admits change) :=
  inferInstanceAs (Decidable (_ ∧ _))

end BackfillWorld

def backfillStep (w : BackfillWorld) : BackfillEvent → Option BackfillWorld
  | .start options =>
    match w.current with
    | some _ => none
    | none => some { w with current := some { options } }
  | .batch => w.current.map w.batch
  | .crash => w.current.map fun run => w.finish run .crashed
  | .write change =>
    if w.Admits change then some { w with orders := w.orders.map change } else none

end SystemsLab.Backfill
