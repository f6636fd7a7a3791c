import SystemsLab.Framework.OrderedSelect
import SystemsLab.Framework.Transition
import Mathlib.Data.String.Basic

/-!
# The partitions of `metric_events_partitioned`

The catalog keeps every relation by its name, attached to a parent or not. Scenarios send DDL
statements, each of them atomic, and are interrupted wherever it happens;
`reconcileCanonicalPartitionLayout` is to restore the twelve months of `PARTITIONED_YEAR`.
-/

namespace SystemsLab.Partitioning

/-- `FOR VALUES FROM … TO …`, counted in months, or `DEFAULT`. -/
inductive PartitionBound
  | range (lower upper : Nat)
  | default
  deriving DecidableEq, Repr

namespace PartitionBound

def isEmpty : PartitionBound → Bool
  | range lower upper => upper ≤ lower
  | default => false

/-- Two partitions of one table may not overlap, and only one may be the `DEFAULT`. -/
def overlaps : PartitionBound → PartitionBound → Bool
  | range lower upper, range lower' upper' => lower < upper' && lower' < upper
  | default, default => true
  | _, _ => false

end PartitionBound

/-- A row of `pg_class`, with its parent from `pg_inherits` and its `relpartbound`. -/
structure Relation where
  name : String
  partitionOf : Option (String × PartitionBound)
  deriving DecidableEq, Repr

/-- The bound of the relation, if it is attached to `parentTable`. -/
def Relation.boundIn (r : Relation) (parentTable : String) : Option PartitionBound :=
  match r.partitionOf with
  | some (parent, bound) => if parent = parentTable then some bound else none
  | none => none

def Relation.detached (r : Relation) : Relation := { r with partitionOf := none }

@[simp] theorem Relation.detached_name (r : Relation) : r.detached.name = r.name := rfl

/-- No two relations have the same name. -/
structure Catalog where
  relations : List Relation
  unique : (relations.map Relation.name).Nodup
  deriving DecidableEq

inductive Ddl
  | detachPartition (parentTable partitionName : String)
  | dropTable (name : String)
  | createPartitionOf (ifNotExists : Bool) (name parentTable : String) (bound : PartitionBound)
  deriving DecidableEq, Repr

inductive DdlError
  | undefinedTable
  | duplicateTable
  | invalidObjectDefinition
  deriving DecidableEq, Repr

namespace Catalog

def names (c : Catalog) : List String := c.relations.map Relation.name

def detach (c : Catalog) (name : String) : Catalog where
  relations := updateWhere (fun r => r.name = name) Relation.detached c.relations
  unique := by
    rw [map_updateWhere Relation.name Relation.detached_name]
    exact c.unique

def drop (c : Catalog) (name : String) : Catalog where
  relations := c.relations.filter fun r => r.name ≠ name
  unique := c.unique.sublist (List.filter_sublist.map _)

def create (c : Catalog) (name parentTable : String) (bound : PartitionBound)
    (fresh : name ∉ c.names) : Catalog where
  relations := c.relations ++ [⟨name,some (parentTable,bound)⟩]
  unique := nodup_append_fresh c.unique fresh

/-- The partitions of a table that a new one would overlap with. -/
def overlapping (c : Catalog) (parentTable : String) (bound : PartitionBound) : List Relation :=
  c.relations.filter fun r => (r.boundIn parentTable).any bound.overlaps

/-- `CREATE TABLE IF NOT EXISTS` does nothing when there is a relation of that name, attached or
not. -/
def exec (c : Catalog) : Ddl → Except DdlError Catalog
  | .detachPartition parentTable partitionName =>
    if c.relations.any fun r => r.name = partitionName && (r.boundIn parentTable).isSome then
      .ok (c.detach partitionName)
    else .error .undefinedTable
  | .dropTable name => if name ∈ c.names then .ok (c.drop name) else .error .undefinedTable
  | .createPartitionOf ifNotExists name parentTable bound =>
    if h : name ∈ c.names then
      if ifNotExists then .ok c else .error .duplicateTable
    else if bound.isEmpty || !(c.overlapping parentTable bound).isEmpty then
      .error .invalidObjectDefinition
    else .ok (c.create name parentTable bound h)

/-- A program stops at the first statement that fails. -/
def execAll (c : Catalog) (statements : List Ddl) : Except DdlError Catalog :=
  statements.foldlM exec c

end Catalog

def PARTITIONED_YEAR : Nat := 2025
def PARTITIONED_TABLE : String := "metric_events_partitioned"

/-- `Date.UTC(year, month, 1)`, counted in months. -/
def firstOfMonth (year month : Nat) : Nat := 12 * year + month

/-- A month, with its inclusive bound `from` and its exclusive bound `to`. -/
structure MonthPartition where
  name : String
  year : Nat
  month : Nat
  lower : Nat
  upper : Nat
  deriving DecidableEq, Repr

def pad2 (n : Nat) : String := (toString n).leftpad 2 '0'

def monthPartitionName (year month : Nat) : String :=
  "metric_events_y" ++ toString year ++ "m" ++ pad2 month

def monthBounds (year month : Nat) : Nat × Nat :=
  let lower := firstOfMonth year (month - 1)
  let upper := if month = 12 then firstOfMonth (year + 1) 0 else firstOfMonth year month
  (lower,upper)

def monthPartition (year month : Nat) : MonthPartition where
  name := monthPartitionName year month
  year := year
  month := month
  lower := (monthBounds year month).1
  upper := (monthBounds year month).2

def MonthPartition.bound (partition : MonthPartition) : PartitionBound :=
  .range partition.lower partition.upper

def canonicalPartitions : List MonthPartition :=
  (List.range' 1 12).map (monthPartition PARTITIONED_YEAR)

def canonicalNames : List String := canonicalPartitions.map MonthPartition.name

structure ExistingPartition where
  name : String
  bound : PartitionBound
  deriving DecidableEq, Repr

def attachedTo (c : Catalog) (parentTable : String) : List ExistingPartition :=
  c.relations.filterMap fun r => (r.boundIn parentTable).map fun bound => ⟨r.name,bound⟩

/-- The partitions of a table, `ORDER BY c.relname`. -/
def listExistingPartitions (c : Catalog) (parentTable : String) : List ExistingPartition :=
  orderBy ExistingPartition.name (attachedTo c parentTable)

def detachAndDrop (parentTable partitionName : String) : List Ddl :=
  [.detachPartition parentTable partitionName,.dropTable partitionName]

def createMonthPartition (parentTable : String) (partition : MonthPartition) : List Ddl :=
  [.createPartitionOf true partition.name parentTable partition.bound]

structure Reconciled where
  dropped : List String
  created : List String
  deriving DecidableEq, Repr

/-- The existing partitions that have to go. -/
def superfluous (existing : List ExistingPartition) : List ExistingPartition :=
  existing.filter fun partition => partition.name ∉ canonicalNames

/-- The canonical partitions that are not among the existing ones. -/
def missing (existing : List ExistingPartition) : List MonthPartition :=
  canonicalPartitions.filter fun partition => partition.name ∉ existing.map ExistingPartition.name

/-- What `reconcileCanonicalPartitionLayout` sends, once it has listed the partitions. -/
def reconcileStatements (existing : List ExistingPartition) : List Ddl :=
  (superfluous existing).flatMap (fun partition => detachAndDrop PARTITIONED_TABLE partition.name) ++
    (missing existing).flatMap (createMonthPartition PARTITIONED_TABLE)

def reconcileCanonicalPartitionLayout (c : Catalog) : Except DdlError (Reconciled × Catalog) := do
  let existing := listExistingPartitions c PARTITIONED_TABLE
  let reconciled ← c.execAll (reconcileStatements existing)
  let dropped := (superfluous existing).map ExistingPartition.name
  let created := (missing existing).map MonthPartition.name
  return (⟨dropped,created⟩,reconciled)

/-- The statements that each session has yet to send. -/
structure LayoutWorld where
  catalog : Catalog
  pending : Nat → List Ddl := fun _ => []

/-- A session purges a month, creates one, creates a `DEFAULT` partition or reconciles; then it
sends its statements one by one, or it is interrupted. -/
inductive LayoutEvent
  | purge (session year month : Nat)
  | createMonth (session : Nat) (ifNotExists : Bool) (year month : Nat)
  | createDefault (session : Nat) (ifNotExists : Bool) (name : String)
  | reconcile (session : Nat)
  | send (session : Nat)
  | interrupt (session : Nat)
  deriving DecidableEq, Repr

def canonicalCatalog : Catalog where
  relations := canonicalPartitions.map fun partition =>
    ⟨partition.name,some (PARTITIONED_TABLE,partition.bound)⟩
  unique := by
    rw [List.map_map]
    decide +kernel

namespace LayoutWorld

def canonical : LayoutWorld := { catalog := canonicalCatalog }

def isMonth (month : Nat) : Bool := 1 ≤ month && month ≤ 12

/-- An idle session starts a program. -/
def begin (w : LayoutWorld) (session : Nat) (statements : List Ddl) : Option LayoutWorld :=
  if w.pending session = [] then
    some { w with pending := Function.update w.pending session statements }
  else none

def step (w : LayoutWorld) : LayoutEvent → Option LayoutWorld
  | .purge session year month =>
    if isMonth month then
      w.begin session (detachAndDrop PARTITIONED_TABLE (monthPartitionName year month))
    else none
  | .createMonth session ifNotExists year month =>
    if isMonth month then
      w.begin session [.createPartitionOf ifNotExists (monthPartitionName year month)
        PARTITIONED_TABLE (monthPartition year month).bound]
    else none
  | .createDefault session ifNotExists name =>
    if name ∉ canonicalNames then
      w.begin session [.createPartitionOf ifNotExists name PARTITIONED_TABLE .default]
    else none
  | .reconcile session =>
    w.begin session (reconcileStatements (listExistingPartitions w.catalog PARTITIONED_TABLE))
  | .send session =>
    match w.pending session with
    | [] => none
    | statement::rest =>
      match w.catalog.exec statement with
      | .ok catalog => some ⟨catalog,Function.update w.pending session rest⟩
      | .error _ => some { w with pending := Function.update w.pending session [] }
  | .interrupt session => some { w with pending := Function.update w.pending session [] }

end LayoutWorld

end SystemsLab.Partitioning
