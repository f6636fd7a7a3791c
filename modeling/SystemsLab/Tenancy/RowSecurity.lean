import SystemsLab.Tenancy.Session

/-!
# Row level security

Both tables have the policy `tenant_isolation`, with the same condition for the rows a statement
may see and for the rows it may write. The policy does not hold back the owner of the tables, and
PostgreSQL checks and cascades foreign keys as the owner.
-/

namespace SystemsLab.Tenancy

/-- The columns that both tables have, and the others. -/
structure Row (π : Type) where
  id : Int
  publicId : String
  createdAt : Int
  columns : π
  deriving DecidableEq, Repr

structure TenantColumns where
  name : String
  slug : String
  deriving DecidableEq, Repr

structure TicketColumns where
  tenantId : Int
  subject : String
  body : String
  status : String := "open"
  deriving DecidableEq, Repr

abbrev TenantRow := Row TenantColumns

abbrev TicketRow := Row TicketColumns

/-- What `DEFAULT` will give: the next value of the identity sequence, and random UUIDs, of which
some have been drawn. -/
structure Supply where
  next : Int
  uuids : Nat → String
  drawn : Nat := 0

structure Table (π : Type) where
  rows : List (Row π)
  supply : Supply

structure Database where
  tenants : Table TenantColumns
  supportTickets : Table TicketColumns

/-- The rows of both tables that a statement can see. -/
structure View where
  tenants : List TenantRow
  supportTickets : List TicketRow
  deriving DecidableEq, Repr

inductive Privilege
  | select
  | insert
  | update
  | delete
  deriving DecidableEq, Repr

/-- `lab39_admin` is a superuser, `lab39_migrator` owns the tables, which do not force row level
security, and the other roles are neither and have no `BYPASSRLS`. -/
def RoleName.bypassesRowSecurity : RoleName → Bool
  | .admin => true
  | .migrator => true
  | .app => false
  | .readonly => false

def RoleName.granted : RoleName → Privilege → Bool
  | .admin, _ => true
  | .migrator, _ => true
  | .app, _ => true
  | .readonly, privilege => privilege == .select

/-- `current_tenant_id()`: `nullif(current_setting('app.current_tenant_id', true), '')::bigint`.
The helper only ever sets numbers and the empty string, so the cast does not fail. -/
def currentTenantId (setting : String) : Option Int :=
  if setting = "" then none else setting.toInt?

/-- Who sends a statement, and the setting of the session. -/
structure Identity where
  role : RoleName
  setting : String
  deriving DecidableEq, Repr

/-- The session in which the `fn` of `withTenantSession` runs. -/
def withTenant (role : RoleName) (tenantId : Option Int) : Identity :=
  ⟨role,tenantSetting tenantId⟩

/-- `tenant = current_tenant_id()` for the owner of a row; comparing with NULL is not true. -/
def Identity.allows (s : Identity) (tenant : Int) : Bool :=
  s.role.bypassesRowSecurity || currentTenantId s.setting == some tenant

/-- `tenant_isolation` on `tenants`. -/
def Identity.tenantPolicy (s : Identity) (row : TenantRow) : Bool :=
  s.allows row.id

/-- `tenant_isolation` on `support_tickets`. -/
def Identity.ticketPolicy (s : Identity) (row : TicketRow) : Bool :=
  s.allows row.columns.tenantId

def Database.view (d : Database) (s : Identity) : View :=
  ⟨d.tenants.rows.filter s.tenantPolicy,d.supportTickets.rows.filter s.ticketPolicy⟩

/-- A row to insert. The id is the next one of the sequence unless it is given `OVERRIDING SYSTEM
VALUE`; the other columns that have a default may be left to it. -/
structure NewRow (π : Type) where
  id : Option Int := none
  publicId : Option String := none
  createdAt : Option Int := none
  columns : π

/-- What an `UPDATE` sets a row to. The id can only be set to `DEFAULT`. -/
structure Assignment (π : Type) where
  regenerateId : Bool := false
  publicId : Option String
  createdAt : Option Int
  columns : π

/-- Conditions and values may depend on what the statement sees, in the row and elsewhere. An
`INSERT` has no `ON CONFLICT`: with that, a conflict with a row of another tenant would raise no
error. -/
inductive Query
  | selectTenants (condition : View → TenantRow → Bool)
  | selectTickets (condition : View → TicketRow → Bool)
  | insertTenants (values : View → List (NewRow TenantColumns))
  | insertTickets (values : View → List (NewRow TicketColumns))
  | updateTenants (condition : View → TenantRow → Bool)
      (set : View → TenantRow → Assignment TenantColumns)
  | updateTickets (condition : View → TicketRow → Bool)
      (set : View → TicketRow → Assignment TicketColumns)
  | deleteTenants (condition : View → TenantRow → Bool)
  | deleteTickets (condition : View → TicketRow → Bool)

inductive SqlError
  | permissionDenied
  | rowSecurity
  | unique
  | foreignKey
  deriving DecidableEq, Repr

/-- The rows that a statement returns (`RETURNING *` for a write), or the error it raises. -/
inductive QueryResult
  | tenants (rows : List TenantRow)
  | tickets (rows : List TicketRow)
  | error (error : SqlError)
  deriving DecidableEq, Repr

def QueryResult.rowCount : QueryResult → Nat
  | .tenants rows => rows.length
  | .tickets rows => rows.length
  | .error _ => 0

def QueryResult.isError : QueryResult → Bool
  | .error _ => true
  | _ => false

variable {π : Type}

/-- The row that is written, and what is left to give out. -/
def NewRow.fill (now : Int) (supply : Supply) (values : NewRow π) : Row π × Supply :=
  let id := values.id.getD supply.next
  let next := if values.id.isSome then supply.next else supply.next + 1
  let publicId := values.publicId.getD (supply.uuids supply.drawn)
  let drawn := if values.publicId.isSome then supply.drawn else supply.drawn + 1
  (⟨id,publicId,values.createdAt.getD now,values.columns⟩,⟨next,supply.uuids,drawn⟩)

/-- Fill in the rows and hold them against `WITH CHECK`, one after the other. The first row that
fails the check ends the statement. -/
def fillRows (now : Int) (check : Row π → Bool) :
    Supply → List (NewRow π) → Option (List (Row π)) × Supply
  | supply, [] => (some [],supply)
  | supply, values::more =>
    let (row,supply) := values.fill now supply
    if check row then
      let (rows,supply) := fillRows now check supply more
      (rows.map (row::·),supply)
    else (none,supply)

def Assignment.toNewRow (row : Row π) (values : Assignment π) : NewRow π :=
  { id := if values.regenerateId then none else some row.id
    publicId := values.publicId
    createdAt := values.createdAt
    columns := values.columns }

def tenantsUnique (rows : List TenantRow) : Bool :=
  decide ((rows.map Row.id).Nodup ∧ (rows.map Row.publicId).Nodup ∧
    (rows.map (·.columns.slug)).Nodup)

def ticketsUnique (rows : List TicketRow) : Bool :=
  decide ((rows.map Row.id).Nodup ∧ (rows.map Row.publicId).Nodup)

/-- `support_tickets.tenant_id` references `tenants.id`. -/
def referenced (tenants : List TenantRow) (ticket : TicketRow) : Bool :=
  tenants.any fun tenant => tenant.id == ticket.columns.tenantId

namespace Database

def setTenants (d : Database) (rows : List TenantRow) (supply : Supply) : Database :=
  { d with tenants := ⟨rows,supply⟩ }

def setTickets (d : Database) (rows : List TicketRow) (supply : Supply) : Database :=
  { d with supportTickets := ⟨rows,supply⟩ }

/-- The constraints on what a statement has written; `failed` is what an error leaves. -/
def conclude (failed written : Database) (unique references : Bool) (result : QueryResult) :
    Database × QueryResult :=
  if unique then
    if references then (written,result) else (failed,.error .foreignKey)
  else (failed,.error .unique)

/-- No ticket loses the tenant it references. -/
def keepsReferences (d : Database) (rows : List TenantRow) : Bool :=
  d.supportTickets.rows.all fun ticket =>
    !referenced d.tenants.rows ticket || referenced rows ticket

/-- Replace the rows for which `target` holds by rows made of `values`. An error keeps the rows
but not the place in the sequence. -/
def writeTenants (d : Database) (s : Identity) (now : Int) (target : TenantRow → Bool)
    (values : List (NewRow TenantColumns)) : Database × QueryResult :=
  let (filled,supply) := fillRows now s.tenantPolicy d.tenants.supply values
  let failed := d.setTenants d.tenants.rows supply
  match filled with
  | none => (failed,.error .rowSecurity)
  | some written =>
    let rows := d.tenants.rows.filter (fun row => !target row) ++ written
    conclude failed (d.setTenants rows supply) (tenantsUnique rows) (d.keepsReferences rows)
      (.tenants written)

def writeTickets (d : Database) (s : Identity) (now : Int) (target : TicketRow → Bool)
    (values : List (NewRow TicketColumns)) : Database × QueryResult :=
  let (filled,supply) := fillRows now s.ticketPolicy d.supportTickets.supply values
  let failed := d.setTickets d.supportTickets.rows supply
  match filled with
  | none => (failed,.error .rowSecurity)
  | some written =>
    let rows := d.supportTickets.rows.filter (fun row => !target row) ++ written
    conclude failed (d.setTickets rows supply) (ticketsUnique rows)
      (written.all (referenced d.tenants.rows)) (.tickets written)

end Database

def Query.privilege : Query → Privilege
  | .selectTenants _ => .select
  | .selectTickets _ => .select
  | .insertTenants _ => .insert
  | .insertTickets _ => .insert
  | .updateTenants _ _ => .update
  | .updateTickets _ _ => .update
  | .deleteTenants _ => .delete
  | .deleteTickets _ => .delete

/-- A statement of a role that has the privilege for it. -/
def Query.run (s : Identity) (now : Int) (d : Database) : Query → Database × QueryResult
  | .selectTenants condition =>
    (d,.tenants ((d.view s).tenants.filter (condition (d.view s))))
  | .selectTickets condition =>
    (d,.tickets ((d.view s).supportTickets.filter (condition (d.view s))))
  | .insertTenants values => d.writeTenants s now (fun _ => false) (values (d.view s))
  | .insertTickets values => d.writeTickets s now (fun _ => false) (values (d.view s))
  | .updateTenants condition set =>
    let targets := (d.view s).tenants.filter (condition (d.view s))
    d.writeTenants s now (fun row => s.tenantPolicy row && condition (d.view s) row)
      (targets.map fun row => (set (d.view s) row).toNewRow row)
  | .updateTickets condition set =>
    let targets := (d.view s).supportTickets.filter (condition (d.view s))
    d.writeTickets s now (fun row => s.ticketPolicy row && condition (d.view s) row)
      (targets.map fun row => (set (d.view s) row).toNewRow row)
  | .deleteTenants condition =>
    let deleted := (d.view s).tenants.filter (condition (d.view s))
    let tenants := d.tenants.rows.filter fun row =>
      !(s.tenantPolicy row && condition (d.view s) row)
    -- `ON DELETE CASCADE`
    let tickets := d.supportTickets.rows.filter fun ticket => !referenced deleted ticket
    ((d.setTenants tenants d.tenants.supply).setTickets tickets d.supportTickets.supply,
      .tenants deleted)
  | .deleteTickets condition =>
    let deleted := (d.view s).supportTickets.filter (condition (d.view s))
    let tickets := d.supportTickets.rows.filter fun row =>
      !(s.ticketPolicy row && condition (d.view s) row)
    (d.setTickets tickets d.supportTickets.supply,.tickets deleted)

def execute (s : Identity) (now : Int) (d : Database) (q : Query) : Database × QueryResult :=
  if s.role.granted q.privilege then q.run s now d else (d,.error .permissionDenied)

/-- Statements one after the other, each with the time at which it runs. -/
def executeAll (s : Identity) : Database → List (Int × Query) → Database × List QueryResult
  | d, [] => (d,[])
  | d, (now,q)::queries =>
    let (d,result) := execute s now d q
    let (d,results) := executeAll s d queries
    (d,result::results)

end SystemsLab.Tenancy
