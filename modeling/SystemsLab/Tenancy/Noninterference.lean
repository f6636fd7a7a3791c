import SystemsLab.Tenancy.Renaming

/-!
# What a tenant can learn of the others

The private database of a tenant does not depend on the rows of others, except for what is given
out to everybody: the ids of new rows come from sequences that all tenants share. Two runs that
differ only in the rows of others have the same results up to these ids.
-/

namespace SystemsLab.Tenancy

variable {π : Type} {s : Identity} {now : Int} {f : RowRenaming}

/-! ## One statement on two private databases -/

/-- The second database is the first one under other ids. -/
structure Renames (ρ : Renaming) (d d' : Database) : Prop where
  tenants : d'.tenants.rows = d.tenants.rows.map (Row.rename ρ.tenants)
  tickets : d'.supportTickets.rows = d.supportTickets.rows.map (Row.rename ρ.tickets)

/-- What a statement leads to in one run is linked with the ids that it draws in the other. An
error gives nobody an id. -/
structure Renaming.Follows (ρ : Renaming) (s : Identity) (d d' : Database)
    (after : Database × QueryResult) : Prop where
  spares : s.Spares d.tenants.supply after.1.tenants.supply d'.tenants.supply
  tenants : after.2.isError = false →
    ρ.tenants.Links d.tenants.supply after.1.tenants.supply d'.tenants.supply
  tickets : after.2.isError = false →
    ρ.tickets.Links d.supportTickets.supply after.1.supportTickets.supply
      d'.supportTickets.supply

private theorem Identity.Spares.undrawn {supply last supply' : Supply}
    (h : last.next = supply.next) :
    s.Spares supply last supply' := by
  intro i hi
  omega

private theorem RowRenaming.Links.undrawn {supply last supply' : Supply}
    (hnext : last.next = supply.next)
    (hdrawn : last.drawn = supply.drawn) : f.Links supply last supply' :=
  ⟨fun i hi => by omega,fun i hi => by omega⟩

private theorem Renaming.Follows.undrawn {ρ : Renaming} {d d' : Database}
    {after : Database × QueryResult}
    (htenants : after.1.tenants.supply = d.tenants.supply)
    (htickets : after.1.supportTickets.supply = d.supportTickets.supply) :
    ρ.Follows s d d' after := by
  refine ⟨?_,fun _ => ?_,fun _ => ?_⟩
  · rw [htenants]
    exact .undrawn rfl
  · rw [htenants]
    exact .undrawn rfl rfl
  · rw [htickets]
    exact .undrawn rfl rfl

/-- The renaming does not touch the ids of tenants that the session speaks for. -/
def Renaming.Keeps (ρ : Renaming) (s : Identity) : Prop :=
  ∀ t, s.allows t = true → ∀ i, ρ.tenants.id i = t ↔ i = t

variable {ρ : Renaming} {d d' : Database}

private theorem Renaming.Keeps.tenantPolicy (h : ρ.Keeps s) (row : TenantRow) :
    s.tenantPolicy (row.rename ρ.tenants) = s.tenantPolicy row := by
  show s.allows (ρ.tenants.id row.id) = s.allows row.id
  rw [Bool.eq_iff_iff]
  constructor
  · intro hallowed
    rw [(h _ hallowed row.id).mp rfl]
    exact hallowed
  · intro hallowed
    rw [(h _ hallowed row.id).mpr rfl]
    exact hallowed

private theorem ticketPolicy_rename (s : Identity) (ρ : Renaming) (row : TicketRow) :
    s.ticketPolicy (row.rename ρ.tickets) = s.ticketPolicy row :=
  rfl

private theorem Renaming.Keeps.referenced (h : ρ.Keeps s) (tenants : List TenantRow)
    {ticket : TicketRow}
    (hticket : s.ticketPolicy ticket = true) :
    referenced (tenants.map (Row.rename ρ.tenants)) (ticket.rename ρ.tickets) =
      referenced tenants ticket := by
  unfold SystemsLab.Tenancy.referenced
  rw [List.any_map]
  congr 1
  funext tenant
  rw [Bool.eq_iff_iff]
  simp only [Function.comp_apply,beq_iff_eq]
  exact h _ hticket tenant.id

private theorem filter_rename {p q : Row π → Bool} {rows : List (Row π)}
    (h : ∀ row ∈ rows, q (row.rename f) = p row) :
    (rows.map (Row.rename f)).filter q = (rows.filter p).map (Row.rename f) := by
  rw [List.filter_map]
  congr 1
  exact List.filter_congr h

private theorem Renames.view (h : Renames ρ d d') (hkeeps : ρ.Keeps s) :
    d'.view s = (d.view s).rename ρ := by
  unfold Database.view View.rename
  rw [h.tenants,h.tickets,filter_rename fun row _ => hkeeps.tenantPolicy row,
    filter_rename (p := s.ticketPolicy)]
  exact fun _ _ => rfl

private theorem replace_rename {target target' : Row π → Bool} {rows : List (Row π)}
    (h : ∀ row ∈ rows, target' (row.rename f) = target row) (written : List (Row π)) :
    (rows.map (Row.rename f)).filter (fun row => !target' row) ++ written.map (Row.rename f) =
      (rows.filter (fun row => !target row) ++ written).map (Row.rename f) := by
  rw [List.map_append,filter_rename (p := fun row => !target row)]
  intro row hrow
  rw [h row hrow]

/-- If no unique constraint objects, the other constraints object in both databases or in none. -/
theorem conclude_rename {failed written failed' written' : Database}
    {unique unique' references references' : Bool} {result result' : QueryResult}
    (hfailed : Renames ρ failed failed') (hreferences : references' = references)
    (hwritten : Database.conclude failed written unique references result = (written,result) →
      Renames ρ written written' ∧ result' = result.rename ρ)
    (h : (Database.conclude failed written unique references result).2 ≠ .error .unique)
    (h' : (Database.conclude failed' written' unique' references' result').2 ≠ .error .unique) :
    Renames ρ (Database.conclude failed written unique references result).1
        (Database.conclude failed' written' unique' references' result').1 ∧
      (Database.conclude failed' written' unique' references' result').2 =
        (Database.conclude failed written unique references result).2.rename ρ := by
  unfold Database.conclude at hwritten h h' ⊢
  rw [hreferences] at h' ⊢
  cases unique with
  | false => exact absurd rfl h
  | true =>
    cases unique' with
    | false => exact absurd rfl h'
    | true =>
      cases references with
      | false => exact ⟨hfailed,rfl⟩
      | true => exact hwritten rfl

/-- All tickets belong to tenants that the session speaks for. -/
def Database.Private (d : Database) (s : Identity) : Prop :=
  ∀ ticket ∈ d.supportTickets.rows, s.ticketPolicy ticket = true

private theorem referenced_of_ids {tenants tenants' : List TenantRow} (ticket ticket' : TicketRow)
    (hids : tenants'.map Row.id = tenants.map Row.id)
    (hticket : ticket'.columns.tenantId = ticket.columns.tenantId) :
    referenced tenants' ticket' = referenced tenants ticket := by
  have hany : ∀ (tenants : List TenantRow) (ticket : TicketRow), referenced tenants ticket =
      (tenants.map Row.id).any (· == ticket.columns.tenantId) := by
    intro tenants ticket
    rw [List.any_map]
    rfl
  rw [hany,hany,hids,hticket]

private theorem Renames.keepsReferences (h : Renames ρ d d') (hkeeps : ρ.Keeps s) (hd : d.Private s)
    (rows : List TenantRow) {written written' : List TenantRow}
    (hids : written'.map Row.id = written.map Row.id) :
    d'.keepsReferences (rows.map (Row.rename ρ.tenants) ++ written') =
      d.keepsReferences (rows ++ written) := by
  unfold Database.keepsReferences
  rw [h.tickets,h.tenants,List.all_map,Bool.eq_iff_iff,List.all_eq_true,List.all_eq_true]
  apply forall₂_congr
  intro ticket hticket
  have hrows := fun tenants => hkeeps.referenced tenants (hd ticket hticket)
  have happend : ∀ (tenants others : List TenantRow) (ticket : TicketRow),
      referenced (tenants ++ others) ticket =
        (referenced tenants ticket || referenced others ticket) :=
    fun tenants others ticket => List.any_append
  rw [Function.comp_apply,happend,happend,hrows,hrows,
    referenced_of_ids ticket (ticket.rename ρ.tickets) hids rfl]

private theorem fill_id (now : Int) {last supply supply' : Supply} (hkeeps : ρ.Keeps s)
    (hspares : s.Spares supply last supply') (values : NewRow TenantColumns)
    (hlast : (values.fill now supply).2.Before last) (t : Int) (ht : s.allows t = true) :
    (values.fill now supply).1.id = t ↔
      ((values.rename ρ.tenants).fill now supply').1.id = t := by
  obtain ⟨id,publicId,createdAt,columns⟩ := values
  cases id with
  | none =>
    have hnext : supply.next + 1 ≤ last.next := hlast.next
    have hfirst := hspares 0 (by simpa using hnext) t ht
    have hzero : ∀ n : Int, n + (0 : Nat) = n := fun n => Int.add_zero n
    rw [hzero,hzero] at hfirst
    exact hfirst
  | some i => exact (hkeeps t ht i).symm

private theorem Identity.Spares.fill {last supply supply' : Supply}
    (h : s.Spares supply last supply')
    (values : NewRow π) : s.Spares (values.fill now supply).2 last
      ((values.rename f).fill now supply').2 := by
  obtain ⟨id,publicId,createdAt,columns⟩ := values
  intro i hi
  cases id with
  | none =>
    have hi : supply.next + 1 + i < last.next := hi
    show ∀ t, s.allows t = true → (supply.next + 1 + i = t ↔ supply'.next + 1 + i = t)
    rw [shift_next] at hi ⊢
    rw [shift_next]
    exact h (i + 1) hi
  | some n => exact h i hi

theorem allows_of_iff {a b : Int} (h : ∀ t, s.allows t = true → (a = t ↔ b = t)) :
    s.allows b = s.allows a ∧ (s.allows a = true → b = a) := by
  have heq : s.allows a = true → b = a := fun ha => (h a ha).mp rfl
  refine ⟨?_,heq⟩
  rw [Bool.eq_iff_iff]
  constructor
  · intro hb
    rw [(h b hb).mpr rfl]
    exact hb
  · intro ha
    rw [heq ha]
    exact ha

private theorem map_eq_of_forall₂ {α β : Type} {g : α → β} {rows rows' : List α}
    (h : List.Forall₂ (fun row row' => g row' = g row) rows rows') :
    rows'.map g = rows.map g := by
  induction h with
  | nil => rfl
  | cons hrow _ ih => rw [List.map_cons,List.map_cons,hrow,ih]

private theorem eq_map_of_forall₂ {rows rows' : List (Row π)}
    (h : List.Forall₂ (fun row row' => row' = row.rename f) rows rows') :
    rows' = rows.map (Row.rename f) := by
  induction h with
  | nil => rfl
  | cons hrow _ ih => rw [List.map_cons,hrow,ih]

private theorem fillRows_ids {last supply supply' : Supply} (hkeeps : ρ.Keeps s)
    (hspares : s.Spares supply last supply') (values : List (NewRow TenantColumns))
    (hlast : (fillRows now s.tenantPolicy supply values).2.Before last) :
    Option.Rel (List.Forall₂ fun row row' => row'.id = row.id)
      (fillRows now s.tenantPolicy supply values).1
      (fillRows now s.tenantPolicy supply' (values.map (NewRow.rename ρ.tenants))).1 := by
  apply fillRows_rel (P := fun supply supply' => s.Spares supply last supply') ?_ values hspares
    hlast
  intro values supply supply' hspares hlast
  obtain ⟨hcheck,hid⟩ := allows_of_iff (fill_id now hkeeps hspares values hlast)
  exact ⟨hcheck,hid,hspares.fill values⟩

private theorem fillRows_columns (s : Identity) (f : RowRenaming) (now : Int)
    (supply supply' : Supply)
    (values : List (NewRow TicketColumns)) :
    Option.Rel (List.Forall₂ fun row row' => row'.columns = row.columns)
      (fillRows now s.ticketPolicy supply values).1
      (fillRows now s.ticketPolicy supply' (values.map (NewRow.rename f))).1 := by
  have hlast : (fillRows now s.ticketPolicy supply values).2.Before
      (fillRows now s.ticketPolicy supply values).2 := ⟨Int.le_refl _,Nat.le_refl _⟩
  apply fillRows_rel (P := fun _ _ => True) ?_ values trivial hlast
  exact fun values supply supply' _ _ => ⟨rfl,fun _ => rfl,trivial⟩

private theorem fillRows_links {last supply supply' : Supply} {check : Row π → Bool}
    (hcheck : ∀ row : Row π, check (row.rename f) = check row)
    (hlinks : f.Links supply last supply') (values : List (NewRow π))
    (hlast : (fillRows now check supply values).2.Before last) :
    Option.Rel (List.Forall₂ fun row row' => row' = row.rename f)
      (fillRows now check supply values).1
      (fillRows now check supply' (values.map (NewRow.rename f))).1 := by
  apply fillRows_rel (P := fun supply supply' => f.Links supply last supply') ?_ values hlinks hlast
  intro values supply supply' hlinks hlast
  obtain ⟨hrow,hnext⟩ := hlinks.fill now values hlast
  exact ⟨by rw [hrow,hcheck],fun _ => hrow,hnext⟩

private theorem writeTenants_supply (target : TenantRow → Bool)
    (values : List (NewRow TenantColumns)) :
    (d.writeTenants s now target values).1.tenants.supply =
      (fillRows now s.tenantPolicy d.tenants.supply values).2 := by
  unfold Database.writeTenants Database.conclude
  dsimp only
  split
  · rfl
  · split
    · split <;> rfl
    · rfl

private theorem writeTickets_supply (target : TicketRow → Bool)
    (values : List (NewRow TicketColumns)) :
    (d.writeTickets s now target values).1.supportTickets.supply =
      (fillRows now s.ticketPolicy d.supportTickets.supply values).2 := by
  unfold Database.writeTickets Database.conclude
  dsimp only
  split
  · rfl
  · split
    · split <;> rfl
    · rfl

private theorem Renames.writeTenants (h : Renames ρ d d') (hkeeps : ρ.Keeps s) (hd : d.Private s)
    {target target' : TenantRow → Bool}
    (htarget : ∀ row ∈ d.tenants.rows, target' (row.rename ρ.tenants) = target row)
    (values : List (NewRow TenantColumns))
    (hfollows : ρ.Follows s d d' (d.writeTenants s now target values))
    (hunique : (d.writeTenants s now target values).2 ≠ .error .unique)
    (hunique' : (d'.writeTenants s now target'
      (values.map (NewRow.rename ρ.tenants))).2 ≠ .error .unique) :
    Renames ρ (d.writeTenants s now target values).1
        (d'.writeTenants s now target' (values.map (NewRow.rename ρ.tenants))).1 ∧
      (d'.writeTenants s now target' (values.map (NewRow.rename ρ.tenants))).2 =
        (d.writeTenants s now target values).2.rename ρ := by
  have hspares := hfollows.spares
  have hlinks := hfollows.tenants
  rw [writeTenants_supply] at hspares hlinks
  have hlast : (fillRows now s.tenantPolicy d.tenants.supply values).2.Before
      (fillRows now s.tenantPolicy d.tenants.supply values).2 := ⟨Int.le_refl _,Nat.le_refl _⟩
  have hids := fillRows_ids hkeeps hspares values hlast
  have hrenamed := fun hok => fillRows_links hkeeps.tenantPolicy (hlinks hok) values hlast
  unfold Database.writeTenants at hunique hunique' hrenamed ⊢
  cases hfill : fillRows now s.tenantPolicy d.tenants.supply values with
  | mk filled supply =>
    cases hfill' : fillRows now s.tenantPolicy d'.tenants.supply
        (values.map (NewRow.rename ρ.tenants)) with
    | mk filled' supply' =>
      rw [hfill] at hunique
      rw [hfill'] at hunique'
      rw [hfill,hfill'] at hids hrenamed
      have hfailed : Renames ρ (d.setTenants d.tenants.rows supply)
          (d'.setTenants d'.tenants.rows supply') := ⟨h.tenants,h.tickets⟩
      cases hids with
      | none => exact ⟨hfailed,rfl⟩
      | @some written written' hids =>
        have hkept : d'.tenants.rows.filter (fun row => !target' row) =
            (d.tenants.rows.filter fun row => !target row).map (Row.rename ρ.tenants) := by
          rw [h.tenants]
          exact filter_rename fun row hrow => congrArg _ (htarget row hrow)
        have hreferences := h.keepsReferences hkeeps hd
          (d.tenants.rows.filter fun row => !target row) (map_eq_of_forall₂ hids)
        rw [← hkept] at hreferences
        refine conclude_rename hfailed hreferences (fun hok => ?_) hunique hunique'
        have hok : QueryResult.isError (Database.conclude _ _ _ _ _).2 = false :=
          congrArg (fun after : Database × QueryResult => after.2.isError) hok
        cases hrenamed hok with
        | some hrows =>
          obtain rfl := eq_map_of_forall₂ hrows
          refine ⟨⟨?_,h.tickets⟩,rfl⟩
          show d'.tenants.rows.filter _ ++ _ = _
          rw [h.tenants]
          exact replace_rename htarget written

private theorem referenced_columns (h : Renames ρ d d') (hkeeps : ρ.Keeps s)
    {written written' : List TicketRow} (hcheck : ∀ row ∈ written, s.ticketPolicy row = true)
    (hcolumns : List.Forall₂ (fun row row' => row'.columns = row.columns) written written') :
    written'.all (referenced d'.tenants.rows) = written.all (referenced d.tenants.rows) := by
  induction hcolumns with
  | nil => rfl
  | @cons row row' _ _ hrow _ ih =>
    obtain ⟨hfirst,hrest⟩ := List.forall_mem_cons.mp hcheck
    rw [List.all_cons,List.all_cons,ih hrest,← hkeeps.referenced _ hfirst,h.tenants]
    congr 1
    exact referenced_of_ids _ _ rfl (congrArg TicketColumns.tenantId hrow)

private theorem Renames.writeTickets (h : Renames ρ d d') (hkeeps : ρ.Keeps s)
    {target target' : TicketRow → Bool}
    (htarget : ∀ row ∈ d.supportTickets.rows, target' (row.rename ρ.tickets) = target row)
    (values : List (NewRow TicketColumns))
    (hfollows : ρ.Follows s d d' (d.writeTickets s now target values))
    (hunique : (d.writeTickets s now target values).2 ≠ .error .unique)
    (hunique' : (d'.writeTickets s now target'
      (values.map (NewRow.rename ρ.tickets))).2 ≠ .error .unique) :
    Renames ρ (d.writeTickets s now target values).1
        (d'.writeTickets s now target' (values.map (NewRow.rename ρ.tickets))).1 ∧
      (d'.writeTickets s now target' (values.map (NewRow.rename ρ.tickets))).2 =
        (d.writeTickets s now target values).2.rename ρ := by
  have hpolicy := ticketPolicy_rename s ρ
  have hlinks := hfollows.tickets
  rw [writeTickets_supply] at hlinks
  have hlast : (fillRows now s.ticketPolicy d.supportTickets.supply values).2.Before
      (fillRows now s.ticketPolicy d.supportTickets.supply values).2 :=
    ⟨Int.le_refl _,Nat.le_refl _⟩
  have hcolumns :=
    fillRows_columns s ρ.tickets now d.supportTickets.supply d'.supportTickets.supply values
  have hrenamed := fun hok => fillRows_links hpolicy (hlinks hok) values hlast
  unfold Database.writeTickets at hunique hunique' hrenamed ⊢
  cases hfill : fillRows now s.ticketPolicy d.supportTickets.supply values with
  | mk filled supply =>
    cases hfill' : fillRows now s.ticketPolicy d'.supportTickets.supply
        (values.map (NewRow.rename ρ.tickets)) with
    | mk filled' supply' =>
      rw [hfill] at hunique
      rw [hfill'] at hunique'
      rw [hfill,hfill'] at hcolumns hrenamed
      have hfailed : Renames ρ (d.setTickets d.supportTickets.rows supply)
          (d'.setTickets d'.supportTickets.rows supply') := ⟨h.tenants,h.tickets⟩
      cases hcolumns with
      | none => exact ⟨hfailed,rfl⟩
      | @some written written' hcolumns =>
        have hreferences := referenced_columns h hkeeps (fillRows_check hfill) hcolumns
        refine conclude_rename hfailed hreferences (fun hok => ?_) hunique hunique'
        have hok : QueryResult.isError (Database.conclude _ _ _ _ _).2 = false :=
          congrArg (fun after : Database × QueryResult => after.2.isError) hok
        cases hrenamed hok with
        | some hrows =>
          obtain rfl := eq_map_of_forall₂ hrows
          refine ⟨⟨h.tenants,?_⟩,rfl⟩
          show d'.supportTickets.rows.filter _ ++ _ = _
          rw [h.tickets]
          exact replace_rename htarget written

private theorem toNewRow_rename (row : Row π) (values : Assignment π) :
    (values.rename f).toNewRow (row.rename f) = (values.toNewRow row).rename f := by
  unfold Assignment.toNewRow Assignment.rename NewRow.rename
  cases values.regenerateId <;> rfl

private theorem targets_rename {condition condition' : Row π → Bool}
    {set set' : Row π → Assignment π}
    {rows : List (Row π)} (hcondition : ∀ row ∈ rows, condition' (row.rename f) = condition row)
    (hset : ∀ row ∈ rows, set' (row.rename f) = (set row).rename f) :
    ((rows.map (Row.rename f)).filter condition').map (fun row => (set' row).toNewRow row) =
      ((rows.filter condition).map fun row => (set row).toNewRow row).map (NewRow.rename f) := by
  rw [filter_rename hcondition,List.map_map,List.map_map]
  apply List.map_congr_left
  intro row hrow
  simp only [Function.comp_apply]
  rw [hset row (List.mem_of_mem_filter hrow),toNewRow_rename]

/-- A condition matters for the rows that the statement sees. -/
theorem target_rename {policy condition condition' : Row π → Bool}
    (hpolicy : ∀ row, policy (row.rename f) = policy row) {rows : List (Row π)}
    (hcondition : ∀ row ∈ rows.filter policy, condition' (row.rename f) = condition row) :
    ∀ row ∈ rows, (policy (row.rename f) && condition' (row.rename f)) =
      (policy row && condition row) := by
  intro row hrow
  rw [hpolicy]
  cases hp : policy row with
  | false => rfl
  | true => rw [hcondition row (List.mem_filter.mpr ⟨hrow,hp⟩)]

private theorem Renames.deleteTenants (h : Renames ρ d d') (now : Int) (hkeeps : ρ.Keeps s)
    (hd : d.Private s) {condition : View → TenantRow → Bool}
    (hq : (Query.deleteTenants condition).Respects ρ (d.view s)) :
    Renames ρ ((Query.deleteTenants condition).run s now d).1
        ((Query.deleteTenants condition).run s now d').1 ∧
      ((Query.deleteTenants condition).run s now d').2 =
        ((Query.deleteTenants condition).run s now d).2.rename ρ := by
  have hdeleted := filter_rename hq
  have hkept := target_rename hkeeps.tenantPolicy hq
  have htickets : (d'.supportTickets.rows.filter fun ticket =>
      !referenced (((d.view s).tenants.filter (condition (d.view s))).map (Row.rename ρ.tenants))
        ticket) = (d.supportTickets.rows.filter fun ticket =>
          !referenced ((d.view s).tenants.filter (condition (d.view s))) ticket).map
            (Row.rename ρ.tickets) := by
    rw [h.tickets,List.filter_map]
    congr 1
    apply List.filter_congr
    intro ticket hticket
    rw [Function.comp_apply,hkeeps.referenced _ (hd ticket hticket)]
  dsimp only [Query.run]
  rw [h.view hkeeps]
  dsimp only [View.rename] at hdeleted hkept ⊢
  rw [hdeleted]
  refine ⟨⟨?_,htickets⟩,rfl⟩
  show d'.tenants.rows.filter _ = _
  rw [h.tenants]
  exact filter_rename fun row hrow => congrArg _ (hkept row hrow)

private theorem Renames.deleteTickets (h : Renames ρ d d') (now : Int) (hkeeps : ρ.Keeps s)
    {condition : View → TicketRow → Bool}
    (hq : (Query.deleteTickets condition).Respects ρ (d.view s)) :
    Renames ρ ((Query.deleteTickets condition).run s now d).1
        ((Query.deleteTickets condition).run s now d').1 ∧
      ((Query.deleteTickets condition).run s now d').2 =
        ((Query.deleteTickets condition).run s now d).2.rename ρ := by
  have hdeleted := filter_rename hq
  have hkept := target_rename (ticketPolicy_rename s ρ) hq
  dsimp only [Query.run]
  rw [h.view hkeeps]
  dsimp only [View.rename] at hdeleted hkept ⊢
  rw [hdeleted]
  refine ⟨⟨h.tenants,?_⟩,rfl⟩
  show d'.supportTickets.rows.filter _ = _
  rw [h.tickets]
  exact filter_rename fun row hrow => congrArg _ (hkept row hrow)

theorem Renames.run (h : Renames ρ d d') (hkeeps : ρ.Keeps s) (hd : d.Private s) {q : Query}
    (hq : q.Respects ρ (d.view s)) (hfollows : ρ.Follows s d d' (q.run s now d))
    (hunique : (q.run s now d).2 ≠ .error .unique)
    (hunique' : (q.run s now d').2 ≠ .error .unique) :
    Renames ρ (q.run s now d).1 (q.run s now d').1 ∧
      (q.run s now d').2 = (q.run s now d).2.rename ρ := by
  have hview := h.view hkeeps
  cases q with
  | selectTenants condition =>
    refine ⟨h,?_⟩
    show QueryResult.tenants ((d'.view s).tenants.filter (condition (d'.view s))) = _
    rw [hview]
    exact congrArg _ (filter_rename hq)
  | selectTickets condition =>
    refine ⟨h,?_⟩
    show QueryResult.tickets ((d'.view s).supportTickets.filter (condition (d'.view s))) = _
    rw [hview]
    exact congrArg _ (filter_rename hq)
  | insertTenants values =>
    have hvalues : values ((d.view s).rename ρ) = _ := hq
    dsimp only [Query.run] at hfollows hunique hunique' ⊢
    rw [hview,hvalues] at hunique' ⊢
    exact h.writeTenants hkeeps hd (fun _ _ => rfl) _ hfollows hunique hunique'
  | insertTickets values =>
    have hvalues : values ((d.view s).rename ρ) = _ := hq
    dsimp only [Query.run] at hfollows hunique hunique' ⊢
    rw [hview,hvalues] at hunique' ⊢
    exact h.writeTickets hkeeps (fun _ _ => rfl) _ hfollows hunique hunique'
  | updateTenants condition set =>
    have hcondition := fun row hrow => (hq row hrow).1
    have htargets := targets_rename hcondition fun row hrow => (hq row hrow).2
    have htarget := target_rename hkeeps.tenantPolicy hcondition
    dsimp only [Query.run] at hfollows hunique hunique' ⊢
    rw [hview] at hunique' ⊢
    dsimp only [View.rename] at hunique' htarget htargets ⊢
    rw [htargets] at hunique' ⊢
    exact h.writeTenants hkeeps hd htarget _ hfollows hunique hunique'
  | updateTickets condition set =>
    have hcondition := fun row hrow => (hq row hrow).1
    have htargets := targets_rename hcondition fun row hrow => (hq row hrow).2
    have htarget := target_rename (ticketPolicy_rename s ρ) hcondition
    dsimp only [Query.run] at hfollows hunique hunique' ⊢
    rw [hview] at hunique' ⊢
    dsimp only [View.rename] at hunique' htarget htargets ⊢
    rw [htargets] at hunique' ⊢
    exact h.writeTickets hkeeps htarget _ hfollows hunique hunique'
  | deleteTenants condition => exact h.deleteTenants now hkeeps hd hq
  | deleteTickets condition => exact h.deleteTickets now hkeeps hq

private theorem Renames.execute (h : Renames ρ d d') (now : Int) (hkeeps : ρ.Keeps s)
    (hd : d.Private s)
    {q : Query} (hq : q.Respects ρ (d.view s)) (hfollows : ρ.Follows s d d' (execute s now d q))
    (hunique : (execute s now d q).2 ≠ .error .unique)
    (hunique' : (execute s now d' q).2 ≠ .error .unique) :
    Renames ρ (execute s now d q).1 (execute s now d' q).1 ∧
      (execute s now d' q).2 = (execute s now d q).2.rename ρ := by
  unfold SystemsLab.Tenancy.execute at hfollows hunique hunique' ⊢
  by_cases hgranted : s.role.granted q.privilege = true
  · rw [if_pos hgranted] at hfollows hunique hunique' ⊢
    rw [if_pos hgranted]
    exact h.run hkeeps hd hq hfollows hunique hunique'
  · rw [if_neg hgranted,if_neg hgranted]
    exact ⟨h,rfl⟩

/-! ## Two runs -/

private theorem own_private (d : Database) (s : Identity) : (d.own s).Private s :=
  fun _ hticket => (List.mem_filter.mp hticket).2

variable {queries : List (Int × Query)}

/-- At each statement of the two runs, the statement treats the ids it sees as opaque, and what it
draws is renamed. -/
def Renaming.Fits (ρ : Renaming) (s : Identity) :
    Database → Database → List (Int × Query) → Prop
  | _, _, [] => True
  | d, d', (now,q)::queries => q.Respects ρ (d.view s) ∧ ρ.Follows s d d' (execute s now d q) ∧
      ρ.Fits s (execute s now d q).1 (execute s now d' q).1 queries

/-- Two runs whose private databases agree up to the renaming go on to do so. -/
theorem executeAll_rename (h : Renames ρ (d.own s) (d'.own s)) (hkeeps : ρ.Keeps s)
    (hfits : ρ.Fits s d d' queries)
    (hunique : .error .unique ∉ (executeAll s d queries).2)
    (hunique' : .error .unique ∉ (executeAll s d' queries).2) :
    Renames ρ ((executeAll s d queries).1.own s) ((executeAll s d' queries).1.own s) ∧
      (executeAll s d' queries).2 = (executeAll s d queries).2.map (QueryResult.rename ρ) := by
  induction queries generalizing d d' with
  | nil => exact ⟨h,rfl⟩
  | cons q queries ih =>
    rw [executeAll_cons,List.mem_cons,not_or] at hunique hunique'
    obtain ⟨hq,hfollows,hrest⟩ := hfits
    have hown := execute_own (Ne.symm hunique.1)
    have hown' := execute_own (Ne.symm hunique'.1)
    rw [← view_own] at hq
    have hfirst := h.execute q.1 hkeeps (own_private d s) hq
    rw [hown,hown'] at hfirst
    obtain ⟨hnext,hresult⟩ := hfirst ⟨hfollows.spares,hfollows.tenants,hfollows.tickets⟩
      (Ne.symm hunique.1) (Ne.symm hunique'.1)
    obtain ⟨hfinal,hresults⟩ := ih hnext hrest hunique.2 hunique'.2
    rw [executeAll_cons,executeAll_cons]
    refine ⟨hfinal,?_⟩
    rw [List.map_cons,hresult,hresults]

/-! ## Tenants -/

private theorem currentTenantId_tenantSetting (tenantId : Option Int) :
    currentTenantId (tenantSetting tenantId) = tenantId := by
  cases tenantId with
  | none => rfl
  | some t =>
    have hparse : (toString t).toInt? = some t := Int.toInt?_repr t
    have hne : toString t ≠ "" := by
      show Int.repr t ≠ ""
      cases t <;> simp [Int.repr]
    show (if toString t = "" then none else (toString t).toInt?) = some t
    rw [if_neg hne,hparse]

private theorem allows_withTenant (tenantId : Option Int) (i : Int) :
    (withTenant .app tenantId).allows i = decide (tenantId = some i) := by
  show (false || currentTenantId (tenantSetting tenantId) == some i) = _
  rw [currentTenantId_tenantSetting,Bool.false_or,Bool.beq_eq_decide_eq]

private theorem tenantPolicy_withTenant (tenant : Int) :
    (withTenant .app (some tenant)).tenantPolicy =
    fun row => decide (row.id = tenant) := by
  funext row
  show (withTenant .app (some tenant)).allows row.id = _
  rw [allows_withTenant,decide_eq_decide,Option.some_inj]
  exact eq_comm

private theorem ticketPolicy_withTenant (tenant : Int) :
    (withTenant .app (some tenant)).ticketPolicy =
    fun row => decide (row.columns.tenantId = tenant) := by
  funext row
  show (withTenant .app (some tenant)).allows row.columns.tenantId = _
  rw [allows_withTenant,decide_eq_decide,Option.some_inj]
  exact eq_comm

/-- The rows of one tenant. -/
def Database.ofTenant (d : Database) (tenant : Int) : View :=
  ⟨d.tenants.rows.filter fun row => row.id = tenant,
    d.supportTickets.rows.filter fun row => row.columns.tenantId = tenant⟩

def Database.ofOthers (d : Database) (tenant : Int) : View :=
  ⟨d.tenants.rows.filter fun row => row.id ≠ tenant,
    d.supportTickets.rows.filter fun row => row.columns.tenantId ≠ tenant⟩

private theorem view_withTenant (d : Database) (tenant : Int) :
    d.view (withTenant .app (some tenant)) = d.ofTenant tenant := by
  unfold Database.view Database.ofTenant
  rw [tenantPolicy_withTenant,ticketPolicy_withTenant]

private theorem others_withTenant (d : Database) (tenant : Int) :
    d.others (withTenant .app (some tenant)) = d.ofOthers tenant := by
  unfold Database.others Database.ofOthers
  rw [tenantPolicy_withTenant,ticketPolicy_withTenant]
  simp only [decide_not]

/-- The renaming leaves the tenant's own rows as they are, and no other id is that of the tenant. -/
structure Renaming.Fixes (ρ : Renaming) (tenant : Int) (view : View) : Prop where
  tenantIds : ∀ i, ρ.tenants.id i = tenant ↔ i = tenant
  rows : view.rename ρ = view

theorem Renaming.Fixes.keeps {tenant : Int} {view : View} (h : ρ.Fixes tenant view) :
    ρ.Keeps (withTenant .app (some tenant)) := by
  intro t ht i
  rw [allows_withTenant,decide_eq_true_eq,Option.some_inj] at ht
  rw [← ht]
  exact h.tenantIds i

private theorem Renaming.Fixes.renames {tenant : Int} (h : ρ.Fixes tenant (d.ofTenant tenant))
    (hagree : d.ofTenant tenant = d'.ofTenant tenant) :
    Renames ρ (d.own (withTenant .app (some tenant))) (d'.own (withTenant .app (some tenant))) := by
  have hview : (d.view (withTenant .app (some tenant))).rename ρ =
      d'.view (withTenant .app (some tenant)) := by
    rw [view_withTenant,view_withTenant,h.rows,hagree]
  exact ⟨(congrArg View.tenants hview).symm,(congrArg View.supportTickets hview).symm⟩

private theorem twoRuns {tenant : Int} (hagree : d.ofTenant tenant = d'.ofTenant tenant)
    (hfixes : ρ.Fixes tenant (d.ofTenant tenant))
    (hfits : ρ.Fits (withTenant .app (some tenant)) d d' queries)
    (hunique : .error .unique ∉ (executeAll (withTenant .app (some tenant)) d queries).2)
    (hunique' : .error .unique ∉ (executeAll (withTenant .app (some tenant)) d' queries).2) :
    (executeAll (withTenant .app (some tenant)) d' queries).2 =
        (executeAll (withTenant .app (some tenant)) d queries).2.map (QueryResult.rename ρ) ∧
      (executeAll (withTenant .app (some tenant)) d' queries).1.ofTenant tenant =
        ((executeAll (withTenant .app (some tenant)) d queries).1.ofTenant tenant).rename ρ := by
  obtain ⟨hfinal,hresults⟩ := executeAll_rename (hfixes.renames hagree) hfixes.keeps hfits
    hunique hunique'
  refine ⟨hresults,?_⟩
  rw [← view_withTenant,← view_withTenant]
  exact congrArg₂ View.mk hfinal.tenants hfinal.tickets

private theorem twoRuns_sameSupply {tenant : Int} (hagree : d.ofTenant tenant = d'.ofTenant tenant)
    (htenants : d.tenants.supply = d'.tenants.supply)
    (htickets : d.supportTickets.supply = d'.supportTickets.supply)
    (hunique : .error .unique ∉ (executeAll (withTenant .app (some tenant)) d queries).2)
    (hunique' : .error .unique ∉ (executeAll (withTenant .app (some tenant)) d' queries).2) :
    (executeAll (withTenant .app (some tenant)) d' queries).2 =
        (executeAll (withTenant .app (some tenant)) d queries).2 ∧
      (executeAll (withTenant .app (some tenant)) d' queries).1.ofTenant tenant =
        (executeAll (withTenant .app (some tenant)) d queries).1.ofTenant tenant := by
  have hview : d.view (withTenant .app (some tenant)) = d'.view (withTenant .app (some tenant)) := by
    rw [view_withTenant,view_withTenant,hagree]
  have hown : d.own (withTenant .app (some tenant)) = d'.own (withTenant .app (some tenant)) :=
    congrArg₂ Database.mk (congrArg₂ Table.mk (congrArg View.tenants hview) htenants)
      (congrArg₂ Table.mk (congrArg View.supportTickets hview) htickets)
  have hruns := executeAll_own hunique
  rw [hown,executeAll_own hunique'] at hruns
  obtain ⟨hfinal,hresults⟩ := Prod.mk.inj hruns
  refine ⟨hresults,?_⟩
  rw [← view_withTenant,← view_withTenant]
  exact congrArg (fun e : Database => View.mk e.tenants.rows e.supportTickets.rows) hfinal

private theorem executeAll_ofOthers (d : Database) (tenant : Int) (queries : List (Int × Query)) :
    (executeAll (withTenant .app (some tenant)) d queries).1.ofOthers tenant =
      d.ofOthers tenant := by
  rw [← others_withTenant,← others_withTenant]
  exact executeAll_others

/-! ## No tenant -/

private theorem fillRows_hidden {check : Row π → Bool} (hcheck : ∀ row, check row = false)
    {supply supply' : Supply} {values : List (NewRow π)} {written : List (Row π)}
    (hfill : fillRows now check supply values = (some written,supply')) : written = [] := by
  cases values with
  | nil =>
    cases hfill
    rfl
  | cons first values =>
    simp only [fillRows,hcheck,Bool.false_eq_true,if_false,Prod.mk.injEq] at hfill
    cases hfill.1

private theorem conclude_rowCount {failed written : Database} {unique references : Bool}
    {result : QueryResult} (h : result.rowCount = 0) :
    (Database.conclude failed written unique references result).2.rowCount = 0 := by
  unfold Database.conclude
  split
  · split
    · exact h
    · rfl
  · rfl

private theorem writeTenants_hidden (hs : ∀ i, s.allows i = false) (target : TenantRow → Bool)
    (values : List (NewRow TenantColumns)) :
    (d.writeTenants s now target values).2.rowCount = 0 := by
  have hpolicy : ∀ row, s.tenantPolicy row = false := fun row => hs row.id
  unfold Database.writeTenants
  cases hfill : fillRows now s.tenantPolicy d.tenants.supply values with
  | mk filled supply =>
    cases filled with
    | none => rfl
    | some written =>
      have hempty := fillRows_hidden hpolicy hfill
      subst hempty
      exact conclude_rowCount rfl

private theorem writeTickets_hidden (hs : ∀ i, s.allows i = false) (target : TicketRow → Bool)
    (values : List (NewRow TicketColumns)) :
    (d.writeTickets s now target values).2.rowCount = 0 := by
  have hpolicy : ∀ row, s.ticketPolicy row = false := fun row => hs row.columns.tenantId
  unfold Database.writeTickets
  cases hfill : fillRows now s.ticketPolicy d.supportTickets.supply values with
  | mk filled supply =>
    cases filled with
    | none => rfl
    | some written =>
      have hempty := fillRows_hidden hpolicy hfill
      subst hempty
      exact conclude_rowCount rfl

private theorem view_hidden (hs : ∀ i, s.allows i = false) (d : Database) : d.view s = ⟨[],[]⟩ := by
  unfold Database.view
  congr 1
  · exact List.filter_eq_nil_iff.mpr fun row _ => Bool.eq_false_iff.mp (hs row.id)
  · exact List.filter_eq_nil_iff.mpr fun row _ => Bool.eq_false_iff.mp (hs row.columns.tenantId)

private theorem execute_hidden (hs : ∀ i, s.allows i = false) (q : Query) :
    (execute s now d q).2.rowCount = 0 := by
  have hview := view_hidden hs d
  unfold execute
  split
  · cases q with
    | selectTenants condition =>
      dsimp only [Query.run]
      rw [hview]
      rfl
    | selectTickets condition =>
      dsimp only [Query.run]
      rw [hview]
      rfl
    | insertTenants values => exact writeTenants_hidden hs _ _
    | insertTickets values => exact writeTickets_hidden hs _ _
    | updateTenants condition set => exact writeTenants_hidden hs _ _
    | updateTickets condition set => exact writeTickets_hidden hs _ _
    | deleteTenants condition =>
      dsimp only [Query.run]
      rw [hview]
      rfl
    | deleteTickets condition =>
      dsimp only [Query.run]
      rw [hview]
      rfl
  · rfl

private theorem executeAll_hidden (hs : ∀ i, s.allows i = false) :
    ∀ result ∈ (executeAll s d queries).2, result.rowCount = 0 := by
  induction queries generalizing d with
  | nil => exact fun _ hresult => absurd hresult List.not_mem_nil
  | cons q queries ih =>
    rw [executeAll_cons]
    intro result hresult
    rcases List.mem_cons.mp hresult with rfl | hresult
    · exact execute_hidden hs q.2
    · exact ih result hresult

private theorem others_hidden (hs : ∀ i, s.allows i = false) (d : Database) :
    d.others s = ⟨d.tenants.rows,d.supportTickets.rows⟩ := by
  unfold Database.others
  congr 1
  · apply List.filter_eq_self.mpr
    intro row _
    show (!s.allows row.id) = true
    rw [hs]
    rfl
  · apply List.filter_eq_self.mpr
    intro row _
    show (!s.allows row.columns.tenantId) = true
    rw [hs]
    rfl

/-! ## What a tenant learns of the others -/

/-- If one tenant's rows agree in two databases, the two runs have the same results and leave the
same rows of the tenant, up to the ids that the server has generated, and neither touches the rows
of another tenant. When both servers give out the same, nothing is renamed. A session without a
tenant sees and changes nothing. -/
theorem tenants_isolated :
    (∀ (tenant : Int) (d d' : Database) (ρ : Renaming) (queries : List (Int × Query)),
      d.ofTenant tenant = d'.ofTenant tenant → ρ.Fixes tenant (d.ofTenant tenant) →
      ρ.Fits (withTenant .app (some tenant)) d d' queries →
      .error .unique ∉ (executeAll (withTenant .app (some tenant)) d queries).2 →
      .error .unique ∉ (executeAll (withTenant .app (some tenant)) d' queries).2 →
      (executeAll (withTenant .app (some tenant)) d' queries).2 =
          (executeAll (withTenant .app (some tenant)) d queries).2.map (QueryResult.rename ρ) ∧
        (executeAll (withTenant .app (some tenant)) d' queries).1.ofTenant tenant =
          ((executeAll (withTenant .app (some tenant)) d queries).1.ofTenant tenant).rename ρ) ∧
    (∀ (tenant : Int) (d d' : Database) (queries : List (Int × Query)),
      d.ofTenant tenant = d'.ofTenant tenant → d.tenants.supply = d'.tenants.supply →
      d.supportTickets.supply = d'.supportTickets.supply →
      .error .unique ∉ (executeAll (withTenant .app (some tenant)) d queries).2 →
      .error .unique ∉ (executeAll (withTenant .app (some tenant)) d' queries).2 →
      (executeAll (withTenant .app (some tenant)) d' queries).2 =
          (executeAll (withTenant .app (some tenant)) d queries).2 ∧
        (executeAll (withTenant .app (some tenant)) d' queries).1.ofTenant tenant =
          (executeAll (withTenant .app (some tenant)) d queries).1.ofTenant tenant) ∧
    (∀ (tenant : Int) (d : Database) (queries : List (Int × Query)),
      (executeAll (withTenant .app (some tenant)) d queries).1.ofOthers tenant =
        d.ofOthers tenant) ∧
    ∀ (d : Database) (queries : List (Int × Query)),
      (∀ result ∈ (executeAll (withTenant .app none) d queries).2, result.rowCount = 0) ∧
        (executeAll (withTenant .app none) d queries).1.tenants.rows = d.tenants.rows ∧
        (executeAll (withTenant .app none) d queries).1.supportTickets.rows =
          d.supportTickets.rows := by
  refine ⟨?_,?_,?_,?_⟩
  · intro tenant d d' ρ queries hagree hfixes hfits hunique hunique'
    exact twoRuns hagree hfixes hfits hunique hunique'
  · intro tenant d d' queries hagree htenants htickets hunique hunique'
    exact twoRuns_sameSupply hagree htenants htickets hunique hunique'
  · exact fun tenant d queries => executeAll_ofOthers d tenant queries
  · intro d queries
    have hs : ∀ i, (withTenant .app none).allows i = false := by
      intro i
      rw [allows_withTenant]
      rfl
    have hothers : (executeAll (withTenant .app none) d queries).1.others _ = d.others _ :=
      executeAll_others
    rw [others_hidden hs,others_hidden hs] at hothers
    exact ⟨executeAll_hidden hs,congrArg View.tenants hothers,
      congrArg View.supportTickets hothers⟩

def acme : TenantRow := ⟨1,"acme",0,⟨"Acme","acme"⟩⟩

def globex : TenantRow := ⟨2,"globex",0,⟨"Globex","globex"⟩⟩

def outage : TicketRow := ⟨1,"outage",0,{ tenantId := 2, subject := "outage", body := "" }⟩

def acmeAlone : Database :=
  ⟨⟨[acme],{ next := 2, uuids := fun i => toString i }⟩,
    ⟨[],{ next := 1, uuids := fun i => toString i }⟩⟩

/-- Globex has drawn an id from both sequences. -/
def acmeAndGlobex : Database :=
  ⟨⟨[acme,globex],{ next := 3, uuids := fun i => toString i }⟩,
    ⟨[outage],{ next := 2, uuids := fun i => toString i }⟩⟩

def login : NewRow TicketColumns :=
  { columns := { tenantId := 1, subject := "login", body := "" } }

/-- The ticket of Acme has the next id when Globex has drawn the first one. -/
def drawnByGlobex : Renaming :=
  ⟨⟨id,id⟩,⟨fun i => if i = 1 then 2 else i,id⟩⟩

/-- Acme opens a ticket, closes all it has, and looks, also for an id that nobody has drawn. -/
def openAndClose : List (Int × Query) :=
  [(5,.insertTickets fun _ => [login]),
    (6,.updateTickets (fun _ _ => true) fun _ row =>
      ⟨false,some row.publicId,some row.createdAt,{ row.columns with status := "closed" }⟩),
    (7,.selectTickets fun _ row => row.columns.status = "closed"),
    (8,.selectTickets fun _ row => row.id = 7)]

/-- Nobody draws an id, so a statement may also look for the ticket of Globex. -/
def lookForOutage : List (Int × Query) := [(5,.selectTickets fun _ row => row.id = outage.id)]

theorem openAndClose_isolated :
    (executeAll (withTenant .app (some 1)) acmeAndGlobex openAndClose).2 =
        (executeAll (withTenant .app (some 1)) acmeAlone openAndClose).2.map
          (QueryResult.rename drawnByGlobex) ∧
      (executeAll (withTenant .app (some 1)) acmeAndGlobex lookForOutage).2 =
        (executeAll (withTenant .app (some 1)) acmeAlone lookForOutage).2.map
          (QueryResult.rename ⟨⟨id,id⟩,⟨id,id⟩⟩) := by
  have hfits : drawnByGlobex.Fits (withTenant .app (some 1)) acmeAlone acmeAndGlobex
      openAndClose := by
    simp only [openAndClose,Renaming.Fits,execute,Query.run,Query.privilege,Database.writeTickets,
      Database.view,tenantPolicy_withTenant,ticketPolicy_withTenant]
    refine ⟨rfl,⟨?_,?_,?_⟩,?_,.undrawn rfl rfl,?_,.undrawn rfl rfl,?_,.undrawn rfl rfl,trivial⟩
    · exact (Identity.Spares.undrawn rfl)
    · exact fun _ => .undrawn rfl rfl
    · refine fun _ => ⟨fun i hi => ?_,fun i hi => ?_⟩
      · have hi : (1 : Int) + i < 2 := hi
        obtain rfl : i = 0 := by omega
        rfl
      · rfl
    · exact fun _ _ => ⟨rfl,rfl⟩
    · exact fun _ _ => rfl
    · intro row _
      show decide ((if row.id = 1 then 2 else row.id) = 7) = decide (row.id = 7)
      rw [decide_eq_decide]
      split <;> omega
  have hlook : Renaming.Fits ⟨⟨id,id⟩,⟨id,id⟩⟩ (withTenant .app (some 1)) acmeAlone acmeAndGlobex
      lookForOutage := by
    refine ⟨?_,.undrawn rfl rfl,trivial⟩
    exact fun _ _ => rfl
  refine ⟨(tenants_isolated.1 1 acmeAlone acmeAndGlobex drawnByGlobex openAndClose rfl
    ⟨fun _ => Iff.rfl,rfl⟩ hfits ?_ ?_).1,
    (tenants_isolated.1 1 acmeAlone acmeAndGlobex ⟨⟨id,id⟩,⟨id,id⟩⟩ lookForOutage rfl
      ⟨fun _ => Iff.rfl,rfl⟩ hlook ?_ ?_).1⟩
  · simp only [executeAll,execute,openAndClose,Query.run,Query.privilege,Database.writeTickets,
      Database.view,tenantPolicy_withTenant,ticketPolicy_withTenant]
    decide +kernel
  · simp only [executeAll,execute,openAndClose,Query.run,Query.privilege,Database.writeTickets,
      Database.view,tenantPolicy_withTenant,ticketPolicy_withTenant]
    decide +kernel
  · simp [lookForOutage,executeAll,execute,Query.run,withTenant,RoleName.granted]
  · simp [lookForOutage,executeAll,execute,Query.run,withTenant,RoleName.granted]

/-- A new ticket gets the id 1 unless somebody else has drawn it. -/
theorem sharedSequence_observable : ¬ ∀ (tenant : Int) (d d' : Database)
    (queries : List (Int × Query)), d.ofTenant tenant = d'.ofTenant tenant →
      .error .unique ∉ (executeAll (withTenant .app (some tenant)) d queries).2 →
      .error .unique ∉ (executeAll (withTenant .app (some tenant)) d' queries).2 →
      (executeAll (withTenant .app (some tenant)) d queries).2.map QueryResult.rowCount =
        (executeAll (withTenant .app (some tenant)) d' queries).2.map QueryResult.rowCount := by
  intro hclaim
  have hcounts := hclaim 1 acmeAlone acmeAndGlobex
    [(5,.insertTickets fun _ => [login]),(6,.selectTickets fun _ row => row.id = 1)] rfl
  simp only [executeAll,execute,Query.run,Query.privilege,Database.writeTickets,
    Database.view,tenantPolicy_withTenant,ticketPolicy_withTenant] at hcounts
  revert hcounts
  decide +kernel

end SystemsLab.Tenancy
