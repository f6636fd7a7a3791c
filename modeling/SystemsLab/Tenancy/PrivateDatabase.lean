import SystemsLab.Tenancy.RowSecurity

/-!
# A tenant's private database

Under row level security the shared database is to a tenant what a private one would be: a
statement has the result that it has on the tenant's own rows, leaves what it leaves there, and
leaves all other rows alone. Only a unique constraint looks at the rows of everybody.
-/

namespace SystemsLab.Tenancy

variable {π : Type} {s : Identity} {d : Database} {now : Int}

section Replace

variable {policy target : Row π → Bool} (rows : List (Row π)) {written : List (Row π)}

private theorem filter_hidden (htarget : ∀ row, target row = true → policy row = true)
    (hwritten : ∀ row ∈ written, policy row = true) :
    (rows.filter (fun row => !target row) ++ written).filter (fun row => !policy row) =
      rows.filter fun row => !policy row := by
  have hnone : written.filter (fun row => !policy row) = [] := by
    rw [List.filter_eq_nil_iff]
    intro row hrow
    simp [hwritten row hrow]
  rw [List.filter_append,hnone,List.append_nil,List.filter_filter]
  apply List.filter_congr
  intro row _
  cases hp : policy row with
  | true => rfl
  | false =>
    cases ht : target row with
    | true =>
      rw [htarget row ht] at hp
      cases hp
    | false => rfl

private theorem filter_shown (target : Row π → Bool)
    (hwritten : ∀ row ∈ written, policy row = true) :
    (rows.filter (fun row => !target row) ++ written).filter policy =
      (rows.filter policy).filter (fun row => !target row) ++ written := by
  have hall : written.filter policy = written := List.filter_eq_self.mpr hwritten
  rw [List.filter_append,hall,List.filter_filter,List.filter_filter]
  congr 1
  apply List.filter_congr
  intro row _
  exact Bool.and_comm _ _

private theorem filter_hidden_removed (htarget : ∀ row, target row = true → policy row = true) :
    (rows.filter fun row => !target row).filter (fun row => !policy row) =
      rows.filter fun row => !policy row := by
  have h := filter_hidden rows htarget fun _ hrow => absurd hrow List.not_mem_nil
  rwa [List.append_nil] at h

private theorem filter_shown_removed (policy target : Row π → Bool) :
    (rows.filter fun row => !target row).filter policy =
      (rows.filter policy).filter fun row => !target row := by
  have hnone : ∀ row ∈ ([] : List (Row π)), policy row = true :=
    fun _ hrow => absurd hrow List.not_mem_nil
  have h := filter_shown rows target hnone
  rwa [List.append_nil,List.append_nil] at h

end Replace

theorem fillRows_check {check : Row π → Bool} {values : List (NewRow π)} {supply supply' : Supply}
    {written : List (Row π)} (h : fillRows now check supply values = (some written,supply')) :
    ∀ row ∈ written, check row = true := by
  induction values generalizing supply written with
  | nil =>
    cases h
    exact fun _ hrow => absurd hrow List.not_mem_nil
  | cons first values ih =>
    simp only [fillRows] at h
    split at h
    · rename_i hfirst
      cases hrest : fillRows now check (first.fill now supply).2 values with
      | mk rest supply'' =>
        rw [hrest] at h
        cases rest with
        | none => cases h
        | some rest =>
          cases h
          intro row hrow
          rcases List.mem_cons.mp hrow with rfl | hrow
          · exact hfirst
          · exact ih hrest row hrow
    · cases h

/-- The rows that the policies hide. -/
def Database.others (d : Database) (s : Identity) : View :=
  ⟨d.tenants.rows.filter fun row => !s.tenantPolicy row,
    d.supportTickets.rows.filter fun row => !s.ticketPolicy row⟩

private theorem conclude_others {failed written : Database} (unique references : Bool)
    (result : QueryResult) (hfailed : failed.others s = d.others s)
    (hwritten : written.others s = d.others s) :
    (Database.conclude failed written unique references result).1.others s = d.others s := by
  unfold Database.conclude
  split
  · split
    · exact hwritten
    · exact hfailed
  · exact hfailed

private theorem writeTenants_others {target : TenantRow → Bool}
    (values : List (NewRow TenantColumns))
    (htarget : ∀ row, target row = true → s.tenantPolicy row = true) :
    (d.writeTenants s now target values).1.others s = d.others s := by
  unfold Database.writeTenants
  cases hfill : fillRows now s.tenantPolicy d.tenants.supply values with
  | mk filled supply =>
    cases filled with
    | none => rfl
    | some written =>
      apply conclude_others
      · rfl
      · exact congrArg (View.mk · _) (filter_hidden _ htarget (fillRows_check hfill))

private theorem writeTickets_others {target : TicketRow → Bool}
    (values : List (NewRow TicketColumns))
    (htarget : ∀ row, target row = true → s.ticketPolicy row = true) :
    (d.writeTickets s now target values).1.others s = d.others s := by
  unfold Database.writeTickets
  cases hfill : fillRows now s.ticketPolicy d.supportTickets.supply values with
  | mk filled supply =>
    cases filled with
    | none => rfl
    | some written =>
      apply conclude_others
      · rfl
      · exact congrArg (View.mk _ ·) (filter_hidden _ htarget (fillRows_check hfill))

private theorem policy_of_and {policy condition : Row π → Bool} (row : Row π)
    (h : (policy row && condition row) = true) : policy row = true :=
  (Bool.and_eq_true_iff.mp h).1

/-- A ticket whose tenant can be seen can be seen. -/
theorem ticketPolicy_of_referenced {tenants : List TenantRow}
    (htenants : ∀ tenant ∈ tenants, s.tenantPolicy tenant = true) {ticket : TicketRow}
    (h : referenced tenants ticket = true) : s.ticketPolicy ticket = true := by
  obtain ⟨tenant,htenant,hid⟩ := List.any_eq_true.mp h
  have hallowed : s.allows tenant.id = true := htenants tenant htenant
  rw [beq_iff_eq] at hid
  rw [hid] at hallowed
  exact hallowed

theorem run_others (q : Query) : (q.run s now d).1.others s = d.others s := by
  cases q with
  | selectTenants condition => rfl
  | selectTickets condition => rfl
  | insertTenants values => exact writeTenants_others _ fun _ h => nomatch h
  | insertTickets values => exact writeTickets_others _ fun _ h => nomatch h
  | updateTenants condition set => exact writeTenants_others _ policy_of_and
  | updateTickets condition set => exact writeTickets_others _ policy_of_and
  | deleteTenants condition =>
    have hdeleted : ∀ tenant ∈ (d.view s).tenants.filter (condition (d.view s)),
        s.tenantPolicy tenant = true :=
      fun tenant htenant => (List.mem_filter.mp (List.mem_of_mem_filter htenant)).2
    have htenants : (d.tenants.rows.filter fun row =>
          !(s.tenantPolicy row && condition (d.view s) row)).filter (fun row => !s.tenantPolicy row) =
        d.tenants.rows.filter fun row => !s.tenantPolicy row :=
      filter_hidden_removed _ policy_of_and
    have htickets : (d.supportTickets.rows.filter fun ticket => !referenced _ ticket).filter
          (fun row => !s.ticketPolicy row) =
        d.supportTickets.rows.filter fun row => !s.ticketPolicy row :=
      filter_hidden_removed _ fun ticket => ticketPolicy_of_referenced hdeleted
    exact congrArg₂ View.mk htenants htickets
  | deleteTickets condition =>
    exact congrArg (View.mk _ ·) (filter_hidden_removed _ policy_of_and)

/-- The rows that the policies show, on their own. -/
def Database.own (d : Database) (s : Identity) : Database :=
  ⟨⟨d.tenants.rows.filter s.tenantPolicy,d.tenants.supply⟩,
    ⟨d.supportTickets.rows.filter s.ticketPolicy,d.supportTickets.supply⟩⟩

theorem view_own : (d.own s).view s = d.view s := by
  unfold Database.view Database.own
  dsimp only
  rw [List.filter_filter,List.filter_filter]
  simp only [Bool.and_self]

/-- Of the tenants that a visible ticket can reference, all are visible. -/
theorem referenced_filter (tenants : List TenantRow) {ticket : TicketRow}
    (h : s.ticketPolicy ticket = true) :
    referenced (tenants.filter s.tenantPolicy) ticket = referenced tenants ticket := by
  unfold referenced
  rw [List.any_filter]
  congr 1
  funext tenant
  cases hid : tenant.id == ticket.columns.tenantId with
  | false => exact Bool.and_false _
  | true =>
    have hallowed : s.allows ticket.columns.tenantId = true := h
    rw [beq_iff_eq] at hid
    rw [Bool.and_true]
    show s.allows tenant.id = true
    rw [hid]
    exact hallowed

private theorem keepsReference_hidden {target : TenantRow → Bool} (written : List TenantRow)
    (htarget : ∀ row, target row = true → s.tenantPolicy row = true) {ticket : TicketRow}
    (hticket : s.ticketPolicy ticket = false) :
    (!referenced d.tenants.rows ticket ||
      referenced (d.tenants.rows.filter (fun row => !target row) ++ written) ticket) = true := by
  cases href : referenced d.tenants.rows ticket with
  | false => rfl
  | true =>
    obtain ⟨tenant,htenant,hid⟩ := List.any_eq_true.mp href
    have hid' : tenant.id = ticket.columns.tenantId := by simpa using hid
    have hkept : target tenant = false := by
      cases ht : target tenant with
      | false => rfl
      | true =>
        have hallowed : s.allows tenant.id = true := htarget tenant ht
        have hforbidden : s.allows ticket.columns.tenantId = false := hticket
        rw [hid',hforbidden] at hallowed
        cases hallowed
    apply List.any_eq_true.mpr
    refine ⟨tenant,List.mem_append_left _ (List.mem_filter.mpr ⟨htenant,?_⟩),hid⟩
    rw [hkept]
    rfl

private theorem keepsReferences_own {target : TenantRow → Bool} (written : List TenantRow)
    (htarget : ∀ row, target row = true → s.tenantPolicy row = true) :
    (d.own s).keepsReferences
        ((d.tenants.rows.filter (fun row => !target row) ++ written).filter s.tenantPolicy) =
      d.keepsReferences (d.tenants.rows.filter (fun row => !target row) ++ written) := by
  have hvisible : ∀ ticket : TicketRow, s.ticketPolicy ticket = true →
      (!referenced (d.tenants.rows.filter s.tenantPolicy) ticket ||
        referenced ((d.tenants.rows.filter (fun row => !target row) ++ written).filter
          s.tenantPolicy) ticket) =
      (!referenced d.tenants.rows ticket ||
        referenced (d.tenants.rows.filter (fun row => !target row) ++ written) ticket) := by
    intro ticket hticket
    rw [referenced_filter _ hticket,referenced_filter _ hticket]
  unfold Database.keepsReferences
  rw [Bool.eq_iff_iff,List.all_eq_true,List.all_eq_true]
  constructor
  · intro h ticket hticket
    cases hpolicy : s.ticketPolicy ticket with
    | false => exact keepsReference_hidden written htarget hpolicy
    | true =>
      rw [← hvisible ticket hpolicy]
      exact h ticket (List.mem_filter.mpr ⟨hticket,hpolicy⟩)
  · intro h ticket hticket
    obtain ⟨hmem,hpolicy⟩ := List.mem_filter.mp hticket
    have hall := h ticket hmem
    rw [← hvisible ticket hpolicy] at hall
    exact hall

private theorem conclude_own {failed written : Database}
    {unique unique' references references' : Bool}
    {result : QueryResult} (hunique : unique = true → unique' = true)
    (hreferences : references' = references)
    (h : (Database.conclude failed written unique references result).2 ≠ .error .unique) :
    Database.conclude (failed.own s) (written.own s) unique' references' result =
      ((Database.conclude failed written unique references result).1.own s,
        (Database.conclude failed written unique references result).2) := by
  unfold Database.conclude at h ⊢
  cases unique with
  | false => exact absurd rfl h
  | true =>
    rw [hunique rfl,hreferences]
    cases references <;> rfl

private theorem nodup_own {κ : Type} [DecidableEq κ] (key : Row π → κ)
    {policy target : Row π → Bool}
    {rows written : List (Row π)}
    (h : ((rows.filter (fun row => !target row) ++ written).map key).Nodup) :
    (((rows.filter policy).filter (fun row => !target row) ++ written).map key).Nodup := by
  have hrows : List.Sublist ((rows.filter policy).filter (fun row => !target row) ++ written)
      (rows.filter (fun row => !target row) ++ written) :=
    (List.filter_sublist.filter _).append (List.Sublist.refl written)
  exact List.Nodup.sublist (hrows.map key) h

private theorem writeTenants_own {target : TenantRow → Bool} {values : List (NewRow TenantColumns)}
    (htarget : ∀ row, target row = true → s.tenantPolicy row = true)
    (h : (d.writeTenants s now target values).2 ≠ .error .unique) :
    (d.own s).writeTenants s now target values =
      ((d.writeTenants s now target values).1.own s,(d.writeTenants s now target values).2) := by
  unfold Database.writeTenants at h ⊢
  have hsupply : (d.own s).tenants.supply = d.tenants.supply := rfl
  rw [hsupply]
  cases hfill : fillRows now s.tenantPolicy d.tenants.supply values with
  | mk filled supply =>
    rw [hfill] at h
    cases filled with
    | none => rfl
    | some written =>
      have hshown := filter_shown d.tenants.rows target (fillRows_check hfill)
      have hreferences := keepsReferences_own (d := d) written htarget
      rw [hshown] at hreferences
      dsimp only at h ⊢
      have hwritten : (d.setTenants (d.tenants.rows.filter (fun row => !target row) ++ written)
          supply).own s = (d.own s).setTenants
            ((d.tenants.rows.filter s.tenantPolicy).filter (fun row => !target row) ++ written)
            supply :=
        congrArg (Database.mk ⟨·,supply⟩ _) hshown
      rw [← conclude_own (s := s) _ hreferences h,hwritten]
      · rfl
      · intro hunique
        unfold tenantsUnique at hunique ⊢
        rw [decide_eq_true_eq] at hunique ⊢
        exact ⟨nodup_own _ hunique.1,nodup_own _ hunique.2.1,nodup_own _ hunique.2.2⟩

private theorem writeTickets_own {target : TicketRow → Bool} {values : List (NewRow TicketColumns)}
    (h : (d.writeTickets s now target values).2 ≠ .error .unique) :
    (d.own s).writeTickets s now target values =
      ((d.writeTickets s now target values).1.own s,(d.writeTickets s now target values).2) := by
  unfold Database.writeTickets at h ⊢
  have hsupply : (d.own s).supportTickets.supply = d.supportTickets.supply := rfl
  rw [hsupply]
  cases hfill : fillRows now s.ticketPolicy d.supportTickets.supply values with
  | mk filled supply =>
    rw [hfill] at h
    cases filled with
    | none => rfl
    | some written =>
      have hcheck := fillRows_check hfill
      have hshown := filter_shown d.supportTickets.rows target hcheck
      have hreferences : written.all (referenced (d.tenants.rows.filter s.tenantPolicy)) =
          written.all (referenced d.tenants.rows) := by
        rw [Bool.eq_iff_iff,List.all_eq_true,List.all_eq_true]
        apply forall₂_congr
        intro ticket hticket
        rw [referenced_filter _ (hcheck ticket hticket)]
      dsimp only at h ⊢
      have hwritten : (d.setTickets
          (d.supportTickets.rows.filter (fun row => !target row) ++ written) supply).own s =
          (d.own s).setTickets
            ((d.supportTickets.rows.filter s.ticketPolicy).filter (fun row => !target row) ++
              written) supply :=
        congrArg (Database.mk _ ⟨·,supply⟩) hshown
      rw [← conclude_own (s := s) _ hreferences h,hwritten]
      · rfl
      · intro hunique
        unfold ticketsUnique at hunique ⊢
        rw [decide_eq_true_eq] at hunique ⊢
        exact ⟨nodup_own _ hunique.1,nodup_own _ hunique.2⟩

/-- A statement has the same result on the private database, and leaves there what it leaves of
the tenant's rows. -/
theorem run_own {q : Query} (h : (q.run s now d).2 ≠ .error .unique) :
    q.run s now (d.own s) = ((q.run s now d).1.own s,(q.run s now d).2) := by
  have hview := view_own (d := d) (s := s)
  cases q with
  | selectTenants condition =>
    unfold Query.run
    rw [hview]
  | selectTickets condition =>
    unfold Query.run
    rw [hview]
  | insertTenants values =>
    unfold Query.run at h ⊢
    rw [hview]
    exact writeTenants_own (fun _ hrow => nomatch hrow) h
  | insertTickets values =>
    unfold Query.run at h ⊢
    rw [hview]
    exact writeTickets_own h
  | updateTenants condition set =>
    unfold Query.run at h ⊢
    rw [hview]
    exact writeTenants_own policy_of_and h
  | updateTickets condition set =>
    unfold Query.run at h ⊢
    rw [hview]
    exact writeTickets_own h
  | deleteTenants condition =>
    unfold Query.run
    rw [hview]
    have htenants := filter_shown_removed d.tenants.rows s.tenantPolicy
      fun row => s.tenantPolicy row && condition (d.view s) row
    have htickets := filter_shown_removed d.supportTickets.rows s.ticketPolicy
      (referenced ((d.view s).tenants.filter (condition (d.view s))))
    unfold Database.own Database.setTenants Database.setTickets
    dsimp only
    rw [htenants,htickets]
  | deleteTickets condition =>
    unfold Query.run
    rw [hview]
    have htickets := filter_shown_removed d.supportTickets.rows s.ticketPolicy
      fun row => s.ticketPolicy row && condition (d.view s) row
    unfold Database.own Database.setTickets
    dsimp only
    rw [htickets]

theorem execute_own {q : Query} (h : (execute s now d q).2 ≠ .error .unique) :
    execute s now (d.own s) q = ((execute s now d q).1.own s,(execute s now d q).2) := by
  unfold execute at h ⊢
  split at h
  · rename_i hgranted
    rw [if_pos hgranted,if_pos hgranted]
    exact run_own h
  · rename_i hdenied
    rw [if_neg hdenied,if_neg hdenied]

private theorem execute_others (q : Query) : (execute s now d q).1.others s = d.others s := by
  unfold execute
  split
  · exact run_others q
  · rfl

variable {queries : List (Int × Query)}

theorem executeAll_cons (q : Int × Query) : executeAll s d (q::queries) =
    ((executeAll s (execute s q.1 d q.2).1 queries).1,
      (execute s q.1 d q.2).2::(executeAll s (execute s q.1 d q.2).1 queries).2) := rfl

theorem executeAll_own (h : .error .unique ∉ (executeAll s d queries).2) :
    executeAll s (d.own s) queries =
      ((executeAll s d queries).1.own s,(executeAll s d queries).2) := by
  induction queries generalizing d with
  | nil => rfl
  | cons q queries ih =>
    rw [executeAll_cons,List.mem_cons,not_or] at h
    rw [executeAll_cons,executeAll_cons,execute_own (Ne.symm h.1),ih h.2]

theorem executeAll_others : (executeAll s d queries).1.others s = d.others s := by
  induction queries generalizing d with
  | nil => rfl
  | cons q queries ih =>
    rw [executeAll_cons]
    exact ih.trans (execute_others q.2)

end SystemsLab.Tenancy
