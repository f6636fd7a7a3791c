import Mathlib
import SystemsLab.Tenancy.PrivateDatabase

/-!
# Generated ids under other names

The ids of new rows come from sequences that all tenants share, so two runs may draw different
ones. A renaming says which ids of one run correspond to which of the other.
-/

namespace SystemsLab.Tenancy

variable {π : Type} {s : Identity} {now : Int}

/-- How the generated ids of one run correspond to those of another, in one table. -/
structure RowRenaming where
  id : Int → Int
  publicId : String → String

structure Renaming where
  tenants : RowRenaming
  tickets : RowRenaming

def Row.rename (f : RowRenaming) (row : Row π) : Row π :=
  { row with id := f.id row.id, publicId := f.publicId row.publicId }

def NewRow.rename (f : RowRenaming) (values : NewRow π) : NewRow π :=
  { values with id := values.id.map f.id, publicId := values.publicId.map f.publicId }

def Assignment.rename (f : RowRenaming) (values : Assignment π) : Assignment π :=
  { values with publicId := values.publicId.map f.publicId }

def View.rename (ρ : Renaming) (view : View) : View :=
  ⟨view.tenants.map (Row.rename ρ.tenants),view.supportTickets.map (Row.rename ρ.tickets)⟩

def QueryResult.rename (ρ : Renaming) : QueryResult → QueryResult
  | .tenants rows => .tenants (rows.map (Row.rename ρ.tenants))
  | .tickets rows => .tickets (rows.map (Row.rename ρ.tickets))
  | .error e => .error e

/-- At what it sees in one run, the statement does not tell ids apart that the renaming confuses. -/
def Query.Respects (ρ : Renaming) (view : View) : Query → Prop
  | .selectTenants condition => ∀ row ∈ view.tenants,
      condition (view.rename ρ) (row.rename ρ.tenants) = condition view row
  | .selectTickets condition => ∀ row ∈ view.supportTickets,
      condition (view.rename ρ) (row.rename ρ.tickets) = condition view row
  | .insertTenants values =>
      values (view.rename ρ) = (values view).map (NewRow.rename ρ.tenants)
  | .insertTickets values =>
      values (view.rename ρ) = (values view).map (NewRow.rename ρ.tickets)
  | .updateTenants condition set => ∀ row ∈ view.tenants,
      condition (view.rename ρ) (row.rename ρ.tenants) = condition view row ∧
        set (view.rename ρ) (row.rename ρ.tenants) = (set view row).rename ρ.tenants
  | .updateTickets condition set => ∀ row ∈ view.supportTickets,
      condition (view.rename ρ) (row.rename ρ.tickets) = condition view row ∧
        set (view.rename ρ) (row.rename ρ.tickets) = (set view row).rename ρ.tickets
  | .deleteTenants condition => ∀ row ∈ view.tenants,
      condition (view.rename ρ) (row.rename ρ.tenants) = condition view row
  | .deleteTickets condition => ∀ row ∈ view.supportTickets,
      condition (view.rename ρ) (row.rename ρ.tickets) = condition view row

variable {f : RowRenaming} {supply supply' last : Supply}

/-- Where one run draws an id or a UUID before it has come to `last`, the other draws its name. -/
structure RowRenaming.Links (f : RowRenaming) (supply last supply' : Supply) : Prop where
  id : ∀ i : Nat, supply.next + i < last.next → f.id (supply.next + i) = supply'.next + i
  publicId : ∀ i : Nat, supply.drawn + i < last.drawn →
    f.publicId (supply.uuids (supply.drawn + i)) = supply'.uuids (supply'.drawn + i)

/-- An id that the session speaks for is drawn in both runs or in none. -/
def Identity.Spares (s : Identity) (supply last supply' : Supply) : Prop :=
  ∀ i : Nat, supply.next + i < last.next → ∀ t, s.allows t = true →
    (supply.next + i = t ↔ supply'.next + i = t)

structure Supply.Before (supply last : Supply) : Prop where
  next : supply.next ≤ last.next
  drawn : supply.drawn ≤ last.drawn

theorem Supply.Before.trans (h : supply.Before supply') (h' : supply'.Before last) :
    supply.Before last :=
  ⟨Int.le_trans h.next h'.next,Nat.le_trans h.drawn h'.drawn⟩

private theorem fill_before (now : Int) (supply : Supply) (values : NewRow π) :
    supply.Before (values.fill now supply).2 := by
  obtain ⟨id,publicId,createdAt,columns⟩ := values
  constructor
  · cases id with
    | none => exact Int.le_add_one (Int.le_refl _)
    | some i => exact Int.le_refl _
  · cases publicId with
    | none => exact Nat.le_succ _
    | some p => exact Nat.le_refl _

private theorem fillRows_before (now : Int) (check : Row π → Bool) (supply : Supply)
    (values : List (NewRow π)) : supply.Before (fillRows now check supply values).2 := by
  induction values generalizing supply with
  | nil => exact ⟨Int.le_refl _,Nat.le_refl _⟩
  | cons first values ih =>
    simp only [fillRows]
    split
    · exact (fill_before now supply first).trans (ih _)
    · exact fill_before now supply first

theorem shift_next (n : Int) (i : Nat) : n + 1 + i = n + ((i + 1 : Nat) : Int) := by
  push_cast
  ring

theorem RowRenaming.Links.fill (h : f.Links supply last supply') (now : Int) (values : NewRow π)
    (hlast : (values.fill now supply).2.Before last) :
    ((values.rename f).fill now supply').1 = (values.fill now supply).1.rename f ∧
      f.Links (values.fill now supply).2 last ((values.rename f).fill now supply').2 := by
  obtain ⟨id,publicId,createdAt,columns⟩ := values
  have hid : id = none → f.id supply.next = supply'.next := by
    rintro rfl
    have hnext : supply.next + 1 ≤ last.next := hlast.next
    have hfirst := h.id 0 (by simpa using hnext)
    simpa using hfirst
  have hpublicId : publicId = none →
      f.publicId (supply.uuids supply.drawn) = supply'.uuids supply'.drawn := by
    rintro rfl
    exact h.publicId 0 hlast.drawn
  refine ⟨?_,?_,?_⟩
  · cases id <;> cases publicId <;> simp_all [NewRow.fill,NewRow.rename,Row.rename]
  · intro i hi
    cases id with
    | none =>
      have hi : supply.next + 1 + i < last.next := hi
      show f.id (supply.next + 1 + i) = supply'.next + 1 + i
      rw [shift_next] at hi ⊢
      rw [shift_next]
      exact h.id (i + 1) hi
    | some n => exact h.id i hi
  · intro i hi
    cases publicId with
    | none =>
      have hi : supply.drawn + 1 + i < last.drawn := hi
      show f.publicId (supply.uuids (supply.drawn + 1 + i)) = supply'.uuids (supply'.drawn + 1 + i)
      rw [Nat.add_assoc,Nat.add_comm 1 i] at hi ⊢
      rw [Nat.add_assoc,Nat.add_comm 1 i]
      exact h.publicId (i + 1) hi
    | some p => exact h.publicId i hi

private theorem rel_cons {α : Type} {R : α → α → Prop} {a a' : α} {rows rows' : Option (List α)}
    (ha : R a a') (h : Option.Rel (List.Forall₂ R) rows rows') :
    Option.Rel (List.Forall₂ R) (rows.map (a::·)) (rows'.map (a'::·)) := by
  cases h with
  | none => exact .none
  | some hrows => exact .some (.cons ha hrows)

/-- Two runs fill in their rows alike: in both a row fails the check, or the rows they write
correspond. -/
theorem fillRows_rel {R : Row π → Row π → Prop} {P : Supply → Supply → Prop}
    {check : Row π → Bool} (hstep : ∀ (values : NewRow π) supply supply', P supply supply' →
      (values.fill now supply).2.Before last →
      check ((values.rename f).fill now supply').1 = check (values.fill now supply).1 ∧
        (check (values.fill now supply).1 = true →
          R (values.fill now supply).1 ((values.rename f).fill now supply').1) ∧
        P (values.fill now supply).2 ((values.rename f).fill now supply').2)
    (values : List (NewRow π)) (h : P supply supply')
    (hlast : (fillRows now check supply values).2.Before last) :
    Option.Rel (List.Forall₂ R) (fillRows now check supply values).1
      (fillRows now check supply' (values.map (NewRow.rename f))).1 := by
  induction values generalizing supply supply' with
  | nil => exact .some .nil
  | cons first values ih =>
    simp only [fillRows] at hlast
    simp only [fillRows,List.map_cons]
    by_cases hcheck : check (first.fill now supply).1 = true
    · rw [if_pos hcheck] at hlast
      have hbefore := (fillRows_before now check _ values).trans hlast
      obtain ⟨hsame,hrow,hnext⟩ := hstep first supply supply' h hbefore
      rw [if_pos hcheck,if_pos (hsame.trans hcheck)]
      exact rel_cons (hrow hcheck) (ih hnext hlast)
    · rw [if_neg hcheck] at hlast
      obtain ⟨hsame,_,_⟩ := hstep first supply supply' h hlast
      rw [if_neg hcheck,if_neg (by rw [hsame]; exact hcheck)]
      exact .none

end SystemsLab.Tenancy
