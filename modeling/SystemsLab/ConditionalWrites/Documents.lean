import SystemsLab.Framework.Transition
import SystemsLab.Framework.RowVersions

/-!
# Editing a document

Users read a document and save what they make of it: with a plain `UPDATE`, with one that is
conditional on the `version` they have read, or in a transaction that has locked the row before. A
publication is conditional on the status. An `UPDATE` waits while a transaction has the row.
-/

namespace SystemsLab.ConditionalWrites

inductive DocumentStatus
  | draft
  | published
  deriving DecidableEq, Repr

structure DocumentRow where
  id : Nat
  body : String
  version : Int := 1
  status : DocumentStatus := .draft
  deriving DecidableEq, Repr

/-- An edit goes to the end of the body. -/
def addition (marker : String) : String := "\n\n" ++ marker

namespace DocumentRow

/-- Whether the next `version` is in the range of `integer`. -/
def inRange (row : DocumentRow) : Bool := row.version + 1 ≤ 2147483647

/-- `SET body = …, version = version + 1` -/
def save (row : DocumentRow) (body : String) : Option DocumentRow :=
  if row.inRange then some { row with
    body
    version := row.version + 1 }
  else none

end DocumentRow

/-- `additions` (the edits that were committed, and by whom), `pending` (those of the transaction
that has the row), `refused` (who was told that no row matched) and `publishedBy` are logs, not part
of the program's state. -/
structure DocumentWorld where
  row : VersionedRow Nat DocumentRow
  reading : Nat → Option DocumentRow := fun _ => none
  additions : List (Nat × String) := []
  pending : List String := []
  refused : List Nat := []
  publishedBy : List Nat := []

inductive DocumentEvent
  | readDocument (user : Nat)
  | update (user : Nat) (marker : String)
  | updateIfVersion (user : Nat) (marker : String)
  | publish (user : Nat)
  | selectForUpdate (user : Nat)
  | append (user : Nat) (marker : String)
  | commit (user : Nat)
  | disconnect (user : Nat)
  deriving DecidableEq, Repr

namespace DocumentWorld

abbrev current (w : DocumentWorld) : DocumentRow := w.row.committed

/-- Each save uses up what its user has read. -/
def forget (w : DocumentWorld) (user : Nat) : DocumentWorld :=
  { w with reading := Function.update w.reading user none }

/-- A statement of its own leaves the row, with one more edit in it. -/
def saved (w : DocumentWorld) (user : Nat) (marker : String) (row : DocumentRow) : DocumentWorld :=
  { w.forget user with
    row := { committed := row }
    additions := w.additions ++ [(user,marker)] }

def rolledBack (w : DocumentWorld) : DocumentWorld :=
  { w with
    row := { committed := w.current }
    pending := [] }

end DocumentWorld

def documentStep (w : DocumentWorld) : DocumentEvent → Option DocumentWorld
  | .readDocument user =>
    if w.row.held.map Prod.fst = some user then none
    else some { w with reading := Function.update w.reading user (some w.current) }
  | .update user marker =>
    match w.row.held, w.reading user with
    | none, some read =>
      some (w.saved user marker { w.current with body := read.body ++ addition marker })
    | _, _ => none
  | .updateIfVersion user marker =>
    match w.row.held, w.reading user with
    | none, some read =>
      if w.current.version = read.version then
        match w.current.save (read.body ++ addition marker) with
        | some row => some (w.saved user marker row)
        | none => some (w.forget user)
      else some { w.forget user with refused := w.refused ++ [user] }
    | _, _ => none
  | .publish user =>
    match w.row.held, w.current.status with
    | none, .draft => some { w with
        row := { committed := { w.current with status := .published } }
        publishedBy := w.publishedBy ++ [user] }
    | none, .published => some w
    | some _, _ => none
  | .selectForUpdate user =>
    match w.row.held with
    | none => some { w.forget user with
        row := { w.row with held := some (user,w.current) }
        pending := [] }
    | some _ => none
  | .append user marker =>
    match w.row.held with
    | some (holder,own) =>
      if holder = user then
        match own.save (own.body ++ addition marker) with
        | some row => some { w with
            row := { w.row with held := some (user,row) }
            pending := w.pending ++ [marker] }
        | none => some w.rolledBack
      else none
    | none => none
  | .commit user =>
    match w.row.held with
    | some (holder,own) =>
      if holder = user then some { w with
          row := { committed := own }
          additions := w.additions ++ w.pending.map fun marker => (user,marker)
          pending := [] }
      else none
    | none => none
  | .disconnect user =>
    let w := w.forget user
    if w.row.held.map Prod.fst = some user then some w.rolledBack else some w

/-- `resetDocument` has left `row`. -/
def DocumentWorld.start (row : DocumentRow) : DocumentWorld where
  row := { committed := row }

/-- The edits one after the other, each made to what the one before has left. -/
def applied (body : String) (additions : List (Nat × String)) : String :=
  additions.foldl (fun body edit => body ++ addition edit.2) body

variable {row own : DocumentRow} {body : String}

theorem DocumentRow.save_some (h : own.save body = some row) :
    own.inRange = true ∧ row = { own with
      body
      version := own.version + 1 } := by
  unfold DocumentRow.save at h
  split at h
  · rename_i hrange
    exact ⟨hrange,(Option.some.inj h).symm⟩
  · cases h

private theorem DocumentRow.save_none (h : own.save body = none) : own.inRange = false := by
  unfold DocumentRow.save at h
  split at h
  · cases h
  · rename_i hrange
    exact Bool.of_not_eq_true hrange

inductive DocumentMove (w : DocumentWorld) : DocumentEvent → DocumentWorld → Prop
  | read (user : Nat) : w.row.held.map Prod.fst ≠ some user →
      DocumentMove w (.readDocument user)
        { w with reading := Function.update w.reading user (some w.current) }
  | updated (user : Nat) (marker : String) (read : DocumentRow) : w.row.held = none →
      w.reading user = some read →
      DocumentMove w (.update user marker)
        (w.saved user marker { w.current with body := read.body ++ addition marker })
  | matched (user : Nat) (marker : String) (read row : DocumentRow) : w.row.held = none →
      w.reading user = some read → w.current.version = read.version →
      w.current.save (read.body ++ addition marker) = some row →
      DocumentMove w (.updateIfVersion user marker) (w.saved user marker row)
  | outOfRange (user : Nat) (marker : String) (read : DocumentRow) : w.reading user = some read →
      w.current.inRange = false →
      DocumentMove w (.updateIfVersion user marker) (w.forget user)
  | refused (user : Nat) (marker : String) (read : DocumentRow) : w.reading user = some read →
      w.current.version ≠ read.version →
      DocumentMove w (.updateIfVersion user marker)
        { w.forget user with refused := w.refused ++ [user] }
  | published (user : Nat) : w.row.held = none → w.current.status = .draft →
      DocumentMove w (.publish user) { w with
        row := { committed := { w.current with status := .published } }
        publishedBy := w.publishedBy ++ [user] }
  | unpublishable (user : Nat) : w.current.status = .published → DocumentMove w (.publish user) w
  | locked (user : Nat) : w.row.held = none →
      DocumentMove w (.selectForUpdate user) { w.forget user with
        row := { w.row with held := some (user,w.current) }
        pending := [] }
  | appended (user : Nat) (marker : String) (own row : DocumentRow) :
      w.row.held = some (user,own) → own.save (own.body ++ addition marker) = some row →
      DocumentMove w (.append user marker) { w with
        row := { w.row with held := some (user,row) }
        pending := w.pending ++ [marker] }
  | failed (user : Nat) (marker : String) : DocumentMove w (.append user marker) w.rolledBack
  | committed (user : Nat) (own : DocumentRow) : w.row.held = some (user,own) →
      DocumentMove w (.commit user) { w with
        row := { committed := own }
        additions := w.additions ++ w.pending.map fun marker => (user,marker)
        pending := [] }
  | disconnected (user : Nat) : DocumentMove w (.disconnect user) (w.forget user)
  | rolledBack (user : Nat) : DocumentMove w (.disconnect user) (w.forget user).rolledBack

theorem documentStep_move {w w' : DocumentWorld} {e : DocumentEvent}
    (h : documentStep w e = some w') : DocumentMove w e w' := by
  cases e with
  | readDocument user =>
    simp only [documentStep] at h
    split at h
    · cases h
    · rename_i hfree
      cases h
      exact .read user hfree
  | update user marker =>
    simp only [documentStep] at h
    split at h
    · rename_i read hheld hread
      cases h
      exact .updated user marker read hheld hread
    · cases h
  | updateIfVersion user marker =>
    simp only [documentStep] at h
    split at h
    · rename_i read hheld hread
      split at h
      · rename_i hversion
        split at h
        · rename_i row hsave
          cases h
          exact .matched user marker read row hheld hread hversion hsave
        · rename_i hsave
          cases h
          exact .outOfRange user marker read hread (DocumentRow.save_none hsave)
      · rename_i hversion
        cases h
        exact .refused user marker read hread hversion
    · cases h
  | publish user =>
    simp only [documentStep] at h
    split at h
    · rename_i hheld hstatus
      cases h
      exact .published user hheld hstatus
    · rename_i hstatus
      cases h
      exact .unpublishable user hstatus
    · cases h
  | selectForUpdate user =>
    simp only [documentStep] at h
    split at h
    · rename_i hheld
      cases h
      exact .locked user hheld
    · cases h
  | append user marker =>
    simp only [documentStep] at h
    split at h
    · rename_i holder own hheld
      split at h
      · rename_i hholder
        subst hholder
        split at h
        · rename_i row hsave
          cases h
          exact .appended holder marker own row hheld hsave
        · cases h
          exact .failed holder marker
      · cases h
    · cases h
  | commit user =>
    simp only [documentStep] at h
    split at h
    · rename_i holder own hheld
      split at h
      · rename_i hholder
        subst hholder
        cases h
        exact .committed holder own hheld
      · cases h
    · cases h
  | disconnect user =>
    simp only [documentStep] at h
    split at h
    · cases h
      exact .rolledBack user
    · cases h
      exact .disconnected user

end SystemsLab.ConditionalWrites
