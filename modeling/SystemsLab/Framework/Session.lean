import Mathlib.Tactic.Basic

/-!
# A session with a database server

A session executes one command after another. An error aborts the transaction it occurs in, and
`COMMIT` of an aborted transaction is a `ROLLBACK` that raises no error.
-/

namespace SystemsLab

variable {ω ρ ε : Type*}

/-- A session that has lost its connection has no transaction either. -/
inductive SessionState
  | idle
  | inTransaction
  | aborted
  | disconnected
  deriving DecidableEq, Repr

/-- `pending` are the writes of the transaction that is open. -/
structure Session (ω : Type*) where
  state : SessionState := .idle
  pending : List ω := []
  committed : List ω := []
  deriving DecidableEq, Repr

inductive Command (ω : Type*)
  | begin
  | commit
  | rollback
  | statement (s : ω)
  deriving DecidableEq, Repr

/-- A command succeeds, the server raises an error, or the connection is lost before the command
has taken effect. -/
inductive Outcome (ρ ε : Type*)
  | succeeds (rows : ρ)
  | fails (error : ε)
  | disconnects (error : ε)
  deriving DecidableEq, Repr

/-- What the client gets to see. -/
def Outcome.reply : Outcome ρ ε → Except ε ρ
  | succeeds rows => .ok rows
  | fails error => .error error
  | disconnects error => .error error

def Outcome.isDisconnect : Outcome ρ ε → Bool
  | disconnects _ => true
  | _ => false

namespace Session

def isOpen (s : Session ω) : Bool := s.state = .inTransaction || s.state = .aborted

def disconnect (s : Session ω) : Session ω :=
  { s with
    state := .disconnected
    pending := [] }

def rollback (s : Session ω) : Session ω :=
  { s with
    state := .idle
    pending := [] }

def commit (s : Session ω) : Session ω :=
  { s with
    state := .idle
    pending := []
    committed := s.committed ++ s.pending }

def abort (s : Session ω) : Session ω :=
  { s with
    state := .aborted
    pending := [] }

/-- What a command that is answered does; `none` if the server does not answer it like this. -/
def answer (writes : ω → Bool) (s : Session ω) (succeeded : Bool) : Command ω → Option (Session ω)
  | .begin =>
    match s.state, succeeded with
    | .idle, true => some { s with state := .inTransaction }
    | .idle, false => some s
    | .inTransaction, true => some s
    | .inTransaction, false => some s.abort
    | .aborted, false => some s
    | _, _ => none
  | .commit =>
    match s.state, succeeded with
    | .idle, true => some s
    | .inTransaction, true => some s.commit
    | .inTransaction, false => some s.rollback
    | .aborted, true => some s.rollback
    | _, _ => none
  | .rollback =>
    match s.state, succeeded with
    | .disconnected, _ => none
    | _, true => some s.rollback
    | _, false => none
  | .statement st =>
    match s.state, succeeded with
    | .idle, true => some { s with committed := s.committed ++ [st].filter writes }
    | .idle, false => some s
    | .inTransaction, true => some { s with pending := s.pending ++ [st].filter writes }
    | .inTransaction, false => some s.abort
    | .aborted, false => some s
    | _, _ => none

def execute (writes : ω → Bool) (s : Session ω) (command : Command ω) :
    Outcome ρ ε → Option (Session ω)
  | .succeeds _ => s.answer writes true command
  | .fails _ => s.answer writes false command
  | .disconnects _ => some s.disconnect

variable {writes : ω → Bool} {s t : Session ω} {outcome : Outcome ρ ε}

attribute [local simp] execute answer

theorem execute_begin (hidle : s.state = .idle) (h : s.execute writes .begin outcome = some t) :
    (∃ rows, outcome = .succeeds rows ∧ t = { s with state := .inTransaction }) ∨
      ∃ error, outcome.reply = .error error ∧ (t = s ∨ t = s.disconnect) := by
  cases outcome with
  | succeeds rows =>
    simp only [execute,answer,hidle,Option.some.injEq] at h
    exact .inl ⟨rows,rfl,h.symm⟩
  | fails error =>
    simp only [execute,answer,hidle,Option.some.injEq] at h
    exact .inr ⟨error,rfl,.inl h.symm⟩
  | disconnects error =>
    cases h
    exact .inr ⟨error,rfl,.inr rfl⟩

/-- A statement in a transaction adds its writes to those that are pending, or it fails; a failure
aborts the transaction, unless it is aborted already or the connection is gone. -/
theorem execute_statement {st : ω} (hstate : s.state ≠ .idle)
    (h : s.execute writes (.statement st) outcome = some t) :
    (∃ rows, outcome = .succeeds rows ∧ s.state = .inTransaction ∧
        t = { s with pending := s.pending ++ [st].filter writes }) ∨
      ∃ error, outcome.reply = .error error ∧
        (t = s.abort ∨ t = s ∧ s.state = .aborted ∨ t = s.disconnect) := by
  cases outcome with
  | succeeds rows =>
    cases hs : s.state with
    | idle => exact absurd hs hstate
    | inTransaction =>
      simp only [execute,answer,hs,Option.some.injEq] at h
      exact .inl ⟨rows,rfl,rfl,h.symm⟩
    | aborted => simp [execute,answer,hs] at h
    | disconnected => simp [execute,answer,hs] at h
  | fails error =>
    cases hs : s.state with
    | idle => exact absurd hs hstate
    | inTransaction =>
      simp only [execute,answer,hs,Option.some.injEq] at h
      exact .inr ⟨error,rfl,.inl h.symm⟩
    | aborted =>
      simp only [execute,answer,hs,Option.some.injEq] at h
      exact .inr ⟨error,rfl,.inr (.inl ⟨h.symm,rfl⟩)⟩
    | disconnected => simp [execute,answer,hs] at h
  | disconnects error =>
    cases h
    exact .inr ⟨error,rfl,.inr (.inr rfl)⟩

/-- `COMMIT` succeeds on a transaction that is aborted as well, and commits nothing of it. -/
theorem execute_commit (hstate : s.state ≠ .idle)
    (h : s.execute writes .commit outcome = some t) :
    (∃ rows, outcome = .succeeds rows ∧
        (s.state = .inTransaction ∧ t = s.commit ∨ s.state = .aborted ∧ t = s.rollback)) ∨
      ∃ error, outcome.reply = .error error ∧
        (s.state = .inTransaction ∧ t = s.rollback ∨
          outcome.isDisconnect = true ∧ t = s.disconnect) := by
  cases outcome with
  | succeeds rows =>
    cases hs : s.state with
    | idle => exact absurd hs hstate
    | inTransaction =>
      simp only [execute,answer,hs,Option.some.injEq] at h
      exact .inl ⟨rows,rfl,.inl ⟨rfl,h.symm⟩⟩
    | aborted =>
      simp only [execute,answer,hs,Option.some.injEq] at h
      exact .inl ⟨rows,rfl,.inr ⟨rfl,h.symm⟩⟩
    | disconnected => simp [execute,answer,hs] at h
  | fails error =>
    cases hs : s.state with
    | idle => exact absurd hs hstate
    | inTransaction =>
      simp only [execute,answer,hs,Option.some.injEq] at h
      exact .inr ⟨error,rfl,.inl ⟨rfl,h.symm⟩⟩
    | aborted => simp [execute,answer,hs] at h
    | disconnected => simp [execute,answer,hs] at h
  | disconnects error =>
    cases h
    exact .inr ⟨error,rfl,.inr ⟨rfl,rfl⟩⟩

theorem execute_rollback (h : s.execute writes .rollback outcome = some t) :
    t = s.rollback ∨ t = s.disconnect := by
  cases outcome with
  | succeeds rows =>
    cases hs : s.state <;> simp only [execute,answer,hs,Option.some.injEq,reduceCtorEq] at h
    all_goals exact .inl h.symm
  | fails error => cases hs : s.state <;> simp [execute,answer,hs] at h
  | disconnects error =>
    cases h
    exact .inr rfl

end Session

end SystemsLab
