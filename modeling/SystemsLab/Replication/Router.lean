import SystemsLab.Framework.Session
import SystemsLab.Framework.Transition

/-!
# `Router.transaction`

A transaction on one connection of the node that is picked. What `fn` does next depends on the
statements it has sent and on what came back, so that it is a function of this history. Every
event is the outcome of what the router waits for.
-/

namespace SystemsLab.Replication

variable {ω ρ ε α : Type*}

/-- `fn` awaits a statement, returns or throws. -/
inductive Action (ω ε α : Type*)
  | query (s : ω)
  | return (result : α)
  | throw (error : ε)
  deriving DecidableEq, Repr

/-- The statements that `fn` has awaited, oldest first, and their replies. -/
abbrev History (ω ρ ε : Type*) := List (ω × Except ε ρ)

/-- The writes that reported success. -/
def History.reported (writes : ω → Bool) (history : History ω ρ ε) : List ω :=
  (history.filter fun h => h.2.isOk && writes h.1).map Prod.fst

inductive ClientState
  | unconnected
  | checkedOut
  | released
  deriving DecidableEq, Repr

inductive TransactionPhase (ε α : Type*)
  | connecting
  | beginning
  | running
  | rollingBack (error : ε)
  | resolved (result : α)
  | rejected (error : ε)
  deriving DecidableEq, Repr

structure TransactionWorld (ω ρ ε α : Type*) where
  phase : TransactionPhase ε α := .connecting
  client : ClientState := .unconnected
  session : Session ω := {}
  history : History ω ρ ε := []

namespace TransactionWorld

/-- `finally { client.release(); }`, after which the promise is settled. -/
def settle (w : TransactionWorld ω ρ ε α) (session : Session ω) (phase : TransactionPhase ε α) :
    TransactionWorld ω ρ ε α :=
  { w with
    phase
    session
    client := .released }

variable (writes : ω → Bool) (fn : History ω ρ ε → Action ω ε α)

def step (w : TransactionWorld ω ρ ε α) (outcome : Outcome ρ ε) :
    Option (TransactionWorld ω ρ ε α) :=
  match w.phase with
  | .connecting =>
    match outcome.reply with
    | .ok _ =>
      some { w with
        phase := .beginning
        client := .checkedOut }
    | .error error => some { w with phase := .rejected error }
  | .beginning =>
    (w.session.execute writes .begin outcome).map fun session =>
      match outcome.reply with
      | .ok _ =>
        { w with
          session
          phase := .running }
      | .error error =>
        { w with
          session
          phase := .rollingBack error }
  | .running =>
    match fn w.history with
    | .query s =>
      (w.session.execute writes (.statement s) outcome).map fun session =>
        { w with
          session
          history := w.history ++ [(s,outcome.reply)] }
    | .return result =>
      (w.session.execute writes .commit outcome).map fun session =>
        match outcome.reply with
        | .ok _ => w.settle session (.resolved result)
        | .error error =>
          { w with
            session
            phase := .rollingBack error }
    | .throw error =>
      (w.session.execute writes .rollback outcome).map fun session =>
        w.settle session (.rejected error)
  | .rollingBack error =>
    (w.session.execute writes .rollback outcome).map fun session =>
      w.settle session (.rejected error)
  | .resolved _ => none
  | .rejected _ => none

end TransactionWorld

end SystemsLab.Replication
