import Mathlib.Data.Fintype.Card
import Mathlib.Data.Fintype.EquivFin
import Mathlib.Data.Fintype.Sets
import Mathlib.Data.Prod.Lex
import Mathlib.Logic.Relation
import Mathlib.Order.OrderDual
import Mathlib.Order.Nat
import Mathlib.Order.WellFounded

/-!
# Wait-for graphs

A transaction that requests a lock waits for the holder, and for everybody who has been in the
queue for that lock for longer. When every transaction requests its locks in one global order,
nobody waits for itself, however long the way round.
-/

namespace SystemsLab

variable {κ τ : Type*}

/-- `request` is the lock a transaction waits for and its ticket in the queue. -/
def WaitsFor (holder : κ → Option τ) (request : τ → Option (κ × Nat)) (t u : τ) : Prop :=
  ∃ k ticket, request t = some (k,ticket) ∧
    (holder k = some u ∨ ∃ earlier, request u = some (k,earlier) ∧ earlier < ticket)

/-- No transaction waits for a chain of others that leads back to it. -/
def DeadlockFree (holder : κ → Option τ) (request : τ → Option (κ × Nat)) : Prop :=
  ∀ t, ¬ Relation.TransGen (WaitsFor holder request) t t

/-- Everybody requests locks above those it holds. -/
def RequestsInOrder [LT κ] (holder : κ → Option τ) (request : τ → Option (κ × Nat)) : Prop :=
  ∀ t k ticket m, request t = some (k,ticket) → holder m = some t → m < k

variable {holder : κ → Option τ} {request : τ → Option (κ × Nat)}

theorem WaitsFor.requests {t u : τ} (h : WaitsFor holder request t u) :
    ∃ k a, request t = some (k,a) := by
  obtain ⟨k,ticket,ht,_⟩ := h
  exact ⟨k,ticket,ht⟩

/-- Where everybody waits for somebody, some of them wait for each other in a circle. -/
theorem exists_cycle {R : τ → τ → Prop} {S : Finset τ} (hne : S.Nonempty)
    (h : ∀ t ∈ S, ∃ u ∈ S, R t u) : ∃ t ∈ S, Relation.TransGen R t t := by
  by_contra hno
  have hirrefl : Std.Irrefl fun t u : S => Relation.TransGen R u.1 t.1 :=
    ⟨fun t ht => hno ⟨t.1,t.2,ht⟩⟩
  have htrans : IsTrans S fun t u => Relation.TransGen R u.1 t.1 :=
    ⟨fun _ _ _ htu huv => huv.trans htu⟩
  have hwf := Finite.wellFounded_of_trans_of_irrefl fun t u : S => Relation.TransGen R u.1 t.1
  obtain ⟨t,ht⟩ := hne
  obtain ⟨last,_,hlast⟩ := hwf.has_min Set.univ ⟨⟨t,ht⟩,trivial⟩
  obtain ⟨u,hu,hwait⟩ := h last.1 last.2
  exact hlast ⟨u,hu⟩ trivial (.single hwait)

variable [LinearOrder κ]

/-- Along an edge the requested lock rises, or it stays and the ticket falls. -/
theorem RequestsInOrder.lt (h : RequestsInOrder holder request) {t u : τ} {k m : κ} {a b : Nat}
    (hwait : WaitsFor holder request t u) (ht : request t = some (k,a))
    (hu : request u = some (m,b)) :
    toLex (k,OrderDual.toDual a) < toLex (m,OrderDual.toDual b) := by
  obtain ⟨k',ticket,ht',hblocked⟩ := hwait
  rw [ht] at ht'
  cases ht'
  rw [Prod.Lex.toLex_lt_toLex]
  rcases hblocked with hholder | ⟨earlier,hearlier,hlt⟩
  · exact .inl (h u m b k hu hholder)
  · rw [hu] at hearlier
    cases hearlier
    exact .inr ⟨rfl,hlt⟩

theorem RequestsInOrder.lt_of_chain (h : RequestsInOrder holder request) {t u : τ}
    (hchain : Relation.TransGen (WaitsFor holder request) t u) {k m : κ} {a b : Nat}
    (ht : request t = some (k,a)) (hu : request u = some (m,b)) :
    toLex (k,OrderDual.toDual a) < toLex (m,OrderDual.toDual b) := by
  induction hchain generalizing m b with
  | single hwait => exact h.lt hwait ht hu
  | tail _ hwait ih =>
    obtain ⟨k',a',hmid⟩ := hwait.requests
    exact (ih hmid).trans (h.lt hwait hmid hu)

theorem RequestsInOrder.deadlockFree (h : RequestsInOrder holder request) :
    DeadlockFree holder request := by
  intro t hcycle
  obtain ⟨u,hwait,_⟩ := Relation.TransGen.head'_iff.mp hcycle
  obtain ⟨k,a,ht⟩ := hwait.requests
  exact lt_irrefl _ (h.lt_of_chain hcycle ht ht)

end SystemsLab
