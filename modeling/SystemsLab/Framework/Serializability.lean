import SystemsLab.Framework.Transition
import Mathlib.Data.List.Permutation

/-!
# Serializable transactions

Transactions are listed in the order of their commits, and `seen` says how many of the commits the
snapshot of a transaction has. They are serializable when they could have run one after another,
each with the reads and writes that it has had, and each after those that it has seen.
-/

namespace SystemsLab

variable {σ τ : Type*} [DecidableEq τ]

/-- A step is a whole transaction on its own; it fails when the transaction would read something
else than it has read. -/
structure SerialOrder (step : σ → τ → Option σ) (seen : τ → Nat) (first last : σ)
    (commits order : List τ) : Prop where
  perm : order.Perm commits
  runs : run step first order = some last
  visible : ∀ t ∈ commits, ∀ u ∈ commits.take (seen t), order.idxOf u < order.idxOf t

def Serializable (step : σ → τ → Option σ) (seen : τ → Nat) (first last : σ)
    (commits : List τ) : Prop :=
  ∃ order, SerialOrder step seen first last commits order

variable {step : σ → τ → Option σ} {seen : τ → Nat} {first last : σ} {commits : List τ}

theorem serializable_iff : Serializable step seen first last commits ↔
    ∃ order ∈ commits.permutations', run step first order = some last ∧
      ∀ t ∈ commits, ∀ u ∈ commits.take (seen t), order.idxOf u < order.idxOf t := by
  constructor
  · rintro ⟨order,h⟩
    exact ⟨order,List.mem_permutations'.mpr h.perm,h.runs,h.visible⟩
  · rintro ⟨order,hperm,hruns,hvisible⟩
    exact ⟨order,List.mem_permutations'.mp hperm,hruns,hvisible⟩

instance [DecidableEq σ] : Decidable (Serializable step seen first last commits) :=
  decidable_of_iff _ serializable_iff.symm

/-- What each transaction keeps on its own is kept by all of them together. -/
theorem Serializable.invariant (h : Serializable step seen first last commits) (Inv : σ → Prop)
    {ok : τ → Prop} (hok : ∀ t ∈ commits, ok t) (hfirst : Inv first)
    (hstep : ∀ s t s', Inv s → ok t → step s t = some s' → Inv s') : Inv last := by
  obtain ⟨order,horder⟩ := h
  have hall : ∀ t ∈ order, ok t := fun t ht => hok t (horder.perm.mem_iff.mp ht)
  refine run_history (P := fun ts s => (∀ t ∈ ts, ok t) → Inv s) (fun _ => hfirst) ?_
    horder.runs hall
  intro ts s t s' ih hs hts
  refine hstep s t s' (ih fun u hu => hts u (List.mem_append_left _ hu)) ?_ hs
  exact hts t (List.mem_append_right _ (List.mem_singleton_self _))

end SystemsLab
