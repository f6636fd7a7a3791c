import Mathlib.Algebra.Order.BigOperators.Group.Finset
import SystemsLab.Framework.Transition

/-!
# Systems that settle

When each step of some kind leaves less to do, such steps lead to a state in which none of them
can be taken any more. What there is left for finitely many parties is what is left for each.
-/

namespace SystemsLab

variable {σ ε : Type*} {step : σ → ε → Option σ}

/-- The settling rule. -/
theorem exists_settled {Inv : σ → Prop} {go : ε → Prop} (variant : σ → Nat)
    (hlower : ∀ s e t, Inv s → go e → step s e = some t → Inv t ∧ variant t < variant s)
    {s : σ} (h : Inv s) :
    ∃ es t, (∀ e ∈ es, go e) ∧ run step s es = some t ∧ ∀ e, go e → step t e = none := by
  induction hn : variant s using Nat.strong_induction_on generalizing s with
  | _ n ih =>
    by_cases hsettled : ∀ e, go e → step s e = none
    · exact ⟨[],s,nofun,rfl,hsettled⟩
    · obtain ⟨e,hgo,m,hm⟩ : ∃ e, go e ∧ ∃ m, step s e = some m := by
        by_contra hnone
        refine hsettled fun e hgo => Option.eq_none_iff_forall_ne_some.mpr fun m hm => ?_
        exact hnone ⟨e,hgo,m,hm⟩
      obtain ⟨hinv,hless⟩ := hlower s e m h hgo hm
      obtain ⟨es,t,hes,hrun,hend⟩ := ih (variant m) (hn ▸ hless) hinv rfl
      refine ⟨e::es,t,?_,by rw [run_cons_of hm,hrun],hend⟩
      exact List.forall_mem_cons.mpr ⟨hgo,hes⟩

theorem sum_left_lt {left left' : Nat → Nat} {n N : Nat} (hn : n < N)
    (hother : ∀ m, m ≠ n → left' m = left m) (hless : left' n < left n) :
    ∑ m ∈ Finset.range N, left' m < ∑ m ∈ Finset.range N, left m := by
  apply Finset.sum_lt_sum
  · intro m _
    by_cases hm : m = n
    · subst hm
      exact hless.le
    · exact (hother m hm).le
  · exact ⟨n,Finset.mem_range.mpr hn,hless⟩

end SystemsLab
