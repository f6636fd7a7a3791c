import Mathlib.Data.List.Nodup
import Mathlib.Logic.Function.Basic

/-!
# Locks of open transactions

A transaction waits in two places: an `UPDATE` for the lock on its row, and an `INSERT` for a
transaction that is inserting the same value under a unique index. Both are a table of locks
that end with their transaction.
-/

namespace SystemsLab

variable {κ τ : Type*}

/-- The transaction that holds the lock on each key. -/
abbrev LockTable (κ τ : Type*) := κ → Option τ

/-- `holding` says what each transaction holds a lock on. -/
def LockTable.Held (lock : LockTable κ τ) (holding : τ → Option κ) : Prop :=
  ∀ k t, lock k = some t ↔ holding t = some k

theorem LockTable.held_none : LockTable.Held (fun _ : κ => none) fun _ : τ => none := by
  intro k t
  constructor <;> intro h <;> cases h

variable {lock : LockTable κ τ} {holding : τ → Option κ}

theorem LockTable.Held.eq_of_holding (h : lock.Held holding) {t t' : τ} {k : κ}
    (ht : holding t = some k) (ht' : holding t' = some k) : t = t' := by
  have hlock := (h k t).mpr ht
  rw [(h k t').mpr ht'] at hlock
  exact (Option.some.inj hlock).symm

section Locks

variable [DecidableEq κ]

def LockTable.acquire (lock : LockTable κ τ) (k : κ) (t : τ) : LockTable κ τ :=
  Function.update lock k (some t)

/-- What the end of a transaction does: it may hold nothing. -/
def LockTable.release (lock : LockTable κ τ) : Option κ → LockTable κ τ
  | none => lock
  | some k => Function.update lock k none

@[simp] theorem LockTable.release_none (lock : LockTable κ τ) : lock.release none = lock := rfl

theorem LockTable.release_some (lock : LockTable κ τ) (k : κ) :
    lock.release (some k) = Function.update lock k none := rfl

variable [DecidableEq τ]

theorem LockTable.Held.acquire (h : lock.Held holding) {k : κ} {t : τ} (hk : lock k = none)
    (ht : holding t = none) :
    (lock.acquire k t).Held (Function.update holding t (some k)) := by
  intro k' t'
  unfold LockTable.acquire
  by_cases hk' : k' = k
  · subst hk'
    rw [Function.update_self]
    by_cases ht' : t' = t
    · subst ht'
      simp
    · rw [Function.update_of_ne ht']
      have hfree := h k' t'
      rw [hk] at hfree
      constructor
      · intro heq
        exact absurd (Option.some.inj heq).symm ht'
      · intro heq
        exact nomatch hfree.mpr heq
  · rw [Function.update_of_ne hk']
    by_cases ht' : t' = t
    · subst ht'
      have hidle := h k' t'
      rw [ht] at hidle
      rw [Function.update_self]
      constructor
      · intro heq
        exact nomatch hidle.mp heq
      · intro heq
        exact absurd (Option.some.inj heq).symm hk'
    · rw [Function.update_of_ne ht']
      exact h k' t'

theorem LockTable.Held.release (h : lock.Held holding) (t : τ) :
    (lock.release (holding t)).Held (Function.update holding t none) := by
  intro k' t'
  cases hk : holding t with
  | none =>
    have hself : Function.update holding t none = holding := by
      rw [← hk,Function.update_eq_self]
    rw [hself]
    exact h k' t'
  | some k =>
    rw [LockTable.release_some]
    by_cases hk' : k' = k
    · subst hk'
      rw [Function.update_self]
      by_cases ht' : t' = t
      · subst ht'
        simp
      · rw [Function.update_of_ne ht']
        constructor
        · intro heq
          cases heq
        · intro heq
          exact absurd (h.eq_of_holding heq hk) ht'
    · rw [Function.update_of_ne hk']
      by_cases ht' : t' = t
      · subst ht'
        rw [Function.update_self]
        constructor
        · intro heq
          have hheld := (h k' t').mp heq
          rw [hk] at hheld
          exact absurd (Option.some.inj hheld).symm hk'
        · intro heq
          cases heq
      · rw [Function.update_of_ne ht']
        exact h k' t'

end Locks

section Holdings

variable {γ : Type*}

/-- What each open transaction holds, as far as one lock table is concerned. -/
def holdings (call : τ → Option γ) (f : γ → Option κ) (t : τ) : Option κ := (call t).bind f

variable {call : τ → Option γ} {f : γ → Option κ} {t : τ} {c : γ}

theorem holdings_none (f : γ → Option κ) : holdings (fun _ : τ => none) f = fun _ => none := rfl

theorem holdings_eq (hc : call t = some c) : holdings call f t = f c := by
  rw [holdings,hc]
  rfl

theorem holdings_of_none (hc : call t = none) : holdings call f t = none := by
  rw [holdings,hc]
  rfl

/-- No two open transactions hold the same lock. -/
theorem LockTable.Held.others {lock : LockTable κ τ} {u : τ} {c' : γ} {k : κ}
    (h : lock.Held (holdings call f)) (hc : call t = some c) (hk : f c = some k) (hne : u ≠ t)
    (hu : call u = some c') : f c' ≠ some k := by
  intro hk'
  have hheld : holdings call f t = some k := (holdings_eq hc).trans hk
  have hheld' : holdings call f u = some k := (holdings_eq hu).trans hk'
  exact hne (h.eq_of_holding hheld' hheld)

variable [DecidableEq τ]

theorem holdings_update : holdings (Function.update call t (some c)) f =
    Function.update (holdings call f) t (f c) := by
  funext u
  unfold holdings
  by_cases hu : u = t
  · subst hu
    rw [Function.update_self,Function.update_self]
    rfl
  · rw [Function.update_of_ne hu,Function.update_of_ne hu]

theorem holdings_keep (hf : f c = holdings call f t) :
    holdings (Function.update call t (some c)) f = holdings call f := by
  rw [holdings_update,hf,Function.update_eq_self]

/-! What each transaction holds, read off its call. -/

variable {lock : LockTable κ τ} {c' : γ} {k : κ}

theorem LockTable.Held.keepCall (h : lock.Held (holdings call f))
    (hf : f c' = holdings call f t) :
    lock.Held (holdings (Function.update call t (some c')) f) := by
  rw [holdings_keep hf]
  exact h

variable [DecidableEq κ]

theorem LockTable.Held.acquireCall (h : lock.Held (holdings call f))
    (hnone : holdings call f t = none) (hk : lock k = none) (hf : f c' = some k) :
    (lock.acquire k t).Held (holdings (Function.update call t (some c')) f) := by
  rw [holdings_update,hf]
  exact h.acquire hk hnone

theorem LockTable.Held.releaseCall (h : lock.Held (holdings call f)) (hc : call t = some c)
    (hf : f c' = none) :
    (lock.release (f c)).Held (holdings (Function.update call t (some c')) f) := by
  rw [holdings_update,hf,← holdings_eq (f := f) hc]
  exact h.release t

end Holdings

/-- A unique index: the committed values and those that open transactions are inserting. -/
structure UniqueIndex (values : List κ) (lock : LockTable κ τ) (holding : τ → Option κ) :
    Prop where
  nodup : values.Nodup
  held : lock.Held holding
  fresh : ∀ t k, holding t = some k → k ∉ values

namespace UniqueIndex

theorem empty : UniqueIndex [] (fun _ : κ => none) fun _ : τ => none :=
  ⟨.nil,LockTable.held_none,fun _ _ h => nomatch h⟩

variable [DecidableEq κ] [DecidableEq τ] {values : List κ} {lock : LockTable κ τ}
  {holding : τ → Option κ}

theorem insert (h : UniqueIndex values lock holding) {k : κ} {t : τ} (hk : lock k = none)
    (ht : holding t = none) (hfresh : k ∉ values) :
    UniqueIndex values (lock.acquire k t) (Function.update holding t (some k)) := by
  refine ⟨h.nodup,h.held.acquire hk ht,?_⟩
  intro t' k' hk'
  by_cases ht' : t' = t
  · subst ht'
    rw [Function.update_self] at hk'
    cases hk'
    exact hfresh
  · rw [Function.update_of_ne ht'] at hk'
    exact h.fresh t' k' hk'

theorem rollback (h : UniqueIndex values lock holding) (t : τ) :
    UniqueIndex values (lock.release (holding t)) (Function.update holding t none) := by
  refine ⟨h.nodup,h.held.release t,?_⟩
  intro t' k' hk'
  by_cases ht' : t' = t
  · subst ht'
    rw [Function.update_self] at hk'
    cases hk'
  · rw [Function.update_of_ne ht'] at hk'
    exact h.fresh t' k' hk'

theorem commit (h : UniqueIndex values lock holding) {k : κ} {t : τ} (hk : holding t = some k) :
    UniqueIndex (values ++ [k]) (lock.release (holding t)) (Function.update holding t none) := by
  refine ⟨?_,h.held.release t,?_⟩
  · rw [List.nodup_append]
    refine ⟨h.nodup,List.nodup_singleton k,?_⟩
    intro a ha b hb
    rw [List.mem_singleton.mp hb]
    intro hab
    exact h.fresh t k hk (hab ▸ ha)
  · intro t' k' hk'
    by_cases ht' : t' = t
    · subst ht'
      rw [Function.update_self] at hk'
      cases hk'
    · rw [Function.update_of_ne ht'] at hk'
      intro hmem
      rcases List.mem_append.mp hmem with hold | hnew
      · exact h.fresh t' k' hk' hold
      · rw [List.mem_singleton.mp hnew] at hk'
        exact ht' (h.held.eq_of_holding hk' hk)

/-! What each transaction inserts, read off its call. -/

section Calls

variable {γ : Type*} {call : τ → Option γ} {f : γ → Option κ} {t : τ} {c c' : γ} {k : κ}

omit [DecidableEq κ] in
theorem keepCall (h : UniqueIndex values lock (holdings call f))
    (hf : f c' = holdings call f t) :
    UniqueIndex values lock (holdings (Function.update call t (some c')) f) := by
  rw [holdings_keep hf]
  exact h

theorem insertCall (h : UniqueIndex values lock (holdings call f)) (hc : call t = some c)
    (hnone : f c = none) (hk : lock k = none) (hfresh : k ∉ values) (hf : f c' = some k) :
    UniqueIndex values (lock.acquire k t) (holdings (Function.update call t (some c')) f) := by
  rw [holdings_update,hf]
  exact h.insert hk ((holdings_eq hc).trans hnone) hfresh

theorem rollbackCall (h : UniqueIndex values lock (holdings call f)) (hc : call t = some c)
    (hf : f c' = none) : UniqueIndex values (lock.release (f c))
      (holdings (Function.update call t (some c')) f) := by
  rw [holdings_update,hf,← holdings_eq (f := f) hc]
  exact h.rollback t

theorem commitCall (h : UniqueIndex values lock (holdings call f)) (hc : call t = some c)
    (hk : f c = some k) (hf : f c' = none) : UniqueIndex (values ++ [k]) (lock.release (f c))
      (holdings (Function.update call t (some c')) f) := by
  rw [holdings_update,hf,← holdings_eq (f := f) hc]
  exact h.commit ((holdings_eq hc).trans hk)

end Calls

end UniqueIndex

end SystemsLab
