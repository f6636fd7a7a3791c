import Mathlib.Data.Int.ConditionallyCompleteOrder
import Mathlib.Data.List.Pairwise
import Mathlib.Data.Set.Lattice
import Mathlib.Order.CompletePartialOrder
import Mathlib.Order.ConditionallyCompleteLattice.Basic
import Mathlib.Order.Interval.Set.Basic
import Mathlib.Tactic.Basic

/-!
# Tenures of one renewable lease

What a lock with a time to live is for, without a server: a holder is granted the lease until
some time, may extend it, and may end it. In an orderly history a grant finds nobody holding
the lease, and only the holder extends or ends it.
-/

namespace SystemsLab

variable {τ : Type*}

inductive TenureEvent (τ : Type*)
  | granted (holder : τ) (time expiry : Int)
  | extended (holder : τ) (time expiry : Int)
  | ended (holder : τ) (time : Int)
  deriving DecidableEq, Repr

namespace TenureEvent

def holder : TenureEvent τ → τ
  | granted t _ _ => t
  | extended t _ _ => t
  | ended t _ => t

def time : TenureEvent τ → Int
  | granted _ s _ => s
  | extended _ s _ => s
  | ended _ s => s

/-- Until when the holder has the lease after the event, if nothing else happens. -/
def expiry : TenureEvent τ → Int
  | granted _ _ e => e
  | extended _ _ e => e
  | ended _ s => s

end TenureEvent

/-- The history as it was at time `x`. -/
def asOf (x : Int) (h : List (TenureEvent τ)) : List (TenureEvent τ) :=
  h.filter (·.time ≤ x)

theorem asOf_all {h : List (TenureEvent τ)} {x : Int} (ht : ∀ o ∈ h, o.time ≤ x) :
    asOf x h = h := by
  rw [asOf,List.filter_eq_self]
  intro o ho
  exact decide_eq_true (ht o ho)

theorem asOf_cons_lt {e : TenureEvent τ} {x : Int} (older : List (TenureEvent τ))
    (hx : x < e.time) : asOf x (e::older) = asOf x older := by
  rw [asOf,List.filter_cons,if_neg (by simpa using hx)]
  rfl

theorem asOf_cons_le {older : List (TenureEvent τ)} {e : TenureEvent τ} {x : Int}
    (ht : ∀ o ∈ older, o.time ≤ e.time) (hx : e.time ≤ x) : asOf x (e::older) = e::older := by
  apply asOf_all
  intro o ho
  rcases List.mem_cons.mp ho with rfl | ho
  · exact hx
  · exact (ht o ho).trans hx

variable [DecidableEq τ]

/-- The end of a holder's tenure, as of a history that lists the newest event first. -/
def endOf : List (TenureEvent τ) → τ → Option Int
  | [], _ => none
  | e::older, t => if e.holder = t then some e.expiry else endOf older t

/-- `t` has the lease at time `x`. -/
def Holds (h : List (TenureEvent τ)) (t : τ) (x : Int) : Prop :=
  ∃ e, endOf (asOf x h) t = some e ∧ x < e

def Orderly : List (TenureEvent τ) → Prop
  | [] => True
  | e::older => (∀ o ∈ older, o.time ≤ e.time) ∧ Orderly older ∧
    match e with
    | .granted t s _ => endOf older t = none ∧ ∀ u, ¬ Holds older u s
    | .extended t s _ => Holds older t s
    | .ended t s => Holds older t s

variable {h older newer : List (TenureEvent τ)} {e : TenureEvent τ} {t u : τ}
  {x s a b : Int}

theorem endOf_self (e : TenureEvent τ) (older : List (TenureEvent τ)) :
    endOf (e::older) e.holder = some e.expiry :=
  if_pos rfl

theorem endOf_other (older : List (TenureEvent τ)) (ht : e.holder ≠ t) :
    endOf (e::older) t = endOf older t :=
  if_neg ht

theorem holds_iff (ht : ∀ o ∈ h, o.time ≤ x) : Holds h t x ↔ ∃ e, endOf h t = some e ∧ x < e := by
  rw [Holds,asOf_all ht]

theorem holds_cons_lt (hx : x < e.time) : Holds (e::older) t x ↔ Holds older t x := by
  rw [Holds,asOf_cons_lt older hx,Holds]

theorem holds_cons_other (ht : ∀ o ∈ older, o.time ≤ e.time) (hne : e.holder ≠ t) :
    Holds (e::older) t x ↔ Holds older t x := by
  rcases lt_or_ge x e.time with hx | hx
  · exact holds_cons_lt hx
  · rw [Holds,asOf_cons_le ht hx,endOf_other older hne,Holds,
      asOf_all fun o ho => (ht o ho).trans hx]

theorem holds_cons_self (ht : ∀ o ∈ older, o.time ≤ e.time) (hx : e.time ≤ x) :
    Holds (e::older) e.holder x ↔ x < e.expiry := by
  rw [Holds,asOf_cons_le ht hx,endOf_self]
  simp

theorem Holds.earlier (ho : ∀ o ∈ h, o.time ≤ s) (hx : s ≤ x) (ht : Holds h t x) : Holds h t s := by
  rw [holds_iff ho]
  obtain ⟨e,he,hlt⟩ := (holds_iff fun o hmem => (ho o hmem).trans hx).mp ht
  exact ⟨e,he,hx.trans_lt hlt⟩

theorem Orderly.suffix (h : Orderly (newer ++ older)) : Orderly older := by
  induction newer with
  | nil => exact h
  | cons e newer ih => exact ih h.2.1

/-- At no time do two holders have the lease. -/
theorem Orderly.unique (h : Orderly older) (ht : Holds older t x) (hu : Holds older u x) :
    t = u := by
  induction older generalizing t u x with
  | nil =>
    obtain ⟨_,he,_⟩ := ht
    cases he
  | cons e older ih =>
    obtain ⟨htimes,horderly,he⟩ := h
    rcases lt_or_ge x e.time with hx | hx
    · exact ih horderly ((holds_cons_lt hx).mp ht) ((holds_cons_lt hx).mp hu)
    · have hheld : ∀ v, Holds (e::older) v x → v = e.holder ∨ Holds older v e.time := by
        intro v hv
        by_cases hne : e.holder = v
        · exact .inl hne.symm
        · exact .inr (((holds_cons_other htimes hne).mp hv).earlier htimes hx)
      have hself : ∀ v, Holds (e::older) v x → v = e.holder := by
        intro v hv
        rcases hheld v hv with heq | hold
        · exact heq
        · cases e with
          | granted w s expiry => exact absurd hold (he.2 v)
          | extended w s expiry => exact ih horderly hold he
          | ended w s => exact ih horderly hold he
      rw [hself t ht,hself u hu]

theorem Orderly.endOf_of_holds (h : Orderly (e::older)) (ht : Holds older t e.time) :
    ∃ s, endOf older t = some s ∧ e.time < s :=
  (holds_iff h.1).mp ht

theorem Orderly.exists_granted (h : Orderly older) (ht : endOf older t = some s) :
    ∃ a b, .granted t a b ∈ older := by
  induction older generalizing s with
  | nil => cases ht
  | cons e older ih =>
    by_cases hself : e.holder = t
    · subst hself
      cases e with
      | granted v a b => exact ⟨a,b,List.mem_cons_self⟩
      | extended v a b =>
        obtain ⟨s',hs',_⟩ := h.endOf_of_holds h.2.2
        obtain ⟨a',b',hmem⟩ := ih h.2.1 hs'
        exact ⟨a',b',List.mem_cons_of_mem _ hmem⟩
      | ended v a =>
        obtain ⟨s',hs',_⟩ := h.endOf_of_holds h.2.2
        obtain ⟨a',b',hmem⟩ := ih h.2.1 hs'
        exact ⟨a',b',List.mem_cons_of_mem _ hmem⟩
    · rw [endOf_other older hself] at ht
      obtain ⟨a,b,hmem⟩ := ih h.2.1 ht
      exact ⟨a,b,List.mem_cons_of_mem _ hmem⟩

theorem endOf_isSome (h : .granted t a b ∈ older) : (endOf older t).isSome := by
  induction older with
  | nil => cases h
  | cons e older ih =>
    by_cases hself : e.holder = t
    · subst hself
      rw [endOf_self]
      rfl
    · rw [endOf_other older hself]
      cases h with
      | head => exact absurd rfl hself
      | tail _ h => exact ih h

/-- A tenure is an interval: from its grant until its end the holder has the lease. -/
theorem Orderly.holds_of_mem_Ico (h : Orderly older) (hgranted : .granted t a b ∈ older)
    (hend : endOf older t = some s) (hx : x ∈ Set.Ico a s) : Holds older t x := by
  induction older generalizing s with
  | nil => cases hend
  | cons e older ih =>
    obtain ⟨htimes,horderly,he⟩ := h
    by_cases hself : e.holder = t
    · subst hself
      rw [endOf_self] at hend
      cases hend
      rcases lt_or_ge x e.time with hlt | hge
      · rw [holds_cons_lt hlt]
        have hold : .granted e.holder a b ∈ older := by
          rcases List.mem_cons.mp hgranted with heq | hold
          · rw [← heq] at hlt
            exact absurd hx.1 (not_le_of_gt hlt)
          · exact hold
        have hheld : Holds older e.holder e.time := by
          cases e with
          | granted v c d =>
            have hsome := endOf_isSome hold
            have hnone : endOf older (TenureEvent.granted v c d).holder = none := he.1
            rw [hnone] at hsome
            cases hsome
          | extended v c d => exact he
          | ended v c => exact he
        obtain ⟨s',hs',hlt'⟩ := (holds_iff htimes).mp hheld
        exact ih horderly hold hs' ⟨hx.1,hlt.trans hlt'⟩
      · exact (holds_cons_self htimes hge).mpr hx.2
    · rw [endOf_other older hself] at hend
      rw [holds_cons_other htimes hself]
      cases hgranted with
      | head => exact absurd rfl hself
      | tail _ hgranted => exact ih horderly hgranted hend hx

/-- The time from a grant to the end of the holder's tenure. -/
def tenure (h : List (TenureEvent τ)) : TenureEvent τ → Set Int
  | .granted t a _ => {x | a ≤ x ∧ ∃ s, endOf h t = some s ∧ x < s}
  | _ => ∅

theorem Orderly.holds_of_mem_tenure (h : Orderly older) (he : e ∈ older)
    (hx : x ∈ tenure older e) : Holds older e.holder x := by
  cases e with
  | granted t a b =>
    obtain ⟨ha,s,hs,hlt⟩ := hx
    exact h.holds_of_mem_Ico he hs ⟨ha,hlt⟩
  | extended t a b => exact absurd hx (Set.notMem_empty x)
  | ended t a => exact absurd hx (Set.notMem_empty x)

theorem Orderly.pairwise_holder (h : Orderly older) :
    older.Pairwise fun e o => ∀ a b a' b', e = .granted e.holder a b →
      o = .granted o.holder a' b' → e.holder ≠ o.holder := by
  induction older with
  | nil => exact .nil
  | cons e older ih =>
    refine List.pairwise_cons.mpr ⟨?_,ih h.2.1⟩
    intro o ho a b a' b' he heq hholder
    rw [heq,← hholder] at ho
    have hsome := endOf_isSome ho
    have hgranted := h.2.2
    rw [he] at hgranted
    rw [hgranted.1] at hsome
    cases hsome

theorem Orderly.tenures_disjoint (h : Orderly older) :
    older.Pairwise fun e o => Disjoint (tenure older e) (tenure older o) := by
  refine h.pairwise_holder.imp_of_mem ?_
  intro e o he ho hne
  rw [Set.disjoint_left]
  intro x hx hx'
  have hholder := h.unique (h.holds_of_mem_tenure he hx) (h.holds_of_mem_tenure ho hx')
  cases e with
  | granted t a b =>
    cases o with
    | granted u a' b' => exact hne a b a' b' rfl rfl hholder
    | extended u a' b' => exact hx'
    | ended u a' => exact hx'
  | extended t a b => exact hx
  | ended t a => exact hx

/-- Whoever extends the lease has had it ever since it was granted. -/
theorem Orderly.held_since (h : Orderly (newer ++ .extended t s b::older)) :
    ∃ a b', .granted t a b' ∈ older ∧ ∀ x, a ≤ x → x ≤ s → Holds older t x := by
  have hextended := h.suffix
  obtain ⟨e,he,hlt⟩ := hextended.endOf_of_holds hextended.2.2
  obtain ⟨a,b',hgranted⟩ := hextended.2.1.exists_granted he
  refine ⟨a,b',hgranted,fun x ha hx => ?_⟩
  exact hextended.2.1.holds_of_mem_Ico hgranted he ⟨ha,hx.trans_lt hlt⟩

end SystemsLab
