import SystemsLab.Framework.Table
import Mathlib.Logic.Function.Basic
import Mathlib.Logic.Relation

/-!
# Leases on the items of a queue

What a leased work queue is for, without tables or SQL: an item is free, held under one
lease, or closed for good. A lease is granted on a free item or over a lapsed lease. Its
holder settles it once, which frees or closes the item unless the lease has been superseded.
-/

namespace SystemsLab

variable {ι ω : Type*}

structure Lease (ι ω : Type*) where
  item : ι
  holder : ω
  number : Nat
  deadline : Int
  deriving DecidableEq, Repr

inductive LeaseEntry (ι ω : Type*)
  | granted (lease : Lease ι ω) (time : Int)
  | settled (lease : Lease ι ω)
  deriving DecidableEq, Repr

inductive Slot (ι ω : Type*)
  | free
  | held (lease : Lease ι ω)
  | closed
  deriving DecidableEq, Repr

section Log

variable [DecidableEq ι]

/-- The leases granted on one item, newest first. -/
def leasesOf (i : ι) : List (LeaseEntry ι ω) → List (Lease ι ω)
  | [] => []
  | .granted l _::log => if l.item = i then l::leasesOf i log else leasesOf i log
  | .settled _::log => leasesOf i log

@[simp] theorem leasesOf_nil (i : ι) : leasesOf i ([] : List (LeaseEntry ι ω)) = [] := rfl

@[simp] theorem leasesOf_settled (i : ι) (l : Lease ι ω) (log : List (LeaseEntry ι ω)) :
    leasesOf i (.settled l::log) = leasesOf i log := rfl

theorem leasesOf_granted_self (l : Lease ι ω) (time : Int) (log : List (LeaseEntry ι ω)) :
    leasesOf l.item (.granted l time::log) = l::leasesOf l.item log :=
  if_pos rfl

theorem leasesOf_granted_ne {i : ι} {l : Lease ι ω} (time : Int) (log : List (LeaseEntry ι ω))
    (h : i ≠ l.item) : leasesOf i (.granted l time::log) = leasesOf i log :=
  if_neg h.symm

theorem mem_leasesOf_cons {i : ι} {l : Lease ι ω} {log : List (LeaseEntry ι ω)}
    (h : l ∈ leasesOf i log) (e : LeaseEntry ι ω) : l ∈ leasesOf i (e::log) := by
  cases e with
  | settled l' => exact h
  | granted l' time =>
    by_cases hi : l'.item = i
    · rw [leasesOf,if_pos hi]
      exact List.mem_cons_of_mem _ h
    · rw [leasesOf,if_neg hi]
      exact h

theorem leasesOf_length_le (e : LeaseEntry ι ω) (i : ι) (log : List (LeaseEntry ι ω)) :
    (leasesOf i log).length ≤ (leasesOf i (e::log)).length := by
  cases e with
  | settled l => exact Nat.le_refl _
  | granted l time =>
    by_cases hi : l.item = i
    · rw [leasesOf,if_pos hi,List.length_cons]
      exact Nat.le_succ _
    · rw [leasesOf,if_neg hi]

/-- No grant happens while an earlier lease on the same item is neither settled nor past
its deadline. -/
def Exclusive : List (LeaseEntry ι ω) → Prop
  | [] => True
  | .granted l time::older =>
    (∀ l' ∈ leasesOf l.item older, .settled l' ∉ older → l'.deadline < time) ∧ Exclusive older
  | .settled _::older => Exclusive older

instance decidableExclusive [DecidableEq ω] :
    ∀ log : List (LeaseEntry ι ω), Decidable (Exclusive log)
  | [] => isTrue trivial
  | .granted _ _::older =>
    have := decidableExclusive older
    instDecidableAnd
  | .settled _::older => decidableExclusive older

end Log

/-- `grants` counts the leases granted so far, `log` lists what happened, newest first. -/
structure LeaseTable (ι ω : Type*) where
  slot : ι → Slot ι ω
  grants : ι → Nat
  clock : Int
  log : List (LeaseEntry ι ω)

namespace LeaseTable

variable [DecidableEq ι]

/-- What may happen to a table of leases. -/
inductive Move (t : LeaseTable ι ω) : LeaseTable ι ω → Prop
  | grant (l : Lease ι ω) : l.number = t.grants l.item + 1 →
      (t.slot l.item = .free ∨ ∃ l', t.slot l.item = .held l' ∧ l'.deadline < t.clock) →
      Move t { t with
        slot := Function.update t.slot l.item (.held l)
        grants := Function.update t.grants l.item l.number
        log := .granted l t.clock::t.log }
  | settle (l : Lease ι ω) (s : Slot ι ω) : t.slot l.item = .held l → s = .free ∨ s = .closed →
      Move t { t with
        slot := Function.update t.slot l.item s
        log := .settled l::t.log }
  | settleStale (l : Lease ι ω) : t.slot l.item ≠ .held l →
      Move t { t with log := .settled l::t.log }
  | close (i : ι) : Move t { t with slot := Function.update t.slot i .closed }
  | lapse (i : ι) (l : Lease ι ω) : t.slot i = .held l → l.deadline < t.clock →
      Move t { t with slot := Function.update t.slot i .free }
  | tick (clock : Int) : t.clock ≤ clock → Move t { t with clock }

/-- The invariant of lease tables. -/
structure Consistent (t : LeaseTable ι ω) : Prop where
  exclusive : Exclusive t.log
  count : ∀ i, (leasesOf i t.log).length = t.grants i
  newest : ∀ i l, (leasesOf i t.log).head? = some l → l.number = t.grants i
  numbers : ∀ i, (leasesOf i t.log).Pairwise fun newer older => older.number < newer.number
  held : ∀ i l, t.slot i = .held l → (leasesOf i t.log).head? = some l
  unsettled : ∀ i, ∀ l ∈ leasesOf i t.log, .settled l ∉ t.log →
    l.deadline < t.clock ∨ t.slot i = .held l ∨ t.slot i = .closed

def Empty (t : LeaseTable ι ω) : Prop :=
  (∀ i l, t.slot i ≠ .held l) ∧ (∀ i, t.grants i = 0) ∧ t.log = []

theorem consistent_of_empty {t : LeaseTable ι ω} (h : t.Empty) : t.Consistent := by
  obtain ⟨hslot,hgrants,hlog⟩ := h
  have hnone : ∀ i, leasesOf i t.log = [] := by
    intro i
    rw [hlog,leasesOf_nil]
  constructor
  · rw [hlog]
    trivial
  · intro i
    rw [hnone,hgrants]
    rfl
  · intro i l hl
    rw [hnone] at hl
    cases hl
  · intro i
    rw [hnone]
    exact .nil
  · intro i l hl
    exact absurd hl (hslot i l)
  · intro i l hl
    rw [hnone] at hl
    cases hl

/-- A lease whose number is the count of grants is the newest one. -/
theorem Consistent.head_of_number {t : LeaseTable ι ω} (h : t.Consistent) {l : Lease ι ω}
    (hl : l ∈ leasesOf l.item t.log) (hn : l.number = t.grants l.item) :
    (leasesOf l.item t.log).head? = some l := by
  cases hlog : leasesOf l.item t.log with
  | nil =>
    rw [hlog] at hl
    cases hl
  | cons l' rest =>
    have hp := h.numbers l.item
    rw [hlog] at hl hp
    cases hl with
    | head => rfl
    | tail _ hl =>
      have hlt := List.rel_of_pairwise_cons hp hl
      have hnew := h.newest l.item l' (by rw [hlog]; rfl)
      omega

theorem Consistent.number_le {t : LeaseTable ι ω} (h : t.Consistent) {i : ι} {l : Lease ι ω}
    (hl : l ∈ leasesOf i t.log) : l.number ≤ t.grants i := by
  cases hlog : leasesOf i t.log with
  | nil =>
    rw [hlog] at hl
    cases hl
  | cons l' rest =>
    have hp := h.numbers i
    have hnew := h.newest i l' (by rw [hlog]; rfl)
    rw [hlog] at hl hp
    cases hl with
    | head => exact Nat.le_of_eq hnew
    | tail _ hl =>
      have hlt := List.rel_of_pairwise_cons hp hl
      omega

/-- The number of a lease identifies it among the leases on its item. -/
theorem Consistent.eq_of_number {t : LeaseTable ι ω} (h : t.Consistent) {i : ι}
    {l l' : Lease ι ω} (hl : l ∈ leasesOf i t.log) (hl' : l' ∈ leasesOf i t.log)
    (hn : l.number = l'.number) : l = l' := by
  have hp := h.numbers i
  generalize leasesOf i t.log = leases at hl hl' hp
  induction leases with
  | nil => cases hl
  | cons k ks ih =>
    cases hl with
    | head =>
      cases hl' with
      | head => rfl
      | tail _ hl' =>
        have := List.rel_of_pairwise_cons hp hl'
        omega
    | tail _ hl =>
      cases hl' with
      | head =>
        have := List.rel_of_pairwise_cons hp hl
        omega
      | tail _ hl' => exact ih hl hl' hp.of_cons

/-- Settling and clock moves keep the grants; what remains is the case analysis of slots. -/
theorem Consistent.keep_grants {t t' : LeaseTable ι ω} (h : t.Consistent)
    (hgrants : t'.grants = t.grants) (hlog : Exclusive t.log → Exclusive t'.log)
    (hleases : ∀ i, leasesOf i t'.log = leasesOf i t.log)
    (hheld : ∀ i l, t'.slot i = .held l → t.slot i = .held l)
    (hopen : ∀ i, ∀ l ∈ leasesOf i t.log, .settled l ∉ t'.log →
      l.deadline < t'.clock ∨ t'.slot i = .held l ∨ t'.slot i = .closed) : t'.Consistent := by
  refine ⟨hlog h.exclusive,?_,?_,?_,?_,?_⟩
  · intro i
    rw [hleases,hgrants]
    exact h.count i
  · intro i l hl
    rw [hleases] at hl
    rw [hgrants]
    exact h.newest i l hl
  · intro i
    rw [hleases]
    exact h.numbers i
  · intro i l hl
    rw [hleases]
    exact h.held i l (hheld i l hl)
  · intro i l hl
    rw [hleases] at hl
    exact hopen i l hl

theorem Consistent.grant {t t' : LeaseTable ι ω} (h : t.Consistent) {l : Lease ι ω}
    (hn : l.number = t.grants l.item + 1)
    (hslot : t.slot l.item = .free ∨ ∃ l', t.slot l.item = .held l' ∧ l'.deadline < t.clock)
    (hslot' : t'.slot = Function.update t.slot l.item (.held l))
    (hgrants' : t'.grants = Function.update t.grants l.item l.number)
    (hclock' : t'.clock = t.clock) (hlog' : t'.log = .granted l t.clock::t.log) :
    t'.Consistent := by
  have hlapsed : ∀ l' ∈ leasesOf l.item t.log, .settled l' ∉ t.log →
      l'.deadline < t.clock := by
    intro l' hl' hs
    rcases h.unsettled l.item l' hl' hs with hd | hheld | hclosed
    · exact hd
    · rcases hslot with hfree | ⟨l₂,hl₂,hd⟩
      · rw [hfree] at hheld
        cases hheld
      · rw [hl₂] at hheld
        cases hheld
        exact hd
    · rcases hslot with hfree | ⟨l₂,hl₂,_⟩
      · rw [hfree] at hclosed
        cases hclosed
      · rw [hl₂] at hclosed
        cases hclosed
  refine ⟨?_,?_,?_,?_,?_,?_⟩ <;> rw [hlog']
  · exact ⟨hlapsed,h.exclusive⟩
  · intro i
    rw [hgrants']
    by_cases hi : i = l.item
    · subst hi
      rw [leasesOf_granted_self,List.length_cons,h.count,hn]
      exact (Function.update_self l.item _ t.grants).symm
    · rw [leasesOf_granted_ne _ _ hi,Function.update_of_ne hi]
      exact h.count i
  · intro i l' hl'
    rw [hgrants']
    by_cases hi : i = l.item
    · subst hi
      rw [leasesOf_granted_self] at hl'
      cases hl'
      exact (Function.update_self l.item l.number t.grants).symm
    · rw [leasesOf_granted_ne _ _ hi] at hl'
      rw [Function.update_of_ne hi]
      exact h.newest i l' hl'
  · intro i
    by_cases hi : i = l.item
    · subst hi
      rw [leasesOf_granted_self]
      refine List.pairwise_cons.mpr ⟨fun l' hl' => ?_,h.numbers _⟩
      have := h.number_le hl'
      omega
    · rw [leasesOf_granted_ne _ _ hi]
      exact h.numbers i
  · intro i l' hl'
    rw [hslot'] at hl'
    by_cases hi : i = l.item
    · subst hi
      rw [Function.update_self] at hl'
      cases hl'
      rw [leasesOf_granted_self]
      rfl
    · rw [Function.update_of_ne hi] at hl'
      rw [leasesOf_granted_ne _ _ hi]
      exact h.held i l' hl'
  · intro i l' hl' hs
    rw [hslot',hclock']
    have hs' : .settled l' ∉ t.log := fun hmem => hs (List.mem_cons_of_mem _ hmem)
    by_cases hi : i = l.item
    · subst hi
      rw [leasesOf_granted_self] at hl'
      cases hl' with
      | head => exact .inr (.inl (Function.update_self _ _ _))
      | tail _ hl' => exact .inl (hlapsed l' hl' hs')
    · rw [leasesOf_granted_ne _ _ hi] at hl'
      rw [Function.update_of_ne hi]
      exact h.unsettled i l' hl' hs'

theorem Consistent.vacate {t t' : LeaseTable ι ω} (h : t.Consistent) {j : ι} {s : Slot ι ω}
    (hslot' : t'.slot = Function.update t.slot j s) (hs : s = .free ∨ s = .closed)
    (hgrants' : t'.grants = t.grants) (hclock' : t'.clock = t.clock)
    (hlog : Exclusive t.log → Exclusive t'.log)
    (hleases : ∀ i, leasesOf i t'.log = leasesOf i t.log)
    (hsettled : ∀ l, .settled l ∈ t.log → .settled l ∈ t'.log)
    (hopen : ∀ l ∈ leasesOf j t.log, .settled l ∉ t'.log → l.deadline < t.clock ∨ s = .closed) :
    t'.Consistent := by
  apply h.keep_grants hgrants' hlog hleases
  · intro i l hl
    rw [hslot'] at hl
    by_cases hi : i = j
    · subst hi
      rw [Function.update_self] at hl
      rcases hs with rfl | rfl <;> cases hl
    · rwa [Function.update_of_ne hi] at hl
  · intro i l hl hns
    rw [hclock',hslot']
    by_cases hi : i = j
    · subst hi
      rw [Function.update_self]
      rcases hopen l hl hns with hd | hclosed
      · exact .inl hd
      · exact .inr (.inr hclosed)
    · rw [Function.update_of_ne hi]
      exact h.unsettled i l hl (mt (hsettled l) hns)

theorem Consistent.move {t t' : LeaseTable ι ω} (h : t.Consistent) (hm : Move t t') :
    t'.Consistent := by
  cases hm with
  | grant l hn hslot => exact h.grant hn hslot rfl rfl rfl rfl
  | settle l s hheld hs =>
    refine h.vacate rfl hs rfl rfl ?_ (fun _ => rfl) ?_ ?_
    · exact id
    · exact fun _ hmem => List.mem_cons_of_mem _ hmem
    · intro l' hl' hns
      rcases h.unsettled _ l' hl' fun hmem => hns (List.mem_cons_of_mem _ hmem) with hd | heq | hc
      · exact .inl hd
      · rw [hheld] at heq
        cases heq
        exact absurd List.mem_cons_self hns
      · rw [hheld] at hc
        cases hc
  | settleStale l _ =>
    apply h.keep_grants
    · rfl
    · exact id
    · exact fun _ => rfl
    · exact fun _ _ => id
    · intro i l' hl' hns
      exact h.unsettled i l' hl' fun hmem => hns (List.mem_cons_of_mem _ hmem)
  | close j =>
    refine h.vacate rfl (.inr rfl) rfl rfl ?_ (fun _ => rfl) ?_ ?_
    · exact id
    · exact fun _ hmem => hmem
    · exact fun _ _ _ => .inr rfl
  | lapse j l hheld hd =>
    refine h.vacate rfl (.inl rfl) rfl rfl ?_ (fun _ => rfl) ?_ ?_
    · exact id
    · exact fun _ hmem => hmem
    · intro l' hl' hns
      rcases h.unsettled _ l' hl' hns with hd' | heq | hc
      · exact .inl hd'
      · rw [hheld] at heq
        cases heq
        exact .inl hd
      · rw [hheld] at hc
        cases hc
  | tick clock hle =>
    apply h.keep_grants
    · rfl
    · exact id
    · exact fun _ => rfl
    · exact fun _ _ => id
    · intro i l' hl' hns
      rcases h.unsettled i l' hl' hns with hd | hrest
      · exact .inl (Int.lt_of_lt_of_le hd hle)
      · exact .inr hrest

/-- One step of an implementation may be any number of moves. -/
def Moves : LeaseTable ι ω → LeaseTable ι ω → Prop :=
  Relation.ReflTransGen Move

theorem Consistent.moves {t t' : LeaseTable ι ω} (h : t.Consistent) (hm : Moves t t') :
    t'.Consistent := by
  induction hm with
  | refl => exact h
  | tail _ hm ih => exact ih.move hm

/-- Settling a lease and closing its item, whoever holds the item. -/
theorem Moves.finish (t : LeaseTable ι ω) (l : Lease ι ω) : Moves t { t with
    slot := Function.update t.slot l.item .closed, log := .settled l::t.log } := by
  by_cases h : t.slot l.item = .held l
  · exact .single (.settle l .closed h (.inr rfl))
  · exact .tail (.single (.settleStale l h)) (.close l.item)

/-- Settling a lease and freeing its item, unless somebody else's lease on it still runs. -/
theorem Moves.release {t : LeaseTable ι ω} {l : Lease ι ω} (h : t.slot l.item = .free ∨
    ∃ l', t.slot l.item = .held l' ∧ (l' = l ∨ l'.deadline < t.clock)) : Moves t { t with
    slot := Function.update t.slot l.item .free, log := .settled l::t.log } := by
  by_cases hheld : t.slot l.item = .held l
  · exact .single (.settle l .free hheld (.inl rfl))
  · have hstale := Move.settleStale l hheld
    rcases h with hfree | ⟨l',hl',rfl | hd⟩
    · have hself := Function.update_eq_self l.item t.slot
      rw [hfree] at hself
      rw [hself]
      exact .single hstale
    · exact absurd hl' hheld
    · exact .tail (.single hstale) (.lapse l.item l' hl' hd)

theorem Move.closed {t t' : LeaseTable ι ω} {i : ι} (hm : Move t t')
    (h : t.slot i = .closed) :
    t'.slot i = .closed ∧ leasesOf i t'.log = leasesOf i t.log := by
  cases hm with
  | grant l _ hslot =>
    have hi : i ≠ l.item := by
      rintro rfl
      rcases hslot with hfree | ⟨l',hl',_⟩
      · rw [h] at hfree
        cases hfree
      · rw [h] at hl'
        cases hl'
    exact ⟨(Function.update_of_ne hi _ _).trans h,leasesOf_granted_ne _ _ hi⟩
  | settle l s hheld =>
    have hi : i ≠ l.item := by
      rintro rfl
      rw [h] at hheld
      cases hheld
    exact ⟨(Function.update_of_ne hi _ _).trans h,rfl⟩
  | settleStale => exact ⟨h,rfl⟩
  | close j =>
    by_cases hi : i = j
    · subst hi
      exact ⟨Function.update_self _ _ _,rfl⟩
    · exact ⟨(Function.update_of_ne hi _ _).trans h,rfl⟩
  | lapse j l hheld =>
    have hi : i ≠ j := by
      rintro rfl
      rw [h] at hheld
      cases hheld
    exact ⟨(Function.update_of_ne hi _ _).trans h,rfl⟩
  | tick => exact ⟨h,rfl⟩

theorem Moves.closed {t t' : LeaseTable ι ω} {i : ι} (hm : Moves t t')
    (h : t.slot i = .closed) :
    t'.slot i = .closed ∧ leasesOf i t'.log = leasesOf i t.log := by
  induction hm with
  | refl => exact ⟨h,rfl⟩
  | tail _ hm ih =>
    have hstep := hm.closed ih.1
    exact ⟨hstep.1,hstep.2.trans ih.2⟩

variable {ρ : Type*}

/-- The leases that a table with lock columns stands for. -/
def ofRows (key : ρ → ι) (slot : ρ → Slot ι ω) (attempts : ρ → Nat) (rows : List ρ)
    (clock : Int) (log : List (LeaseEntry ι ω)) : LeaseTable ι ω where
  slot i := ((rowAt key rows i).map slot).getD .free
  grants i := ((rowAt key rows i).map attempts).getD 0
  clock := clock
  log := log

variable {key : ρ → ι} {slot : ρ → Slot ι ω} {attempts : ρ → Nat} {rows : List ρ}
  {clock : Int} {log : List (LeaseEntry ι ω)}

theorem ofRows_slot (hkeys : (rows.map key).Nodup) {row : ρ} (hrow : row ∈ rows) :
    (ofRows key slot attempts rows clock log).slot (key row) = slot row := by
  simp [ofRows,rowAt_of_mem hkeys hrow]

theorem ofRows_grants (hkeys : (rows.map key).Nodup) {row : ρ} (hrow : row ∈ rows) :
    (ofRows key slot attempts rows clock log).grants (key row) = attempts row := by
  simp [ofRows,rowAt_of_mem hkeys hrow]

theorem ofRows_update (hkeys : (rows.map key).Nodup) {f : ρ → ρ} (hf : ∀ r, key (f r) = key r)
    {p : ρ → Bool} {row : ρ} (hrow : row ∈ rows) (hp : p row = true) :
    ofRows key slot attempts (updateWhere (fun r => key r == key row && p r) f rows) clock log =
      { slot := Function.update (ofRows key slot attempts rows clock log).slot (key row)
          (slot (f row))
        grants := Function.update (ofRows key slot attempts rows clock log).grants (key row)
          (attempts (f row))
        clock := clock
        log := log } := by
  have hat : ∀ i, rowAt key (updateWhere (fun r => key r == key row && p r) f rows) i =
      if i = key row then some (f row) else rowAt key rows i := by
    intro i
    rw [rowAt_updateWhere_key hf,rowAt_of_mem hkeys hrow]
    simp [hp]
  simp only [ofRows,LeaseTable.mk.injEq,and_true]
  constructor
  · funext i
    rw [hat]
    by_cases hi : i = key row
    · subst hi
      rw [if_pos rfl,Function.update_self]
      rfl
    · rw [if_neg hi,Function.update_of_ne hi]
  · funext i
    rw [hat]
    by_cases hi : i = key row
    · subst hi
      rw [if_pos rfl,Function.update_self]
      rfl
    · rw [if_neg hi,Function.update_of_ne hi]

theorem ofRows_update_key (hkeys : (rows.map key).Nodup) {f : ρ → ρ}
    (hf : ∀ r, key (f r) = key r) {row : ρ} (hrow : row ∈ rows) :
    ofRows key slot attempts (updateWhere (fun r => key r == key row) f rows) clock log =
      { slot := Function.update (ofRows key slot attempts rows clock log).slot (key row)
          (slot (f row))
        grants := Function.update (ofRows key slot attempts rows clock log).grants (key row)
          (attempts (f row))
        clock := clock
        log := log } := by
  have hp : (fun r => key r == key row) = fun r => key r == key row && true := by
    funext r
    rw [Bool.and_true]
  rw [hp]
  exact ofRows_update hkeys hf hrow rfl

theorem empty_ofRows (hfresh : ∀ row ∈ rows, attempts row = 0 ∧ ∀ l, slot row ≠ .held l) :
    (ofRows key slot attempts rows clock []).Empty := by
  refine ⟨?_,?_,rfl⟩
  · intro i l hl
    cases hr : rowAt key rows i with
    | none => simp [ofRows,hr] at hl
    | some row => exact (hfresh row (rowAt_some hr).1).2 l (by simpa [ofRows,hr] using hl)
  · intro i
    cases hr : rowAt key rows i with
    | none => simp [ofRows,hr]
    | some row => simpa [ofRows,hr] using (hfresh row (rowAt_some hr).1).1

end LeaseTable

end SystemsLab
