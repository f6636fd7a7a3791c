import SystemsLab.Framework.Entries
import SystemsLab.Transfers.TransactionalTransfer
import Mathlib.Algebra.BigOperators.Group.Finset.Piecewise
import Mathlib.Algebra.Order.BigOperators.Group.Finset

/-!
# A transfer without a transaction

`performNaiveTransfer` sends four statements, each of which is committed at once. A call may end
before any of them, or without knowing of the last one. Then nobody completes the transfer.
-/

namespace SystemsLab.Transfers

structure NaiveTransferOptions where
  fromAccountId : Nat
  toAccountId : Nat
  amountCents : Int
  injectFailureAfterDebit : Bool
  deriving DecidableEq, Repr

structure NaiveTransferResult where
  transferId : Nat
  debited : Bool
  credited : Bool
  deriving DecidableEq, Repr

def NaiveTransferOptions.row (opts : NaiveTransferOptions) (id : Nat) (status : TransferStatus) :
    TransferRow where
  id := id
  fromAccountId := opts.fromAccountId
  toAccountId := opts.toAccountId
  amountCents := opts.amountCents
  mechanism := .naive
  status := status

/-- What the server has executed of a call. -/
inductive NaiveProgress
  | nothing
  | inserted (transferId : Nat)
  | debited (transferId : Nat)
  | credited (transferId : Nat)
  | completed (transferId : Nat)
  deriving DecidableEq, Repr

/-- A process that is gone counts as one that threw. -/
inductive NaiveOutcome
  | returned (result : NaiveTransferResult)
  | simulatedCrash (transferId : Nat)
  | threw
  deriving DecidableEq, Repr

structure NaiveCall where
  opts : NaiveTransferOptions
  progress : NaiveProgress := .nothing
  outcome : Option NaiveOutcome := none
  deriving DecidableEq, Repr

structure NaiveWorld where
  ids : Finset Nat
  balance : Nat → Int
  transfers : List TransferRow := []
  transferSeq : Nat := 1
  calls : List NaiveCall := []

inductive NaiveEvent
  | start (opts : NaiveTransferOptions)
  | query (call : Nat)
  | fail (call : Nat)
  | loseReply (call : Nat)
  | skip
  deriving DecidableEq, Repr

/-- What a call makes of the reply to its statement. -/
def NaiveCall.proceed (c : NaiveCall) (progress : NaiveProgress) : NaiveCall where
  opts := c.opts
  progress := progress
  outcome :=
    match progress with
    | .debited transferId =>
      if c.opts.injectFailureAfterDebit then some (.simulatedCrash transferId) else none
    | .completed transferId => some (.returned ⟨transferId,true,true⟩)
    | _ => none

namespace NaiveWorld

def running (w : NaiveWorld) (n : Nat) : Option NaiveCall :=
  w.calls[n]?.filter (·.outcome.isNone)

def put (w : NaiveWorld) (n : Nat) (c : NaiveCall) : NaiveWorld :=
  { w with calls := w.calls.set n c }

/-- `UPDATE accounts SET balance_cents = balance_cents + d WHERE id = k`. -/
def addBalance (w : NaiveWorld) (k : Nat) (d : Int) : Option NaiveWorld :=
  if k ∈ w.ids then
    if 0 ≤ w.balance k + d ∧ w.balance k + d ≤ maxInteger then
      some { w with balance := Function.update w.balance k (w.balance k + d) }
    else none
  else some w

/-- The next statement of `performNaiveTransfer` succeeds, and is committed. -/
def performNaiveTransfer (w : NaiveWorld) (c : NaiveCall) : Option (NaiveWorld × NaiveProgress) :=
  match c.progress with
  | .nothing =>
    let row := c.opts.row w.transferSeq .pending
    if row.valid (fun k => decide (k ∈ w.ids)) then
      some ({ w with
        transfers := w.transfers ++ [row]
        transferSeq := w.transferSeq + 1 },.inserted row.id)
    else none
  | .inserted transferId =>
    (w.addBalance c.opts.fromAccountId (-c.opts.amountCents)).map (·,.debited transferId)
  | .debited transferId =>
    (w.addBalance c.opts.toAccountId c.opts.amountCents).map (·,.credited transferId)
  | .credited transferId =>
    some ({ w with
      transfers := updateWhere (·.id == transferId) (fun row => { row with status := .completed })
        w.transfers },.completed transferId)
  | .completed _ => none

end NaiveWorld

def naiveStep (w : NaiveWorld) : NaiveEvent → Option NaiveWorld
  | .start opts => some { w with calls := w.calls ++ [{ opts }] }
  | .query n =>
    (w.running n).bind fun c =>
      (w.performNaiveTransfer c).map fun (next,progress) => next.put n (c.proceed progress)
  | .fail n => (w.running n).map fun c => w.put n { c with outcome := some .threw }
  | .loseReply n =>
    (w.running n).bind fun c =>
      (w.performNaiveTransfer c).map fun (next,progress) =>
        next.put n { c with progress, outcome := some .threw }
  | .skip => some { w with transferSeq := w.transferSeq + 1 }

/-- There are no transfers yet, and no balance is negative. -/
structure NaiveWorld.Fresh (w : NaiveWorld) : Prop where
  transfers : w.transfers = []
  calls : w.calls = []
  balance : ∀ k ∈ w.ids, 0 ≤ w.balance k

namespace NaiveCall

/-- The row of a call in `transfers`. -/
def row (c : NaiveCall) : Option TransferRow :=
  match c.progress with
  | .nothing => none
  | .inserted transferId | .debited transferId | .credited transferId =>
    some (c.opts.row transferId .pending)
  | .completed transferId => some (c.opts.row transferId .completed)

def effect (c : NaiveCall) (k : Nat) : Int :=
  match c.progress with
  | .nothing | .inserted _ => 0
  | .debited _ => -if k = c.opts.fromAccountId then c.opts.amountCents else 0
  | .credited _ | .completed _ => (if k = c.opts.toAccountId then c.opts.amountCents else 0) -
      if k = c.opts.fromAccountId then c.opts.amountCents else 0

/-- The money that a call has debited and not credited. -/
def vanished (c : NaiveCall) : Int :=
  match c.progress with
  | .debited _ => c.opts.amountCents
  | _ => 0

structure Known (ids : Finset Nat) (c : NaiveCall) : Prop where
  source : c.opts.fromAccountId ∈ ids
  target : c.opts.toAccountId ∈ ids
  positive : 0 < c.opts.amountCents

private theorem Known.of_opts {ids : Finset Nat} {c d : NaiveCall} (h : c.Known ids)
    (hopts : d.opts = c.opts) : d.Known ids := by
  obtain ⟨hsource,htarget,hpositive⟩ := h
  rw [← hopts] at hsource htarget hpositive
  exact ⟨hsource,htarget,hpositive⟩

private theorem sum_effect {ids : Finset Nat} {c : NaiveCall}
    (h : c.progress ≠ .nothing → c.Known ids) :
    ∑ k ∈ ids, c.effect k = -c.vanished := by
  unfold effect vanished
  cases hp : c.progress with
  | nothing => simp
  | inserted transferId => simp
  | debited transferId =>
    have hknown := h (by rw [hp]; nofun)
    simp [hknown.source]
  | credited transferId =>
    have hknown := h (by rw [hp]; nofun)
    simp [hknown.source,hknown.target]
  | completed transferId =>
    have hknown := h (by rw [hp]; nofun)
    simp [hknown.source,hknown.target]

end NaiveCall

/-- The balances and the rows are what the calls have done. -/
structure NaiveWorld.Sound (first w : NaiveWorld) : Prop where
  ids : w.ids = first.ids
  balance : ∀ k, w.balance k = first.balance k + (w.calls.map (·.effect k)).sum
  nonneg : ∀ k ∈ w.ids, 0 ≤ w.balance k
  known : ∀ c ∈ w.calls, c.progress ≠ .nothing → c.Known w.ids
  rows : w.transfers.Perm (w.calls.filterMap NaiveCall.row)
  nodup : (w.transfers.map TransferRow.id).Nodup
  fresh : ∀ row ∈ w.transfers, row.id < w.transferSeq
  returned : ∀ c ∈ w.calls, ∀ result, c.outcome = some (.returned result) →
    c.progress = .completed result.transferId

namespace NaiveWorld.Sound

variable {first w w' next : NaiveWorld} {c d : NaiveCall} {progress : NaiveProgress}

theorem start (h : first.Fresh) : first.Sound first := by
  refine ⟨rfl,fun k => ?_,h.balance,?_,?_,?_,?_,?_⟩
  · simp [h.calls]
  · simp [h.calls]
  · simp [h.calls,h.transfers]
  · simp [h.transfers]
  · simp [h.transfers]
  · simp [h.calls]

private theorem update {n : Nat} (h : first.Sound w) (hc : w.calls[n]? = some c)
    (hcalls : w'.calls = w.calls.set n d) (hids : w'.ids = w.ids)
    (hbalance : ∀ k, w'.balance k = w.balance k + (d.effect k - c.effect k))
    (hnonneg : ∀ k ∈ w.ids, 0 ≤ w'.balance k)
    (hknown : d.progress ≠ .nothing → d.Known w.ids)
    (hrows : w'.transfers.Perm (w'.calls.filterMap NaiveCall.row))
    (hnodup : (w'.transfers.map TransferRow.id).Nodup)
    (hfresh : ∀ row ∈ w'.transfers, row.id < w'.transferSeq)
    (hreturned : ∀ result, d.outcome = some (.returned result) →
      d.progress = .completed result.transferId) : first.Sound w' := by
  refine ⟨hids.trans h.ids,fun k => ?_,?_,?_,hrows,hnodup,hfresh,?_⟩
  · rw [hbalance,h.balance,hcalls,sum_map_set (fun c => NaiveCall.effect c k) hc]
    omega
  · rw [hids]
    exact hnonneg
  · intro e he
    rw [hids]
    rw [hcalls] at he
    rcases List.mem_or_eq_of_mem_set he with hold | rfl
    · exact h.known e hold
    · exact hknown
  · intro e he
    rw [hcalls] at he
    rcases List.mem_or_eq_of_mem_set he with hold | rfl
    · exact h.returned e hold
    · exact hreturned

private theorem keepRow {n : Nat} (h : first.Sound w) (hc : w.calls[n]? = some c)
    (hrow : d.row = c.row) : w.transfers.Perm ((w.calls.set n d).filterMap NaiveCall.row) := by
  rw [filterMap_set_same hc hrow]
  exact h.rows

private theorem addBalance_some {k : Nat} {delta : Int} (hk : k ∈ w.ids)
    (h : w.addBalance k delta = some next) : 0 ≤ w.balance k + delta ∧
      next = { w with balance := Function.update w.balance k (w.balance k + delta) } := by
  unfold addBalance at h
  rw [if_pos hk] at h
  split at h
  next hok =>
    cases h
    exact ⟨hok.1,rfl⟩
  · cases h

private theorem update_add (f : Nat → Int) (m k : Nat) (delta : Int) :
    Function.update f m (f m + delta) k = f k + if k = m then delta else 0 := by
  by_cases hk : k = m
  · rw [hk,Function.update_self,if_pos rfl]
  · rw [Function.update_of_ne hk,if_neg hk,add_zero]

private theorem nonneg_update (h : first.Sound w) {k : Nat} {v : Int} (hv : 0 ≤ v) :
    ∀ m ∈ w.ids, 0 ≤ Function.update w.balance k v m := by
  intro m hm
  by_cases hmk : m = k
  · rw [hmk,Function.update_self]
    exact hv
  · rw [Function.update_of_ne hmk]
    exact h.nonneg m hm

private theorem addBalance {n k : Nat} {delta : Int} (h : first.Sound w) (hc : w.calls[n]? = some c)
    (hk : k ∈ w.ids) (hnext : w.addBalance k delta = some next)
    (heffect : ∀ m, d.effect m - c.effect m = if m = k then delta else 0) (hrow : d.row = c.row)
    (hknown : d.Known w.ids) (hreturned : ∀ result, d.outcome = some (.returned result) →
      d.progress = .completed result.transferId) : first.Sound (next.put n d) := by
  obtain ⟨hok,rfl⟩ := addBalance_some hk hnext
  refine h.update hc rfl rfl (fun m => ?_) (h.nonneg_update hok) (fun _ => hknown)
    (h.keepRow hc hrow) h.nodup h.fresh hreturned
  rw [heffect]
  exact update_add w.balance k m delta

private theorem execute {n : Nat} (h : first.Sound w) (hc : w.calls[n]? = some c)
    (hexec : w.performNaiveTransfer c = some (next,progress)) (hopts : d.opts = c.opts)
    (hprogress : d.progress = progress)
    (hreturned : ∀ result, d.outcome = some (.returned result) →
      d.progress = .completed result.transferId) : first.Sound (next.put n d) := by
  have hknown : c.progress ≠ .nothing → d.Known w.ids := by
    intro hp
    exact (h.known c (List.mem_of_getElem? hc) hp).of_opts hopts
  unfold performNaiveTransfer at hexec
  cases hp : c.progress with
  | nothing =>
    simp only [hp] at hexec
    split at hexec
    next hvalid =>
      cases hexec
      have hrow : d.row = some (c.opts.row w.transferSeq .pending) := by
        rw [NaiveCall.row,hprogress,hopts]
        rfl
      have hnone : c.row = none := by rw [NaiveCall.row,hp]
      have hperm := filterMap_set_new (f := NaiveCall.row) hc hnone hrow
      refine h.update hc rfl rfl (fun k => ?_) h.nonneg (fun _ => ?_) ?_ ?_ ?_ hreturned
      · simp [NaiveCall.effect,hprogress,hp,put]
      · simp only [TransferRow.valid,NaiveTransferOptions.row,Bool.and_eq_true] at hvalid
        have hc' : c.Known w.ids := by
          refine ⟨?_,?_,?_⟩
          · exact of_decide_eq_true hvalid.1.2
          · exact of_decide_eq_true hvalid.2
          · exact of_decide_eq_true hvalid.1.1.1.1
        exact hc'.of_opts hopts
      · exact ((List.perm_append_singleton _ _).trans (h.rows.cons _)).trans hperm.symm
      · show ((w.transfers ++ [c.opts.row w.transferSeq .pending]).map TransferRow.id).Nodup
        exact nodup_append_next h.nodup h.fresh
      · exact forall_append_next (fun row hrow => Nat.lt_succ_of_lt (h.fresh row hrow))
          (Nat.lt_succ_self _)
    · cases hexec
  | inserted transferId =>
    simp only [hp] at hexec
    obtain ⟨next,hnext,heq⟩ := Option.map_eq_some_iff.mp hexec
    cases heq
    have hd := hknown (by rw [hp]; nofun)
    refine h.addBalance hc (hopts ▸ hd.source) hnext (fun m => ?_) ?_ hd hreturned
    · rw [NaiveCall.effect,NaiveCall.effect,hprogress,hp,hopts]
      dsimp only
      split <;> omega
    · rw [NaiveCall.row,NaiveCall.row,hprogress,hp,hopts]
  | debited transferId =>
    simp only [hp] at hexec
    obtain ⟨next,hnext,heq⟩ := Option.map_eq_some_iff.mp hexec
    cases heq
    have hd := hknown (by rw [hp]; nofun)
    refine h.addBalance hc (hopts ▸ hd.target) hnext (fun m => ?_) ?_ hd hreturned
    · rw [NaiveCall.effect,NaiveCall.effect,hprogress,hp,hopts]
      dsimp only
      omega
    · rw [NaiveCall.row,NaiveCall.row,hprogress,hp,hopts]
  | credited transferId =>
    simp only [hp] at hexec
    cases hexec
    have hd := hknown (by rw [hp]; nofun)
    have hrow : c.row = some (c.opts.row transferId .pending) := by rw [NaiveCall.row,hp]
    have hrow' : d.row = some (c.opts.row transferId .completed) := by
      rw [NaiveCall.row,hprogress,hopts]
    have hnodup : ((w.calls.filterMap NaiveCall.row).map TransferRow.id).Nodup :=
      (h.rows.map TransferRow.id).nodup_iff.mp h.nodup
    have hset := filterMap_set_key (f := NaiveCall.row)
      (fun row : TransferRow => { row with status := .completed }) hnodup hc hrow hrow'
    refine h.update hc rfl rfl (fun k => ?_) h.nonneg (fun _ => hd) ?_ ?_ ?_ hreturned
    · rw [NaiveCall.effect,NaiveCall.effect,hprogress,hp,hopts]
      show w.balance k = _
      dsimp only
      omega
    · show (updateWhere _ _ w.transfers).Perm ((w.calls.set n d).filterMap NaiveCall.row)
      rw [hset]
      exact h.rows.map _
    · show ((updateWhere _ _ w.transfers).map TransferRow.id).Nodup
      have hsame : ∀ row : TransferRow,
          TransferRow.id { row with status := .completed } = row.id := fun _ => rfl
      rw [map_updateWhere TransferRow.id hsame]
      exact h.nodup
    · intro row hrow
      obtain ⟨old,hold,rfl⟩ := mem_updateWhere.mp hrow
      split
      · exact h.fresh old hold
      · exact h.fresh old hold
  | completed transferId =>
    simp only [hp] at hexec
    cases hexec

private theorem of_running {n : Nat} (hc : w.running n = some c) :
    w.calls[n]? = some c ∧ c.outcome = none := by
  obtain ⟨hcall,hnone⟩ := Option.filter_eq_some_iff.mp hc
  exact ⟨hcall,Option.isNone_iff_eq_none.mp hnone⟩

private theorem proceed_returned {result : NaiveTransferResult}
    (h : (c.proceed progress).outcome = some (.returned result)) :
    (c.proceed progress).progress = .completed result.transferId := by
  unfold NaiveCall.proceed at h
  cases progress with
  | completed transferId =>
    cases h
    rfl
  | debited transferId =>
    dsimp only at h
    split at h <;> cases h
  | _ => cases h

private theorem stop {n : Nat} (h : first.Sound w) (hc : w.calls[n]? = some c) :
    first.Sound (w.put n { c with outcome := some .threw }) := by
  refine h.update hc rfl rfl (fun k => ?_) h.nonneg (fun hp => ?_) (h.keepRow hc rfl) h.nodup
    h.fresh nofun
  · show w.balance k = w.balance k + (c.effect k - c.effect k)
    omega
  · exact (h.known c (List.mem_of_getElem? hc) hp).of_opts rfl

theorem step {e : NaiveEvent} (h : first.Sound w) (hstep : naiveStep w e = some w') :
    first.Sound w' := by
  cases e with
  | start opts =>
    cases hstep
    refine ⟨h.ids,fun k => ?_,h.nonneg,?_,?_,h.nodup,h.fresh,?_⟩
    · rw [h.balance]
      simp [NaiveCall.effect]
    · refine forall_append_next h.known fun hp => absurd rfl hp
    · rw [List.filterMap_append,List.filterMap_cons_none rfl,List.filterMap_nil,List.append_nil]
      exact h.rows
    · exact forall_append_next h.returned nofun
  | query n =>
    obtain ⟨c,hrunning,hstep⟩ := Option.bind_eq_some_iff.mp hstep
    obtain ⟨⟨next,progress⟩,hexec,rfl⟩ := Option.map_eq_some_iff.mp hstep
    refine h.execute (d := c.proceed progress) (of_running hrunning).1 hexec rfl rfl ?_
    exact fun result hresult => proceed_returned hresult
  | fail n =>
    obtain ⟨c,hrunning,rfl⟩ := Option.map_eq_some_iff.mp hstep
    exact h.stop (of_running hrunning).1
  | loseReply n =>
    obtain ⟨c,hrunning,hstep⟩ := Option.bind_eq_some_iff.mp hstep
    obtain ⟨⟨next,progress⟩,hexec,rfl⟩ := Option.map_eq_some_iff.mp hstep
    exact h.execute (of_running hrunning).1 hexec rfl rfl nofun
  | skip =>
    cases hstep
    exact ⟨h.ids,h.balance,h.nonneg,h.known,h.rows,h.nodup,
      fun row hrow => Nat.lt_succ_of_lt (h.fresh row hrow),h.returned⟩

theorem reachable (hfirst : first.Fresh) (h : Reachable naiveStep (· = first) w) :
    first.Sound w := by
  apply ReachableBy.invariant ?_ ?_ h
  · rintro _ rfl
    exact .start hfirst
  · exact fun s e t hs _ hstep => hs.step hstep

end NaiveWorld.Sound

/-- The money in all accounts. -/
def NaiveWorld.total (w : NaiveWorld) : Int := ∑ k ∈ w.ids, w.balance k

/-- What the rows that are still `pending` were to transfer. -/
def NaiveWorld.pendingCents (w : NaiveWorld) : Int :=
  ((w.transfers.filter (·.status = .pending)).map TransferRow.amountCents).sum

def NaiveWorld.vanished (w : NaiveWorld) : Int := (w.calls.map NaiveCall.vanished).sum

/-- What is missing has been debited for a call that has not credited it. A call that is over is
over for good. -/
structure NaiveWorld.Leaks (first w : NaiveWorld) : Prop where
  missing : w.total = first.total - w.vanished
  detected : w.vanished ≤ w.pendingCents
  conserved : w.total = first.total ↔ ∀ c ∈ w.calls, ∀ transferId, c.progress ≠ .debited transferId
  stuck : ∀ c ∈ w.calls, ∀ transferId, c.progress = .debited transferId →
    c.opts.row transferId .pending ∈ w.transfers
  returned : ∀ c ∈ w.calls, ∀ result, c.outcome = some (.returned result) →
    c.opts.row result.transferId .completed ∈ w.transfers
  overdraft : ∀ k ∈ w.ids, 0 ≤ w.balance k
  final : ∀ (n : Nat) (c : NaiveCall) es t, w.calls[n]? = some c → c.outcome ≠ none →
    run naiveStep w es = some t → t.calls[n]? = some c

namespace NaiveCall

variable {ids : Finset Nat} {cs : List NaiveCall}

private theorem vanished_nonneg {c : NaiveCall} (h : c.progress ≠ .nothing → c.Known ids) :
    0 ≤ c.vanished := by
  unfold vanished
  cases hp : c.progress with
  | debited transferId => exact (h (by rw [hp]; nofun)).positive.le
  | _ => exact Int.le_refl 0

private theorem vanished_eq_zero {c : NaiveCall} (h : c.progress ≠ .nothing → c.Known ids) :
    c.vanished = 0 ↔ ∀ transferId, c.progress ≠ .debited transferId := by
  unfold vanished
  cases hp : c.progress with
  | debited transferId =>
    have hpositive := (h (by rw [hp]; nofun)).positive
    exact iff_of_false hpositive.ne' fun hnot => hnot transferId rfl
  | _ => exact iff_of_true rfl nofun

private theorem sum_effects (h : ∀ c ∈ cs, c.progress ≠ .nothing → c.Known ids) :
    ∑ k ∈ ids, (cs.map (·.effect k)).sum = -(cs.map vanished).sum := by
  induction cs with
  | nil => simp
  | cons c rest ih =>
    obtain ⟨hc,hrest⟩ := List.forall_mem_cons.mp h
    simp only [List.map_cons,List.sum_cons]
    rw [Finset.sum_add_distrib,sum_effect hc,ih hrest]
    omega

private theorem sum_vanished_eq_zero (h : ∀ c ∈ cs, c.progress ≠ .nothing → c.Known ids) :
    0 ≤ (cs.map vanished).sum ∧ ((cs.map vanished).sum = 0 ↔
      ∀ c ∈ cs, ∀ transferId, c.progress ≠ .debited transferId) := by
  induction cs with
  | nil => simp
  | cons c rest ih =>
    obtain ⟨hc,hrest⟩ := List.forall_mem_cons.mp h
    obtain ⟨hnonneg,hzero⟩ := ih hrest
    have hown := vanished_nonneg hc
    rw [List.forall_mem_cons,← hzero,← vanished_eq_zero hc]
    simp only [List.map_cons,List.sum_cons]
    omega

/-- A call that has debited has a row that is pending. -/
theorem sum_vanished_le (h : ∀ c ∈ cs, c.progress ≠ .nothing → c.Known ids) :
    (cs.map vanished).sum ≤
      (((cs.filterMap row).filter (·.status = .pending)).map TransferRow.amountCents).sum := by
  induction cs with
  | nil => simp
  | cons c rest ih =>
    obtain ⟨hc,hrest⟩ := List.forall_mem_cons.mp h
    have hle := ih hrest
    rw [List.map_cons,List.sum_cons,vanished]
    cases hp : c.progress with
    | nothing =>
      rw [List.filterMap_cons_none (by rw [row,hp])]
      simpa using hle
    | completed transferId =>
      rw [List.filterMap_cons_some (b := c.opts.row transferId .completed) (by rw [row,hp])]
      simpa [NaiveTransferOptions.row] using hle
    | debited transferId =>
      rw [List.filterMap_cons_some (b := c.opts.row transferId .pending) (by rw [row,hp])]
      simpa [NaiveTransferOptions.row] using hle
    | _ transferId =>
      have hpositive := (hc (by rw [hp]; nofun)).positive
      rw [List.filterMap_cons_some (b := c.opts.row transferId .pending) (by rw [row,hp])]
      simp [NaiveTransferOptions.row]
      omega

end NaiveCall

namespace NaiveWorld

variable {first w w' : NaiveWorld} {n : Nat} {c : NaiveCall}

private theorem addBalance_calls {next : NaiveWorld} {k : Nat} {delta : Int}
    (h : w.addBalance k delta = some next) : next.calls = w.calls := by
  unfold addBalance at h
  split at h
  · split at h
    · cases h
      rfl
    · cases h
  · cases h
    rfl

private theorem performNaiveTransfer_calls {next : NaiveWorld} {progress : NaiveProgress}
    {d : NaiveCall}
    (h : w.performNaiveTransfer d = some (next,progress)) : next.calls = w.calls := by
  unfold performNaiveTransfer at h
  split at h
  · dsimp only at h
    split at h
    · cases h
      rfl
    · cases h
  · obtain ⟨next,hnext,heq⟩ := Option.map_eq_some_iff.mp h
    cases heq
    exact addBalance_calls hnext
  · obtain ⟨next,hnext,heq⟩ := Option.map_eq_some_iff.mp h
    cases heq
    exact addBalance_calls hnext
  · cases h
    rfl
  · cases h

theorem step_final {e : NaiveEvent} (hc : w.calls[n]? = some c) (hover : c.outcome ≠ none)
    (hstep : naiveStep w e = some w') : w'.calls[n]? = some c := by
  have hother : ∀ {m d}, w.running m = some d → m ≠ n := by
    rintro m d hd rfl
    obtain ⟨hcall,hnone⟩ := Sound.of_running hd
    rw [hc] at hcall
    cases hcall
    exact hover hnone
  cases e with
  | start opts =>
    cases hstep
    obtain ⟨hlt,_⟩ := List.getElem?_eq_some_iff.mp hc
    exact (List.getElem?_append_left hlt).trans hc
  | query m =>
    obtain ⟨d,hd,hstep⟩ := Option.bind_eq_some_iff.mp hstep
    obtain ⟨⟨next,progress⟩,hexec,rfl⟩ := Option.map_eq_some_iff.mp hstep
    show (next.calls.set m _)[n]? = _
    rw [List.getElem?_set_ne (hother hd),performNaiveTransfer_calls hexec]
    exact hc
  | fail m =>
    obtain ⟨d,hd,rfl⟩ := Option.map_eq_some_iff.mp hstep
    exact (List.getElem?_set_ne (hother hd)).trans hc
  | loseReply m =>
    obtain ⟨d,hd,hstep⟩ := Option.bind_eq_some_iff.mp hstep
    obtain ⟨⟨next,progress⟩,hexec,rfl⟩ := Option.map_eq_some_iff.mp hstep
    show (next.calls.set m _)[n]? = _
    rw [List.getElem?_set_ne (hother hd),performNaiveTransfer_calls hexec]
    exact hc
  | skip =>
    cases hstep
    exact hc

private theorem Sound.missing (h : first.Sound w) : w.total = first.total - w.vanished := by
  unfold total vanished
  rw [Finset.sum_congr rfl fun k _ => h.balance k,Finset.sum_add_distrib,
    NaiveCall.sum_effects h.known,h.ids]
  omega

end NaiveWorld

theorem performNaiveTransfer_leaks {first w : NaiveWorld} (hfirst : first.Fresh)
    (h : Reachable naiveStep (· = first) w) : first.Leaks w := by
  have hw := NaiveWorld.Sound.reachable hfirst h
  have hmissing := hw.missing
  refine ⟨hmissing,?_,?_,?_,?_,hw.nonneg,?_⟩
  · have hpending := ((hw.rows.filter (·.status = .pending)).map TransferRow.amountCents).sum_eq
    rw [NaiveWorld.pendingCents,hpending]
    exact NaiveCall.sum_vanished_le hw.known
  · rw [← (NaiveCall.sum_vanished_eq_zero hw.known).2,hmissing]
    show _ ↔ w.vanished = 0
    omega
  · intro c hc transferId hp
    refine hw.rows.mem_iff.mpr (List.mem_filterMap.mpr ⟨c,hc,?_⟩)
    rw [NaiveCall.row,hp]
  · intro c hc result hreturned
    refine hw.rows.mem_iff.mpr (List.mem_filterMap.mpr ⟨c,hc,?_⟩)
    rw [NaiveCall.row,hw.returned c hc result hreturned]
  · intro n c es t hc hover hrun
    exact run_invariant (fun _ _ _ hs hstep => NaiveWorld.step_final hs hover hstep) hc hrun

/-- One transfer of two crashes after its debit, and the other one goes through. -/
def crashAfterDebit : List NaiveEvent :=
  [.start ⟨1,2,1000,true⟩,.start ⟨2,1,300,false⟩,.query 0,.query 1,.query 0,.query 1,.query 1,
    .query 1]

def twoNaiveAccounts : NaiveWorld where
  ids := {1,2}
  balance _ := 5000

theorem crashAfterDebit_leaks : ∃ w, run naiveStep twoNaiveAccounts crashAfterDebit = some w ∧
    twoNaiveAccounts.Leaks w ∧ w.vanished = 1000 ∧
      w.transfers.map (·.status) = [.pending,.completed] := by
  have hfresh : twoNaiveAccounts.Fresh := ⟨rfl,rfl,fun _ _ => Int.natCast_nonneg 5000⟩
  have hrun : (run naiveStep twoNaiveAccounts crashAfterDebit).any (fun w =>
      decide (w.vanished = 1000 ∧ w.transfers.map (·.status) = [.pending,.completed])) = true := by
    decide +kernel
  obtain ⟨w,hw,hresult,hreachable⟩ := exists_run_of_any hrun
  exact ⟨w,hw,performNaiveTransfer_leaks hfresh hreachable,of_decide_eq_true hresult⟩

end SystemsLab.Transfers
