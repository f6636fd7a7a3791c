import SystemsLab.Transfers.TransactionalTransfer

/-!
# Balances and transfers reconcile

While a transaction is open its debit and credit are pending on the rows it has locked. A
commit posts both together with the `completed` row, and whatever ends a call without a commit
posts nothing.
-/

namespace SystemsLab.Transfers

open RowVersions

variable {first w w' : TransfersWorld}

def TransactionalTransferOptions.debit (opts : TransactionalTransferOptions) (accountId : Nat) :
    Int :=
  if accountId = opts.fromAccountId then -opts.amountCents else 0

def TransactionalTransferOptions.credit (opts : TransactionalTransferOptions) (accountId : Nat) :
    Int :=
  if accountId = opts.toAccountId then opts.amountCents else 0

/-- What the open transaction of a call has added to an account. -/
def TransferCall.pending (c : TransferCall) (accountId : Nat) : Int :=
  match c.phase with
  | .crediting _ => c.opts.debit accountId
  | .rollingBack _ => c.opts.debit accountId
  | .completing _ => c.opts.debit accountId + c.opts.credit accountId
  | .committing _ => c.opts.debit accountId + c.opts.credit accountId
  | _ => 0

/-- The row that the transaction of a call has inserted is the transfer it was asked for. -/
def TransferCall.Fits (c : TransferCall) : Prop :=
  match c.phase with
  | .debiting row => row = c.opts.row row.id .pending none
  | .crediting row => row = c.opts.row row.id .pending none
  | .completing row => row = c.opts.row row.id .pending none
  | .committing row => row = c.opts.row row.id .completed none
  | _ => True

private theorem effect_row (opts : TransactionalTransferOptions) (id : Nat)
    (status : TransferStatus)
    (reason : Option String) (k : Nat) :
    (opts.row id status reason).effect k = opts.debit k + opts.credit k := by
  unfold TransactionalTransferOptions.debit TransactionalTransferOptions.credit
  show (if k = opts.toAccountId then opts.amountCents else 0) -
    (if k = opts.fromAccountId then opts.amountCents else 0) = _
  by_cases hto : k = opts.toAccountId
  · by_cases hfrom : k = opts.fromAccountId
    · rw [if_pos hto,if_pos hfrom,if_pos hfrom]
      omega
    · rw [if_pos hto,if_neg hfrom,if_neg hfrom]
      omega
  · by_cases hfrom : k = opts.fromAccountId
    · rw [if_neg hto,if_pos hfrom,if_pos hfrom]
      omega
    · rw [if_neg hto,if_neg hfrom,if_neg hfrom]
      omega

private theorem netCompleted_append (rows : List TransferRow) (row : TransferRow) (k : Nat) :
    netCompleted (rows ++ [row]) k =
      netCompleted rows k + if row.status = .completed then row.effect k else 0 := by
  unfold netCompleted
  rw [List.filter_append,List.map_append,List.sum_append]
  congr 1
  by_cases hrow : row.status = .completed <;> simp [hrow]

/-- The call whose statement an event is. -/
def TransferEvent.call : TransferEvent → Option Nat
  | .start n _ => some n
  | .query n => some n
  | .fail n _ => some n
  | .loseReply n => some n
  | .skip => none

inductive TransferMove (w : TransfersWorld) : Option Nat → TransfersWorld → Prop
  | skipped (transferSeq : Nat) : TransferMove w none { w with transferSeq }
  | started (n : Nat) (opts : TransactionalTransferOptions) : w.call n = none →
      TransferMove w (some n) (w.put n { opts })
  | stepped (n : Nat) (c : TransferCall) (phase : TransferPhase) (transferSeq : Nat) :
      w.call n = some c → (∀ r, c.phase ≠ .returned r) →
      (∀ id, phase ≠ .returned (.committed id)) →
      (∀ k, ({ c with phase } : TransferCall).pending k = c.pending k) →
      (c.Fits → ({ c with phase } : TransferCall).Fits) →
      TransferMove w (some n) { w.put n { c with phase } with transferSeq }
  | added (n : Nat) (c : TransferCall) (phase : TransferPhase) (k : Nat) (d balance : Int) :
      w.call n = some c → (∀ r, c.phase ≠ .returned r) → (∀ r, phase ≠ .returned r) →
      (w.accounts k).version n = some balance →
      (∀ m, ({ c with phase } : TransferCall).pending m =
        c.pending m + if m = k then d else 0) →
      (c.Fits → ({ c with phase } : TransferCall).Fits) →
      TransferMove w (some n) { w.put n { c with phase } with
        accounts := w.accounts.put n k (balance + d) }
  | rolledBack (n : Nat) (c : TransferCall) (phase : TransferPhase) : w.call n = some c →
      (∀ r, c.phase ≠ .returned r) → (∀ id, phase ≠ .returned (.committed id)) →
      (∀ k, ({ c with phase } : TransferCall).pending k = 0) →
      ({ c with phase } : TransferCall).Fits → TransferMove w (some n) (w.rollback n c phase)
  | committed (n : Nat) (c : TransferCall) (row : TransferRow) : w.call n = some c →
      c.phase = .committing row → TransferMove w (some n) (w.commit n c row)
  | recorded (n : Nat) (c : TransferCall) (row : TransferRow)
      (result : TransactionalTransferResult) (transferSeq : Nat) : w.call n = some c →
      (∀ r, c.phase ≠ .returned r) → (∀ id, result ≠ .committed id) →
      (∀ k, c.pending k = 0) → row.status = .failed →
      TransferMove w (some n) { w.put n { c with phase := .returned result } with
        transfers := w.transfers ++ [row]
        transferSeq }

private theorem addBalance_some {accounts accounts' : RowVersions Nat Nat Int} {n k : Nat} {d : Int}
    (h : addBalance accounts n k d = some accounts') :
    ∃ balance, (accounts k).version n = some balance ∧
      accounts' = accounts.put n k (balance + d) := by
  unfold addBalance at h
  split at h
  · cases h
  · rename_i balance hversion
    split at h
    · cases h
      exact ⟨balance,hversion,rfl⟩
    · cases h

theorem recordFailure_move {n : Nat} {c : TransferCall} {reason : String}
    {result : Nat → TransactionalTransferResult} (hc : w.call n = some c)
    (hp : c.phase = .recording reason) (hresult : ∀ i id, result i ≠ .committed id)
    (h : w.recordFailure n c reason result = some w') : TransferMove w (some n) w' := by
  unfold TransfersWorld.recordFailure at h
  dsimp only at h
  split at h
  · cases h
    refine .recorded n c _ _ _ hc ?_ (hresult _) ?_ rfl
    · rw [hp]
      nofun
    · intro k
      unfold TransferCall.pending
      rw [hp]
  · cases h

theorem performTransactionalTransfer_move {n : Nat} {c : TransferCall} (hc : w.call n = some c)
    (h : w.performTransactionalTransfer n c = some w') : TransferMove w (some n) w' := by
  obtain ⟨opts,phase⟩ := c
  unfold TransfersWorld.performTransactionalTransfer at h
  cases phase with
  | connecting =>
    cases h
    exact .stepped n _ .inserting _ hc nofun nofun (fun _ => rfl) id
  | inserting =>
    dsimp only at h
    split at h
    · cases h
      exact .stepped n _ (.debiting _) _ hc nofun nofun (fun _ => rfl) fun _ => rfl
    · cases h
  | debiting row =>
    obtain ⟨accounts,haccounts,rfl⟩ := Option.map_eq_some_iff.mp h
    obtain ⟨balance,hversion,rfl⟩ := addBalance_some haccounts
    have hadd : ∀ m, opts.debit m = 0 + if m = opts.fromAccountId then -opts.amountCents else 0 :=
      fun m => (zero_add _).symm
    refine .added n _ _ _ _ balance hc nofun ?_ hversion ?_ ?_
    · intro r
      dsimp only
      split <;> nofun
    · intro m
      dsimp only
      split <;> exact hadd m
    · intro hfits
      dsimp only
      split
      · trivial
      · exact hfits
  | crediting row =>
    obtain ⟨accounts,haccounts,rfl⟩ := Option.map_eq_some_iff.mp h
    obtain ⟨balance,hversion,rfl⟩ := addBalance_some haccounts
    exact .added n _ (.completing row) _ _ balance hc nofun nofun hversion (fun _ => rfl) id
  | completing row =>
    cases h
    refine .stepped n _ (.committing _) _ hc nofun nofun (fun _ => rfl) fun hfits => ?_
    show { row with status := TransferStatus.completed } = opts.row row.id .completed none
    rw [show row = opts.row row.id .pending none from hfits]
    rfl
  | committing row =>
    cases h
    exact .committed n _ row hc rfl
  | rollingBack reason =>
    cases h
    exact .rolledBack n _ _ hc nofun nofun (fun _ => rfl) trivial
  | aborted reason =>
    cases h
    exact .rolledBack n _ _ hc nofun nofun (fun _ => rfl) trivial
  | recording reason => exact recordFailure_move hc rfl (by nofun) h
  | returned result => cases h

theorem failStatement_move {n : Nat} {c : TransferCall} {reason : String}
    (hc : w.call n = some c) (h : w.failStatement n c reason = some w') :
    TransferMove w (some n) w' := by
  obtain ⟨opts,phase⟩ := c
  unfold TransfersWorld.failStatement at h
  cases phase with
  | connecting =>
    cases h
    exact .stepped n _ (.returned .threw) _ hc nofun nofun (fun _ => rfl) fun _ => trivial
  | recording reason =>
    cases h
    exact .stepped n _ (.returned .threw) _ hc nofun nofun (fun _ => rfl) fun _ => trivial
  | returned result => cases h
  | _ =>
    cases h
    exact .rolledBack n _ _ hc nofun nofun (fun _ => rfl) trivial

theorem transferStep_move {e : TransferEvent} (h : transferStep w e = some w') :
    TransferMove w e.call w' := by
  unfold transferStep at h
  cases e with
  | start n opts =>
    dsimp only at h
    split at h
    · cases h
    · rename_i hn
      cases h
      exact .started n opts hn
  | query n =>
    dsimp only at h
    split at h
    · rename_i c hc
      exact performTransactionalTransfer_move hc h
    · cases h
  | fail n reason =>
    dsimp only at h
    split at h
    · rename_i c hc
      exact failStatement_move hc h
    · cases h
  | loseReply n =>
    dsimp only at h
    split at h
    · rename_i c hc
      split at h
      · rename_i reason hp
        exact recordFailure_move hc hp (by nofun) h
      · cases h
    · cases h
  | skip =>
    cases h
    exact .skipped _

def TransfersWorld.posted (first w : TransfersWorld) (accountId : Nat) : Int :=
  netCompleted w.transfers accountId - netCompleted first.transfers accountId

structure TransfersWorld.Consistent (first w : TransfersWorld) : Prop where
  books : Books first.accounts w.accounts (first.posted w)
    (pendingOf w.call TransferCall.pending)
  fits : ∀ n c, w.call n = some c → c.Fits
  settled : ∀ row ∈ w.transfers, row ∈ first.transfers ∨ row.status ≠ .pending
  completed : ∀ n c id, w.call n = some c → c.phase = .returned (.committed id) →
    c.opts.row id .completed none ∈ w.transfers

namespace TransfersWorld.Consistent

theorem start (h : first.Idle) : first.Consistent first := by
  refine ⟨?_,?_,fun row hrow => .inl hrow,?_⟩
  · have hposted : first.posted first = fun _ => 0 := funext fun _ => sub_self _
    rw [hposted,h.calls]
    exact .start h.rows
  · intro n c hc
    rw [h.calls] at hc
    cases hc
  · intro n c id hc
    rw [h.calls] at hc
    cases hc

theorem keep (h : first.Consistent w) {n : Nat} {c : TransferCall}
    (hcall : w'.call = Function.update w.call n (some c)) (hfits : c.Fits)
    (hp : ∀ id, c.phase ≠ .returned (.committed id))
    (hbooks : Books first.accounts w'.accounts (first.posted w')
      (pendingOf (Function.update w.call n (some c)) TransferCall.pending))
    (hrows : ∀ row, row ∈ w.transfers → row ∈ w'.transfers)
    (hsettled : ∀ row ∈ w'.transfers, row ∈ w.transfers ∨ row.status ≠ .pending) :
    first.Consistent w' := by
  refine ⟨?_,?_,?_,?_⟩
  · rw [hcall]
    exact hbooks
  · intro m d hd
    rw [hcall] at hd
    rcases update_eq_some hd with ⟨rfl,rfl⟩ | ⟨_,hold⟩
    · exact hfits
    · exact h.fits m d hold
  · intro row hrow
    rcases hsettled row hrow with hold | hnew
    · exact h.settled row hold
    · exact .inr hnew
  · intro m d id hd hphase
    rw [hcall] at hd
    rcases update_eq_some hd with ⟨rfl,rfl⟩ | ⟨_,hold⟩
    · exact absurd hphase (hp id)
    · exact hrows _ (h.completed m d id hold hphase)

theorem commit (h : first.Consistent w) {n : Nat} {c : TransferCall} {row : TransferRow}
    (hc : w.call n = some c) (hp : c.phase = .committing row) :
    first.Consistent (w.commit n c row) := by
  have hfits := h.fits n c hc
  unfold TransferCall.Fits at hfits
  rw [hp] at hfits
  have hrow : row = c.opts.row row.id .completed none := hfits
  have hmem : row ∈ w.transfers ++ [row] := List.mem_append_right _ (List.mem_singleton_self _)
  refine ⟨?_,?_,?_,?_⟩
  · refine h.books.commitCall hc (fun k => ?_) fun _ => rfl
    have heffect : row.effect k = c.pending k := by
      rw [hrow,effect_row]
      unfold TransferCall.pending
      rw [hp]
    show netCompleted (w.transfers ++ [row]) k - _ = _
    rw [netCompleted_append,if_pos (by rw [hrow]; rfl),heffect,TransfersWorld.posted]
    omega
  · intro m d hd
    rcases update_eq_some hd with ⟨rfl,rfl⟩ | ⟨_,hold⟩
    · trivial
    · exact h.fits m d hold
  · intro other hother
    rcases List.mem_append.mp hother with hold | hnew
    · exact h.settled other hold
    · rw [List.mem_singleton.mp hnew,hrow]
      exact .inr nofun
  · intro m d id hd hphase
    rcases update_eq_some hd with ⟨rfl,rfl⟩ | ⟨_,hold⟩
    · cases hphase
      rw [← hrow]
      exact hmem
    · exact List.mem_append_left _ (h.completed m d id hold hphase)

theorem move {m : Option Nat} (h : first.Consistent w) (hm : TransferMove w m w') :
    first.Consistent w' := by
  cases hm with
  | skipped transferSeq => exact ⟨h.books,h.fits,h.settled,h.completed⟩
  | started n opts hn =>
    refine h.keep rfl trivial (fun _ hid => by cases hid) (h.books.keepCall fun k => ?_) (fun _ => id)
      fun _ => .inl
    rw [pendingOf,hn]
    rfl
  | stepped n c phase transferSeq hc hopen hp hpending hfits =>
    refine h.keep rfl (hfits (h.fits n c hc)) hp (h.books.keepCall fun k => ?_)
      (fun _ => id) fun _ => .inl
    rw [pendingOf_eq hc]
    exact hpending k
  | added n c phase k d balance hc hopen hp hversion hpending hfits =>
    exact h.keep rfl (hfits (h.fits n c hc)) (fun id => hp _)
      (h.books.addCall hc hversion hpending) (fun _ => id) fun _ => .inl
  | rolledBack n c phase hc hopen hp hpending hfits =>
    exact h.keep rfl hfits hp (h.books.rollbackCall hpending) (fun _ => id) fun _ => .inl
  | committed n c row hc hp => exact h.commit hc hp
  | recorded n c row result transferSeq hc hopen hresult hpending hstatus =>
    have hposted : ∀ k, netCompleted (w.transfers ++ [row]) k = netCompleted w.transfers k := by
      intro k
      rw [netCompleted_append,if_neg (by simp [hstatus]),add_zero]
    refine h.keep rfl trivial ?_ ?_ (fun _ => List.mem_append_left _) ?_
    · intro id heq
      exact hresult id (by cases heq; rfl)
    · have heq : (fun k => netCompleted (w.transfers ++ [row]) k -
          netCompleted first.transfers k) = first.posted w := by
        funext k
        rw [hposted]
        rfl
      show Books _ _ (fun k => netCompleted (w.transfers ++ [row]) k - _) _
      rw [heq]
      refine h.books.keepCall fun k => ?_
      rw [pendingOf_eq hc,hpending]
      rfl
    · intro other hother
      rcases List.mem_append.mp hother with hold | hnew
      · exact .inl hold
      · rw [List.mem_singleton.mp hnew,hstatus]
        exact .inr (by simp)

end TransfersWorld.Consistent

/-- `uncommitted` looks at a call when the run is over: unless it has returned `committed: true`,
none of its statements has changed a balance. -/
structure TransfersWorld.Reconciled (first w : TransfersWorld) : Prop where
  balance : ∀ k, (w.accounts k).committed = (first.accounts k).committed +
    (netCompleted w.transfers k - netCompleted first.transfers k)
  settled : ∀ row ∈ w.transfers, row ∈ first.transfers ∨ row.status ≠ .pending
  completed : ∀ n c id, w.call n = some c → c.phase = .returned (.committed id) →
    c.opts.row id .completed none ∈ w.transfers
  changed : ∀ e w' k, transferStep w e = some w' →
    (w'.accounts k).committed ≠ (w.accounts k).committed →
    ∃ n c row, e.call = some n ∧ w.call n = some c ∧ c.phase = .committing row ∧
      w' = w.commit n c row ∧ w'.call n = some { c with phase := .returned (.committed row.id) }
  final : ∀ e w' n c result, transferStep w e = some w' → w.call n = some c →
    c.phase = .returned result → w'.call n = some c
  uncommitted : ∀ e w' es v n c, transferStep w e = some w' → e.call = some n →
    run transferStep w' es = some v → v.call n = some c →
    (∀ id, c.phase ≠ .returned (.committed id)) →
    ∀ k, (w'.accounts k).committed = (w.accounts k).committed

/-- Only a commit changes a balance. -/
theorem TransferMove.changed {m : Option Nat} (hm : TransferMove w m w') {k : Nat}
    (hk : (w'.accounts k).committed ≠ (w.accounts k).committed) :
    ∃ n c row, m = some n ∧ w.call n = some c ∧ c.phase = .committing row ∧
      w' = w.commit n c row ∧
      w'.call n = some { c with phase := .returned (.committed row.id) } := by
  cases hm with
  | skipped transferSeq => exact absurd rfl hk
  | started n opts hn => exact absurd rfl hk
  | stepped n c phase transferSeq hc hopen hp hpending hfits => exact absurd rfl hk
  | added n c phase m d balance hc hopen hp hversion hpending hfits =>
    exact absurd (committed_put _ _ _ _ _) hk
  | rolledBack n c phase hc hopen hp hpending hfits =>
    exact absurd (committed_rollback _ _ _) hk
  | committed n c row hc hp => exact ⟨n,c,row,rfl,hc,hp,rfl,Function.update_self _ _ _⟩
  | recorded n c row result transferSeq hc hopen hresult hpending hstatus => exact absurd rfl hk

private theorem TransferMove.final {m : Option Nat} (hm : TransferMove w m w') {n : Nat}
    {c : TransferCall} {result : TransactionalTransferResult} (hc : w.call n = some c)
    (hp : c.phase = .returned result) : w'.call n = some c := by
  have hother : ∀ m d d', w.call m = some d → (∀ r, d.phase ≠ .returned r) →
      Function.update w.call m (some d') n = some c := by
    intro m d d' hd hopen
    rw [Function.update_of_ne]
    · exact hc
    · rintro rfl
      rw [hc] at hd
      cases hd
      exact hopen result hp
  cases hm with
  | skipped transferSeq => exact hc
  | started m opts hm => exact update_of_some hm hc
  | stepped m d phase transferSeq hd hopen hphase hpending hfits => exact hother m d _ hd hopen
  | added m d phase k a balance hd hopen hphase hversion hpending hfits =>
    exact hother m d _ hd hopen
  | rolledBack m d phase hd hopen hphase hpending hfits => exact hother m d _ hd hopen
  | committed m d row hd hphase => exact hother m d _ hd (by rw [hphase]; nofun)
  | recorded m d row r transferSeq hd hopen hresult hpending hstatus =>
    exact hother m d _ hd hopen

theorem returned_of_run {n : Nat} {c : TransferCall} {result : TransactionalTransferResult}
    {es : List TransferEvent} (hc : w.call n = some c) (hp : c.phase = .returned result)
    (hrun : run transferStep w es = some w') : w'.call n = some c :=
  run_invariant (fun _ _ _ hv hs => (transferStep_move hs).final hv hp) hc hrun

private theorem TransferMove.uncommitted {v : TransfersWorld} {n : Nat} {c : TransferCall}
    {es : List TransferEvent} (hm : TransferMove w (some n) w')
    (hrun : run transferStep w' es = some v) (hc : v.call n = some c)
    (hp : ∀ id, c.phase ≠ .returned (.committed id)) (k : Nat) :
    (w'.accounts k).committed = (w.accounts k).committed := by
  by_contra hk
  obtain ⟨m,d,row,hmn,-,-,-,hd⟩ := hm.changed hk
  obtain rfl : n = m := Option.some.inj hmn
  have hend := returned_of_run hd rfl hrun
  rw [hc] at hend
  cases hend
  exact hp row.id rfl

theorem performTransactionalTransfer_reconciled (hfirst : first.Idle)
    (h : Reachable transferStep (· = first) w) : first.Reconciled w := by
  have hw : first.Consistent w := by
    refine h.invariant ?_ fun _ _ _ hc _ hs => hc.move (transferStep_move hs)
    rintro _ rfl
    exact .start hfirst
  refine ⟨hw.books.posted,hw.settled,hw.completed,
    fun _ _ _ hs hk => (transferStep_move hs).changed hk,
    fun _ _ _ _ _ hs hc hp => (transferStep_move hs).final hc hp,?_⟩
  intro e w' es v n c hs he hrun hc hp
  have hm := transferStep_move hs
  rw [he] at hm
  exact hm.uncommitted hrun hc hp

/-- Opposite transfers deadlock: one is aborted and recorded, the other completes. A third
crashes after its debit, and the audit row of a fourth cannot be written. -/
def crossing : List TransferEvent :=
  [.start 0 ⟨1,2,30,false⟩,.start 1 ⟨2,1,50,false⟩,.query 0,.query 1,.query 0,.query 1,.query 0,
    .query 1,.fail 1 "deadlock detected",.query 0,.query 1,.query 0,.query 0,.query 1,
    .start 2 ⟨1,2,10,true⟩,.query 2,.query 2,.query 2,.query 2,.query 2,
    .start 3 ⟨1,9,10,false⟩,.query 3,.skip,.fail 3 "foreign key",.query 3,.fail 3 "foreign key"]

def twoAccounts : TransfersWorld where
  known k := k == 1 || k == 2
  accounts _ := { committed := 100 }

theorem crossing_reconciled :
    ∃ w, run transferStep twoAccounts crossing = some w ∧ twoAccounts.Reconciled w ∧
      (w.accounts 1).committed = 70 ∧ w.transfers.length = 3 := by
  have hidle : twoAccounts.Idle := ⟨fun _ => rfl,rfl⟩
  have hrun : (run transferStep twoAccounts crossing).any (fun w =>
      (w.accounts 1).committed == 70 && w.transfers.length == 3) = true := by
    decide +kernel
  obtain ⟨w,hw,hresult,hreachable⟩ := exists_run_of_any hrun
  rw [Bool.and_eq_true,beq_iff_eq,beq_iff_eq] at hresult
  exact ⟨w,hw,performTransactionalTransfer_reconciled hidle hreachable,hresult⟩

end SystemsLab.Transfers
