import SystemsLab.Deadlocks.Transfer
import Mathlib.Algebra.BigOperators.Group.Finset.Piecewise

/-!
# Consistent lock ordering

The rows a leg holds are those its phase has locked, and the only requests that may wait are
the `SELECT … FOR UPDATE` for the lower account and, with that one held, for the higher one. So
every request is above everything its leg holds.
-/

namespace SystemsLab.Deadlocks

open RowVersions

variable {first w w' : LegsWorld}

def LegCall.locks (c : LegCall) : List Nat :=
  match c.phase with
  | .lockingSecond => [c.plan.firstLockId]
  | .debiting => [c.plan.firstLockId,c.plan.secondLockId]
  | .crediting => [c.plan.firstLockId,c.plan.secondLockId]
  | .committing => [c.plan.firstLockId,c.plan.secondLockId]
  | _ => []

/-- What the open transaction of a leg has added to an account. -/
def LegCall.pending (c : LegCall) (accountId : Nat) : Int :=
  match c.phase with
  | .crediting => if accountId = c.plan.fromAccountId then -c.plan.amountCents else 0
  | .committing => c.plan.net accountId
  | _ => 0

structure LegPlan.Consistent (plan : LegPlan) : Prop where
  first : plan.firstLockId = min plan.fromAccountId plan.toAccountId
  second : plan.secondLockId = max plan.fromAccountId plan.toAccountId

theorem planLeg_consistent (label : WorkerLabel) (a b : Nat) (amount : Int) :
    (planLeg .consistentLockOrder label a b amount).Consistent :=
  ⟨rfl,rfl⟩

private theorem LegPlan.Consistent.le {plan : LegPlan} (h : plan.Consistent) :
    plan.firstLockId ≤ plan.secondLockId := by
  rw [h.first,h.second]
  exact min_le_max

theorem LegPlan.Consistent.from_mem {plan : LegPlan} (h : plan.Consistent) :
    plan.fromAccountId = plan.firstLockId ∨ plan.fromAccountId = plan.secondLockId := by
  rw [h.first,h.second]
  omega

theorem LegPlan.Consistent.to_mem {plan : LegPlan} (h : plan.Consistent) :
    plan.toAccountId = plan.firstLockId ∨ plan.toAccountId = plan.secondLockId := by
  rw [h.first,h.second]
  omega

/-- The statements on a row: what they add to it, and what comes next. -/
inductive LegCall.Writes (c : LegCall) : Nat → Int → LegPhase → Prop
  | lockFirst : c.phase = .lockingFirst → Writes c c.plan.firstLockId 0 .lockingSecond
  | lockSecond : c.phase = .lockingSecond → Writes c c.plan.secondLockId 0 .debiting
  | debit : c.phase = .debiting → Writes c c.plan.fromAccountId (-c.plan.amountCents) .crediting
  | credit : c.phase = .crediting → Writes c c.plan.toAccountId c.plan.amountCents .committing

inductive LegMove (w : LegsWorld) : LegsWorld → Prop
  | started (n : Nat) (plan : LegPlan) : w.call n = none → plan.Consistent →
      plan.fromAccountId ∈ w.ids → plan.toAccountId ∈ w.ids → LegMove w (w.put n { plan })
  | queued (n : Nat) (c : LegCall) (k : Nat) (d : Int) (next : LegPhase) : w.call n = some c →
      c.Writes k d next → (w.accounts k).version n = none →
      LegMove w { w.put n { c with waiting := some w.tickets } with tickets := w.tickets + 1 }
  | wrote (n : Nat) (c : LegCall) (k : Nat) (d : Int) (next : LegPhase) (balance : Int) :
      w.call n = some c → c.Writes k d next → (w.accounts k).version n = some balance →
      LegMove w { w.put n { c with phase := next, waiting := none } with
        accounts := w.accounts.put n k (balance + d) }
  | committed (n : Nat) (c : LegCall) (phase : LegPhase) : w.call n = some c →
      c.phase = .committing → phase.hasCommitted = true → LegMove w (w.commit n c phase)
  | aborted (n : Nat) (c : LegCall) : w.call n = some c → c.phase.hasEnded = false →
      LegMove w (w.abort n c)

theorem LegCall.Writes.not_hasEnded {c : LegCall} {k : Nat} {d : Int} {next : LegPhase}
    (h : c.Writes k d next) : c.phase.hasEnded = false := by
  cases h with
  | lockFirst hp => rw [hp]; rfl
  | lockSecond hp => rw [hp]; rfl
  | debit hp => rw [hp]; rfl
  | credit hp => rw [hp]; rfl

theorem LegCall.Writes.not_hasCommitted {c : LegCall} {k : Nat} {d : Int} {next : LegPhase}
    (h : c.Writes k d next) : c.phase.hasCommitted = false ∧ next.hasCommitted = false := by
  cases h with
  | lockFirst hp => exact ⟨by rw [hp]; rfl,rfl⟩
  | lockSecond hp => exact ⟨by rw [hp]; rfl,rfl⟩
  | debit hp => exact ⟨by rw [hp]; rfl,rfl⟩
  | credit hp => exact ⟨by rw [hp]; rfl,rfl⟩

theorem writeRow_move {n : Nat} {c : LegCall} {k : Nat} {d : Int} {next : LegPhase}
    {f : Int → Option Int} (hc : w.call n = some c) (hwrites : c.Writes k d next)
    (hf : ∀ balance v, f balance = some v → v = balance + d)
    (h : w.writeRow n c k f next = some w') : LegMove w w' := by
  unfold LegsWorld.writeRow at h
  split at h
  · rename_i hversion
    split at h
    · cases h
    · cases h
      exact .queued n c k d next hc hwrites hversion
  · rename_i balance hversion
    split at h
    · cases h
      exact .aborted n c hc hwrites.not_hasEnded
    · rename_i v hv
      cases h
      rw [hf balance v hv]
      exact .wrote n c k d next balance hc hwrites hversion

theorem lockRow_move {n : Nat} {c : LegCall} {k : Nat} {next : LegPhase}
    (hc : w.call n = some c) (hwrites : c.Writes k 0 next)
    (h : w.lockRow n c k next = some w') : LegMove w w' :=
  writeRow_move hc hwrites (fun _ _ hv => (Option.some.inj hv).symm) h

theorem addBalance_move {n : Nat} {c : LegCall} {k : Nat} {d : Int} {next : LegPhase}
    (hc : w.call n = some c) (hwrites : c.Writes k d next)
    (h : w.addBalance n c k d next = some w') : LegMove w w' := by
  refine writeRow_move hc hwrites (fun balance v hv => ?_) h
  split at hv
  · exact (Option.some.inj hv).symm
  · cases hv

theorem runLegAttempt_move {n : Nat} {c : LegCall} (hc : w.call n = some c)
    (h : w.runLegAttempt n c = some w') : LegMove w w' := by
  unfold LegsWorld.runLegAttempt at h
  split at h
  · rename_i hp
    exact lockRow_move hc (.lockFirst hp) h
  · rename_i hp
    exact lockRow_move hc (.lockSecond hp) h
  · rename_i hp
    exact addBalance_move hc (.debit hp) h
  · rename_i hp
    exact addBalance_move hc (.credit hp) h
  · rename_i hp
    cases h
    exact .committed n c _ hc hp rfl
  · cases h

theorem legStep_move {e : LegEvent} (h : legStep w e = some w') : LegMove w w' := by
  unfold legStep at h
  cases e with
  | start n label a b amount =>
    dsimp only at h
    split at h
    · cases h
    · rename_i hn
      split at h
      · rename_i hids
        cases h
        exact .started n _ hn (planLeg_consistent label a b amount) hids.1 hids.2
      · cases h
  | query n =>
    dsimp only at h
    split at h
    · rename_i c hc
      exact runLegAttempt_move hc h
    · cases h
  | loseReply n =>
    dsimp only at h
    split at h
    · rename_i c hc
      split at h
      · rename_i hp
        cases h
        exact .committed n c _ hc hp rfl
      · cases h
    · cases h
  | abort n =>
    dsimp only at h
    split at h
    · rename_i c hc
      split at h
      · cases h
      · rename_i hopen
        cases h
        exact .aborted n c hc (Bool.eq_false_iff.mpr hopen)
    · cases h

/-- A leg that waits holds nothing above or at what it waits for. -/
def LegCall.WaitsInOrder (c : LegCall) : Prop :=
  c.waiting.isSome = true → c.phase = .lockingFirst ∨
    c.phase = .lockingSecond ∧ c.plan.firstLockId < c.plan.secondLockId

structure LegsWorld.Locked (w : LegsWorld) : Prop where
  plans : ∀ n c, w.call n = some c → c.plan.Consistent
  held : ∀ n k, w.accounts.holder k = some n ↔ ∃ c, w.call n = some c ∧ k ∈ c.locks
  waits : ∀ n c, w.call n = some c → c.WaitsInOrder

private theorem LegCall.Writes.locks {c : LegCall} {k : Nat} {d : Int} {next : LegPhase}
    (h : c.Writes k d next) (hplan : c.plan.Consistent) (m : Nat) :
    m ∈ ({ c with phase := next, waiting := none } : LegCall).locks ↔ m = k ∨ m ∈ c.locks := by
  have hfrom := hplan.from_mem
  have hto := hplan.to_mem
  unfold LegCall.locks
  cases h with
  | lockFirst hp =>
    rw [hp]
    simp
  | lockSecond hp =>
    rw [hp]
    simp [or_comm]
  | debit hp =>
    rw [hp]
    simp only [List.mem_cons,List.not_mem_nil,or_false]
    omega
  | credit hp =>
    rw [hp]
    simp only [List.mem_cons,List.not_mem_nil,or_false]
    omega

theorem locks_of_hasEnded {c : LegCall} (h : c.phase.hasEnded = true) : c.locks = [] := by
  unfold LegCall.locks
  cases hp : c.phase with
  | committed => rfl
  | replyLost => rfl
  | aborted => rfl
  | _ => exact absurd h (by rw [hp]; nofun)

theorem hasEnded_of_hasCommitted {phase : LegPhase} (h : phase.hasCommitted = true) :
    phase.hasEnded = true := by
  cases phase with
  | committed => rfl
  | replyLost => rfl
  | _ => cases h

namespace LegsWorld.Locked

private theorem update (h : w.Locked) {n : Nat} {c : LegCall}
    (hcall : w'.call = Function.update w.call n (some c)) (hplan : c.plan.Consistent)
    (hwaits : c.WaitsInOrder) (hself : ∀ k, w'.accounts.holder k = some n ↔ k ∈ c.locks)
    (hother : ∀ m k, m ≠ n → (w'.accounts.holder k = some m ↔ w.accounts.holder k = some m)) :
    w'.Locked := by
  refine ⟨?_,?_,?_⟩
  · intro m d hd
    rw [hcall] at hd
    rcases update_eq_some hd with ⟨rfl,rfl⟩ | ⟨_,hold⟩
    · exact hplan
    · exact h.plans m d hold
  · intro m k
    rw [hcall]
    by_cases hm : m = n
    · subst hm
      rw [hself,Function.update_self]
      simp
    · rw [hother m k hm,h.held,Function.update_of_ne hm]
  · intro m d hd
    rw [hcall] at hd
    rcases update_eq_some hd with ⟨rfl,rfl⟩ | ⟨_,hold⟩
    · exact hwaits
    · exact h.waits m d hold

theorem holder_iff (h : w.Locked) {n : Nat} {c : LegCall} (hc : w.call n = some c) (k : Nat) :
    w.accounts.holder k = some n ↔ k ∈ c.locks := by
  rw [h.held,hc]
  simp

private theorem ended (h : w.Locked) {n : Nat} {c : LegCall}
    (hcall : w'.call = Function.update w.call n (some c)) (hplan : c.plan.Consistent)
    (hc : c.phase.hasEnded = true) (hwaiting : c.waiting = none)
    (hholder : ∀ k, w'.accounts.holder k =
      if w.accounts.holder k = some n then none else w.accounts.holder k) : w'.Locked := by
  refine h.update hcall hplan ?_ ?_ ?_
  · intro hsome
    rw [hwaiting] at hsome
    cases hsome
  · intro k
    rw [locks_of_hasEnded hc,hholder]
    split <;> simp_all
  · intro m k hm
    rw [hholder]
    split
    · rename_i hn
      rw [hn]
      simp [Ne.symm hm]
    · exact Iff.rfl

private theorem not_locked_of_waiting (h : w.Locked) {n k : Nat} {c : LegCall}
    (hc : w.call n = some c)
    (hversion : (w.accounts k).version n = none) : k ∉ c.locks := by
  intro hmem
  have hholder := (h.holder_iff hc k).mpr hmem
  have hsome : ((w.accounts k).version n).isSome = true :=
    version_isSome.mpr fun u hu => (Option.some.inj (hholder.symm.trans hu)).symm
  rw [hversion] at hsome
  cases hsome

theorem move (h : w.Locked) (hm : LegMove w w') : w'.Locked := by
  cases hm with
  | started n plan hn hplan hfrom hto =>
    refine h.update rfl hplan nofun (fun k => ?_) fun _ _ _ => Iff.rfl
    show w.accounts.holder k = some n ↔ k ∈ []
    rw [h.held,hn]
    simp
  | queued n c k d next hc hwrites hversion =>
    have hplan := h.plans n c hc
    have hfree := h.not_locked_of_waiting hc hversion
    have hheld := h.holder_iff hc
    refine h.update rfl hplan (fun _ => ?_) hheld fun _ _ _ => Iff.rfl
    unfold LegCall.locks at hfree
    cases hwrites with
    | lockFirst hp => exact .inl hp
    | lockSecond hp =>
      refine .inr ⟨hp,Nat.lt_of_le_of_ne hplan.le fun heq => hfree ?_⟩
      rw [hp,heq]
      exact List.mem_singleton_self _
    | debit hp =>
      rw [hp] at hfree
      simp only [List.mem_cons,List.not_mem_nil,or_false] at hfree
      exact absurd hplan.from_mem hfree
    | credit hp =>
      rw [hp] at hfree
      simp only [List.mem_cons,List.not_mem_nil,or_false] at hfree
      exact absurd hplan.to_mem hfree
  | wrote n c k d next balance hc hwrites hversion =>
    have hplan := h.plans n c hc
    refine h.update rfl hplan nofun ?_ ?_
    · intro m
      rw [hwrites.locks hplan m,holder_put]
      split
      · rename_i hm
        simp [hm]
      · rename_i hm
        rw [h.holder_iff hc]
        simp [hm]
    · intro u m hu
      rw [holder_put]
      split
      · rename_i hm
        subst hm
        rcases holder_of_version hversion with hnone | hown
        · rw [hnone]
          simp [Ne.symm hu]
        · rw [hown]
      · exact Iff.rfl
  | committed n c phase hc hp hphase =>
    have hwaiting : c.waiting = none := by
      by_contra hsome
      rcases h.waits n c hc (Option.isSome_iff_ne_none.mpr hsome) with hfirst | ⟨hsecond,_⟩
      · rw [hp] at hfirst
        cases hfirst
      · rw [hp] at hsecond
        cases hsecond
    exact h.ended (c := { c with phase }) rfl (h.plans n c hc)
      (hasEnded_of_hasCommitted hphase) hwaiting (holder_commit _ _)
  | aborted n c hc hopen =>
    exact h.ended (c := { c with phase := .aborted, waiting := none }) rfl (h.plans n c hc) rfl
      rfl (holder_rollback _ _)

private theorem requestsInOrder (h : w.Locked) : RequestsInOrder w.accounts.holder w.request := by
  intro n k ticket m hrequest hholder
  obtain ⟨c,hc,hlocks⟩ := (h.held n m).mp hholder
  have hcall : c.request = some (k,ticket) := by
    rw [← hrequest,LegsWorld.request,hc]
    rfl
  have hwaits := h.waits n c hc
  unfold LegCall.request at hcall
  split at hcall
  · cases hcall
  · rename_i a hwaiting
    rcases hwaits (by rw [hwaiting]; rfl) with hfirst | ⟨hsecond,hlt⟩
    · unfold LegCall.locks at hlocks
      rw [hfirst] at hlocks
      cases hlocks
    · unfold LegCall.locks at hlocks
      unfold LegCall.target at hcall
      rw [hsecond] at hlocks hcall
      cases hcall
      rw [List.mem_singleton.mp hlocks]
      exact hlt

end LegsWorld.Locked

theorem netLegs_append (commits : List (Nat × LegPlan)) (n : Nat) (plan : LegPlan) (k : Nat) :
    netLegs (commits ++ [(n,plan)]) k = netLegs commits k + plan.net k := by
  unfold netLegs
  rw [List.map_append,List.sum_append]
  simp

theorem LegCall.Writes.pending {c : LegCall} {k : Nat} {d : Int} {next : LegPhase}
    (h : c.Writes k d next) (m : Nat) :
    ({ c with phase := next, waiting := none } : LegCall).pending m =
      c.pending m + if m = k then d else 0 := by
  unfold LegCall.pending
  cases h with
  | lockFirst hp =>
    rw [hp]
    simp
  | lockSecond hp =>
    rw [hp]
    simp
  | debit hp =>
    rw [hp]
    simp
  | credit hp =>
    rw [hp]
    show (if m = c.plan.toAccountId then c.plan.amountCents else 0) -
      (if m = c.plan.fromAccountId then c.plan.amountCents else 0) = _
    by_cases hfrom : m = c.plan.fromAccountId
    · simp only [if_pos hfrom]
      omega
    · simp only [if_neg hfrom]
      omega

theorem pending_of_hasEnded {c : LegCall} (h : c.phase.hasEnded = true) (k : Nat) :
    c.pending k = 0 := by
  unfold LegCall.pending
  cases hp : c.phase with
  | crediting => exact absurd h (by rw [hp]; nofun)
  | committing => exact absurd h (by rw [hp]; nofun)
  | _ => rfl

private theorem sum_net {ids : Finset Nat} {plan : LegPlan} (hfrom : plan.fromAccountId ∈ ids)
    (hto : plan.toAccountId ∈ ids) : ∑ k ∈ ids, plan.net k = 0 := by
  unfold LegPlan.net
  rw [Finset.sum_sub_distrib,Finset.sum_ite_eq',Finset.sum_ite_eq',if_pos hfrom,if_pos hto,
    sub_self]

theorem sum_netLegs {ids : Finset Nat} {commits : List (Nat × LegPlan)}
    (h : ∀ n plan, (n,plan) ∈ commits → plan.fromAccountId ∈ ids ∧ plan.toAccountId ∈ ids) :
    ∑ k ∈ ids, netLegs commits k = 0 := by
  induction commits using List.reverseRecOn with
  | nil =>
    exact Finset.sum_eq_zero fun _ _ => rfl
  | append_singleton commits commit ih =>
    obtain ⟨n,plan⟩ := commit
    have hplan := h n plan (List.mem_append_right _ (List.mem_singleton_self _))
    rw [Finset.sum_congr rfl fun k _ => netLegs_append commits n plan k,Finset.sum_add_distrib,
      sum_net hplan.1 hplan.2,ih fun m p hm => h m p (List.mem_append_left _ hm),add_zero]

/-- `commits` lists the legs that have committed, each once. -/
structure LegsWorld.Recorded (w : LegsWorld) : Prop where
  committed : ∀ n plan, (n,plan) ∈ w.commits ↔
    ∃ c, w.call n = some c ∧ c.plan = plan ∧ c.phase.hasCommitted = true
  once : (w.commits.map Prod.fst).Nodup
  known : ∀ n c, w.call n = some c → c.plan.fromAccountId ∈ w.ids ∧ c.plan.toAccountId ∈ w.ids

namespace LegsWorld.Recorded

theorem keep (h : w.Recorded) {n : Nat} {c : LegCall}
    (hopen : ∀ d, w.call n = some d → d.phase.hasCommitted = false)
    (hc : c.phase.hasCommitted = false)
    (hknown : c.plan.fromAccountId ∈ w.ids ∧ c.plan.toAccountId ∈ w.ids)
    (hcall : w'.call = Function.update w.call n (some c)) (hids : w'.ids = w.ids)
    (hcommits : w'.commits = w.commits) : w'.Recorded := by
  refine ⟨?_,?_,?_⟩
  · intro m plan
    rw [hcommits,h.committed,hcall]
    by_cases hm : m = n
    · subst hm
      rw [Function.update_self]
      constructor
      · rintro ⟨d,hd,_,hcommitted⟩
        rw [hopen d hd] at hcommitted
        cases hcommitted
      · rintro ⟨d,hd,_,hcommitted⟩
        cases hd
        rw [hc] at hcommitted
        cases hcommitted
    · rw [Function.update_of_ne hm]
  · rw [hcommits]
    exact h.once
  · intro m d hd
    rw [hcall] at hd
    rw [hids]
    rcases update_eq_some hd with ⟨rfl,rfl⟩ | ⟨_,hold⟩
    · exact hknown
    · exact h.known m d hold

theorem commit (h : w.Recorded) {n : Nat} {c : LegCall} {phase : LegPhase}
    (hc : w.call n = some c) (hp : c.phase = .committing) (hphase : phase.hasCommitted = true) :
    (w.commit n c phase).Recorded := by
  have hnew : ∀ plan, (n,plan) ∉ w.commits := by
    intro plan hmem
    obtain ⟨d,hd,_,hcommitted⟩ := (h.committed n plan).mp hmem
    rw [hc] at hd
    cases hd
    rw [hp] at hcommitted
    cases hcommitted
  refine ⟨?_,?_,?_⟩
  · intro m plan
    show (m,plan) ∈ w.commits ++ [(n,c.plan)] ↔ ∃ d, Function.update w.call n _ m = some d ∧ _
    rw [List.mem_append,List.mem_singleton]
    by_cases hm : m = n
    · subst hm
      rw [Function.update_self]
      constructor
      · rintro (hold | heq)
        · exact absurd hold (hnew plan)
        · cases heq
          exact ⟨_,rfl,rfl,hphase⟩
      · rintro ⟨d,hd,hplan,_⟩
        cases hd
        exact .inr (by rw [← hplan])
    · rw [Function.update_of_ne hm,h.committed]
      constructor
      · rintro (hold | heq)
        · exact hold
        · cases heq
          exact absurd rfl hm
      · exact .inl
  · show ((w.commits ++ [_]).map Prod.fst).Nodup
    rw [List.map_append,List.nodup_append]
    refine ⟨h.once,List.nodup_singleton _,?_⟩
    intro a ha b hb hab
    obtain ⟨⟨m,plan⟩,hmem,rfl⟩ := List.mem_map.mp ha
    have hmn : m = n := hab.trans (List.mem_singleton.mp hb)
    exact hnew plan (hmn ▸ hmem)
  · intro m d hd
    rcases update_eq_some hd with ⟨rfl,rfl⟩ | ⟨_,hold⟩
    · exact h.known m c hc
    · exact h.known m d hold

end LegsWorld.Recorded

structure LegsWorld.Sound (first w : LegsWorld) : Prop where
  ids : w.ids = first.ids
  locked : w.Locked
  books : Books first.accounts w.accounts (netLegs w.commits)
    (pendingOf w.call LegCall.pending)
  recorded : w.Recorded

namespace LegsWorld.Sound

theorem start (h : first.Idle) : first.Sound first := by
  refine ⟨rfl,⟨?_,?_,?_⟩,?_,⟨?_,?_,?_⟩⟩
  · intro n c hc
    rw [h.calls] at hc
    cases hc
  · intro n k
    rw [h.calls,RowVersions.holder,h.rows]
    simp
  · intro n c hc
    rw [h.calls] at hc
    cases hc
  · have hposted : netLegs first.commits = fun _ => 0 := by
      rw [h.commits]
      rfl
    rw [hposted,h.calls]
    exact .start h.rows
  · intro n plan
    rw [h.commits,h.calls]
    simp
  · rw [h.commits]
    exact List.nodup_nil
  · intro n c hc
    rw [h.calls] at hc
    cases hc

theorem move (h : first.Sound w) (hm : LegMove w w') : first.Sound w' := by
  have hlocked := h.locked.move hm
  cases hm with
  | started n plan hn hplan hfrom hto =>
    refine ⟨h.ids,hlocked,h.books.keepCall fun k => ?_,?_⟩
    · rw [pendingOf,hn]
      rfl
    · exact h.recorded.keep (by simp [hn]) rfl ⟨hfrom,hto⟩ rfl rfl rfl
  | queued n c k d next hc hwrites hversion =>
    have hopen := hwrites.not_hasCommitted.1
    refine ⟨h.ids,hlocked,h.books.keepCall fun k => ?_,?_⟩
    · rw [pendingOf_eq hc]
      rfl
    · refine h.recorded.keep (forall_of_eq_some hc hopen) ?_ ?_ rfl rfl rfl
      · exact hopen
      · exact h.recorded.known n c hc
  | wrote n c k d next balance hc hwrites hversion =>
    have hopen := hwrites.not_hasCommitted
    refine ⟨h.ids,hlocked,h.books.addCall hc hversion hwrites.pending,?_⟩
    refine h.recorded.keep (forall_of_eq_some hc hopen.1) ?_ ?_ rfl rfl rfl
    · exact hopen.2
    · exact h.recorded.known n c hc
  | committed n c phase hc hp hphase =>
    have hended := pending_of_hasEnded (c := { c with phase }) (hasEnded_of_hasCommitted hphase)
    refine ⟨h.ids,hlocked,h.books.commitCall hc (fun k => ?_) hended,h.recorded.commit hc hp hphase⟩
    show netLegs (w.commits ++ [_]) k = _
    rw [netLegs_append,LegCall.pending,hp]
  | aborted n c hc hopen =>
    have hcommitted : c.phase.hasCommitted = false := by
      rw [Bool.eq_false_iff]
      intro hcommitted
      rw [hasEnded_of_hasCommitted hcommitted] at hopen
      cases hopen
    refine ⟨h.ids,hlocked,h.books.rollbackCall fun _ => rfl,?_⟩
    refine h.recorded.keep (forall_of_eq_some hc hcommitted) ?_ ?_ rfl rfl rfl
    · rfl
    · exact h.recorded.known n c hc

end LegsWorld.Sound

structure LegsWorld.Ordered (first w : LegsWorld) : Prop where
  deadlockFree : DeadlockFree w.accounts.holder w.request
  conserved : ∑ k ∈ w.ids, (w.accounts k).committed =
    ∑ k ∈ first.ids, (first.accounts k).committed
  balance : ∀ k, (w.accounts k).committed = (first.accounts k).committed + netLegs w.commits k
  committed : ∀ n plan, (n,plan) ∈ w.commits ↔
    ∃ c, w.call n = some c ∧ c.plan = plan ∧ c.phase.hasCommitted = true
  once : (w.commits.map Prod.fst).Nodup

theorem runLegAttempt_ordered (hfirst : first.Idle)
    (h : Reachable legStep (· = first) w) : first.Ordered w := by
  have hw : first.Sound w := by
    refine h.invariant ?_ fun _ _ _ hc _ hs => hc.move (legStep_move hs)
    rintro _ rfl
    exact .start hfirst
  refine ⟨hw.locked.requestsInOrder.deadlockFree,?_,hw.books.posted,hw.recorded.committed,
    hw.recorded.once⟩
  have hknown : ∀ n plan, (n,plan) ∈ w.commits →
      plan.fromAccountId ∈ w.ids ∧ plan.toAccountId ∈ w.ids := by
    intro n plan hmem
    obtain ⟨c,hc,rfl,_⟩ := (hw.recorded.committed n plan).mp hmem
    exact hw.recorded.known n c hc
  rw [Finset.sum_congr rfl fun k _ => hw.books.posted k,Finset.sum_add_distrib,
    sum_netLegs hknown,add_zero,hw.ids]

/-- Three legs over three accounts, each against the next one; one waits for the others, one
stays with one account, and one fails when it has debited. -/
def roundabout : List LegEvent :=
  [.start 0 .A 1 2 25,.start 1 .B 2 1 40,.start 2 .A 3 1 10,.query 0,.query 1,.query 2,.query 0,
    .query 0,.start 3 .B 3 3 5,.query 3,.query 3,.query 3,.query 0,.query 0,.query 2,.query 2,
    .query 3,.query 3,.query 2,.query 2,.abort 2,.query 1,.query 1,.query 1,.query 1,.query 1]

def threeAccounts : LegsWorld where
  ids := {1,2,3}
  accounts _ := { committed := 100 }

theorem roundabout_ordered :
    ∃ w, run legStep threeAccounts roundabout = some w ∧ threeAccounts.Ordered w ∧
      w.commits.map Prod.fst = [0,3,1] ∧ (w.accounts 1).committed = 115 := by
  have hidle : threeAccounts.Idle := ⟨fun _ => rfl,rfl,rfl⟩
  have hrun : (run legStep threeAccounts roundabout).any (fun w =>
      w.commits.map Prod.fst == [0,3,1] && (w.accounts 1).committed == 115) = true := by
    decide +kernel
  obtain ⟨w,hw,hresult,hreachable⟩ := exists_run_of_any hrun
  rw [Bool.and_eq_true,beq_iff_eq,beq_iff_eq] at hresult
  exact ⟨w,hw,runLegAttempt_ordered hidle hreachable,hresult⟩

end SystemsLab.Deadlocks
