import SystemsLab.Deadlocks.RetryOnDeadlock

/-!
# What a retried leg has done

A leg is retried only after an attempt that was rolled back, so that it commits once at most and
the outcome says whether it has. The exception is an attempt whose `COMMIT` was not answered.
-/

namespace SystemsLab.Deadlocks

variable {first w w' : RetryWorld} {n : Nat} {r : RetryClient} {c : LegCall} {code : ErrorCode}

/-- What an outcome tells about the last attempt of its client. -/
structure LegOutcome.Reports (outcome : LegOutcome) (r : RetryClient) (c : LegCall) : Prop where
  workerLabel : outcome.workerLabel = r.plan.workerLabel
  attempts : outcome.attempts = r.attempt
  committed : outcome.status = .committed ↔ c.phase = .committed
  deadlockAborted : outcome.status = .deadlockAborted →
    c.phase = .aborted ∧ r.attempt = r.maxAttempts
  failed : outcome.status = .failed → c.phase = .aborted ∨ c.phase = .replyLost

structure RetryClient.Matches (r : RetryClient) (c : LegCall) : Prop where
  plan : c.plan = r.plan
  attempting : r.phase = .attempting ↔ c.phase.hasEnded = false
  sleeping : r.phase = .sleeping → c.phase = .aborted ∧ r.attempt < r.maxAttempts
  returned : ∀ outcome, r.phase = .returned outcome → outcome.Reports r c
  threw : r.phase = .threw → c.phase = .aborted ∨ c.phase = .replyLost
  bounded : r.phase = .threw ∨ 1 ≤ r.attempt ∧ r.attempt ≤ r.maxAttempts

namespace RetryClient.Matches

private theorem goOn (h : r.Matches c) (hattempting : r.phase = .attempting) {d : LegCall}
    (hplan : d.plan = c.plan) (hopen : d.phase.hasEnded = false) : r.Matches d := by
  have hnot : ∀ phase, phase ≠ .attempting → r.phase ≠ phase := by
    rintro phase hne rfl
    exact hne hattempting
  refine ⟨hplan.trans h.plan,iff_of_true hattempting hopen,?_,?_,?_,h.bounded⟩
  · exact fun hsleeping => absurd hsleeping (hnot _ nofun)
  · exact fun _ hreturned => absurd hreturned (hnot _ nofun)
  · exact fun hthrew => absurd hthrew (hnot _ nofun)

private theorem attempts (h : r.Matches c) (hattempting : r.phase = .attempting) :
    1 ≤ r.attempt ∧ r.attempt ≤ r.maxAttempts := by
  rcases h.bounded with hthrew | hbounded
  · rw [hattempting] at hthrew
    cases hthrew
  · exact hbounded

/-- The attempt has been rolled back, or the reply to its `COMMIT` is lost. A deadlock is reported
only in the first case. -/
theorem caught (h : r.Matches c) (hattempting : r.phase = .attempting) {d : LegCall}
    (hplan : d.plan = c.plan) (hended : d.phase = .aborted ∨ d.phase = .replyLost)
    (hdeadlock : code = some DEADLOCK_DETECTED_SQLSTATE → d.phase = .aborted) :
    (r.caught code).Matches d := by
  have hattempts := h.attempts hattempting
  have hclosed : ¬ d.phase.hasEnded = false := by
    rcases hended with hp | hp
    · rw [hp]
      nofun
    · rw [hp]
      nofun
  have huncommitted : d.phase ≠ .committed := by
    rcases hended with hp | hp
    · rw [hp]
      nofun
    · rw [hp]
      nofun
  cases code with
  | none =>
    exact ⟨hplan.trans h.plan,iff_of_false nofun hclosed,nofun,nofun,fun _ => hended,.inl rfl⟩
  | some code =>
    unfold RetryClient.caught
    dsimp only
    split
    next hretry =>
      have haborted := hdeadlock (congrArg some hretry.1)
      exact ⟨hplan.trans h.plan,iff_of_false nofun hclosed,fun _ => ⟨haborted,hretry.2⟩,nofun,nofun,
        .inr hattempts⟩
    next hlast =>
      refine ⟨hplan.trans h.plan,iff_of_false nofun hclosed,nofun,?_,nofun,.inr hattempts⟩
      intro outcome houtcome
      cases houtcome
      by_cases hcode : code = DEADLOCK_DETECTED_SQLSTATE
      · have hend : r.attempt = r.maxAttempts := by
          have hnot : ¬ r.attempt < r.maxAttempts := fun hlt => hlast ⟨hcode,hlt⟩
          omega
        have hstatus : (toOutcome r.plan.workerLabel r.attempt code).status = .deadlockAborted :=
          if_pos hcode
        refine ⟨rfl,rfl,iff_of_false ?_ huncommitted,?_,fun _ => hended⟩
        · rw [hstatus]
          nofun
        · exact fun _ => ⟨hdeadlock (congrArg some hcode),hend⟩
      · have hstatus : (toOutcome r.plan.workerLabel r.attempt code).status = .failed :=
          if_neg hcode
        refine ⟨rfl,rfl,iff_of_false ?_ huncommitted,?_,fun _ => hended⟩
        · rw [hstatus]
          nofun
        · rw [hstatus]
          nofun

theorem committed (h : r.Matches c) (hattempting : r.phase = .attempting) {d : LegCall}
    (hplan : d.plan = c.plan) (hcommitted : d.phase = .committed) : r.committed.Matches d := by
  refine ⟨hplan.trans h.plan,iff_of_false nofun ?_,nofun,?_,nofun,.inr (h.attempts hattempting)⟩
  · rw [hcommitted]
    nofun
  · intro outcome houtcome
    cases houtcome
    exact ⟨rfl,rfl,iff_of_true rfl hcommitted,nofun,nofun⟩

private theorem woken (h : r.Matches c) (hsleeping : r.phase = .sleeping) :
    ({ r with attempt := r.attempt + 1, phase := .attempting } : RetryClient).Matches
      { plan := r.plan } :=
  ⟨rfl,iff_of_true rfl rfl,nofun,nofun,nofun,.inr ⟨Nat.le_add_left 1 _,(h.sleeping hsleeping).2⟩⟩

end RetryClient.Matches

theorem LegCall.Writes.next_not_hasEnded {k : Nat} {d : Int} {next : LegPhase}
    (h : c.Writes k d next) : next.hasEnded = false := by
  cases h with
  | _ => rfl

namespace RetryWorld

variable {legs : LegsWorld} {code : String} {d : LegCall}

theorem book_open (hcall : legs.call = Function.update w.legs.call n (some d))
    (hopen : d.phase.hasEnded = false) : w.book n r code legs = { w with legs } := by
  unfold RetryWorld.book
  rw [hcall,Function.update_self,Option.map_some]
  cases hp : d.phase with
  | committed => exact absurd hopen (by rw [hp]; nofun)
  | aborted => exact absurd hopen (by rw [hp]; nofun)
  | _ => rfl

theorem book_aborted (hcall : legs.call = Function.update w.legs.call n (some d))
    (haborted : d.phase = .aborted) :
    w.book n r code legs = w.put n (r.caught (some code)) legs := by
  unfold RetryWorld.book
  rw [hcall,Function.update_self,Option.map_some,haborted]

theorem book_committed (hcall : legs.call = Function.update w.legs.call n (some d))
    (hcommitted : d.phase = .committed) : w.book n r code legs = w.put n r.committed legs := by
  unfold RetryWorld.book
  rw [hcall,Function.update_self,Option.map_some,hcommitted]

end RetryWorld

structure RetryWorld.Sound (first w : RetryWorld) : Prop where
  legs : first.legs.Kept w.legs
  clients : ∀ n, w.client n = none ∧ w.legs.call n = none ∨
    ∃ r c, w.client n = some r ∧ w.legs.call n = some c ∧ r.Matches c

namespace RetryWorld.Sound

theorem start (h : first.Idle) : first.Sound first := by
  refine ⟨.start h.legs,fun n => .inl ⟨?_,?_⟩⟩
  · rw [h.client]
  · rw [h.legs.calls]

theorem matching (h : first.Sound w) (hr : w.client n = some r) :
    ∃ c, w.legs.call n = some c ∧ r.Matches c := by
  rcases h.clients n with ⟨hnone,_⟩ | ⟨q,c,hq,hc,hmatches⟩
  · rw [hr] at hnone
    cases hnone
  · rw [hr] at hq
    cases hq
    exact ⟨c,hc,hmatches⟩

theorem matches_of (h : first.Sound w) (hr : w.client n = some r) (hc : w.legs.call n = some c) :
    r.Matches c := by
  obtain ⟨d,hd,hmatches⟩ := h.matching hr
  rw [hc] at hd
  cases hd
  exact hmatches

private theorem put (h : first.Sound w) (hlegs : first.legs.Kept w'.legs)
    (hclient : w'.client = Function.update w.client n (some r))
    (hcall : w'.legs.call = Function.update w.legs.call n (some c)) (hmatches : r.Matches c) :
    first.Sound w' := by
  refine ⟨hlegs,fun m => ?_⟩
  rw [hclient,hcall]
  by_cases hm : m = n
  · subst hm
    rw [Function.update_self,Function.update_self]
    exact .inr ⟨r,c,rfl,rfl,hmatches⟩
  · rw [Function.update_of_ne hm,Function.update_of_ne hm]
    exact h.clients m

private theorem book (h : first.Sound w) (hr : w.client n = some r) (hc : w.legs.call n = some c)
    (hattempting : r.phase = .attempting) {legs : LegsWorld} {code : String}
    (hm : AttemptMove w.legs n c legs) : first.Sound (w.book n r code legs) := by
  have hlegs := h.legs.attempt hc hm
  have hmatches := h.matches_of hr hc
  have hsame : w.client = Function.update w.client n (some r) := by
    rw [← hr,Function.update_eq_self]
  have hgo : ∀ d : LegCall, legs.call = Function.update w.legs.call n (some d) →
      d.plan = c.plan → d.phase.hasEnded = false → first.Sound (w.book n r code legs) := by
    intro d hcall hplan hopen
    rw [book_open hcall hopen]
    exact h.put hlegs hsame hcall (hmatches.goOn hattempting hplan hopen)
  cases hm with
  | queued k d next hwrites _ _ => exact hgo _ rfl rfl hwrites.not_hasEnded
  | wrote k d next balance hwrites _ => exact hgo _ rfl rfl hwrites.next_not_hasEnded
  | refused k d next hwrites =>
    rw [book_aborted (d := { c with phase := .aborted, waiting := none }) rfl rfl]
    exact h.put hlegs rfl rfl (hmatches.caught hattempting rfl (.inl rfl) fun _ => rfl)
  | committed hp =>
    rw [book_committed (d := { c with phase := .committed }) rfl rfl]
    exact h.put hlegs rfl rfl (hmatches.committed hattempting rfl rfl)

private theorem started (h : first.Sound w) {strategy : LockOrderStrategy} {label : WorkerLabel}
    {a b : Nat}
    {amount : Int} {maxAttempts : Nat} {plan : LegPlan}
    (hplan : plan = planLeg strategy label a b amount) (hnone : w.client n = none)
    (hids : a ∈ w.legs.ids ∧ b ∈ w.legs.ids) (hc : c.plan = plan)
    (hr : 1 ≤ maxAttempts ∧ r = { plan, maxAttempts } ∧ c.phase = .lockingFirst ∨
      r = { plan, maxAttempts, phase := .threw } ∧ c.phase = .aborted) (hwaiting : c.waiting = none) :
    first.Sound (w.put n r (w.legs.put n c)) := by
  have hcall : w.legs.call n = none := by
    rcases h.clients n with ⟨_,hc⟩ | ⟨_,_,hr,_⟩
    · exact hc
    · rw [hnone] at hr
      cases hr
  have hended : ∀ d, w.legs.call n = some d → d.phase = .aborted := by
    intro d hd
    rw [hcall] at hd
    cases hd
  have hlocks := planLeg_locks strategy label a b amount
  have hknown : (planLeg strategy label a b amount).fromAccountId ∈ w.legs.ids ∧
      (planLeg strategy label a b amount).toAccountId ∈ w.legs.ids := by
    cases strategy with
    | _ => exact hids
  rw [← hplan,← hc] at hlocks hknown
  obtain ⟨cplan,cphase,cwaiting⟩ := c
  dsimp only at hc hwaiting
  subst hc hwaiting
  rcases hr with ⟨hmax,rfl,hphase⟩ | ⟨rfl,hphase⟩
  · dsimp only at hphase
    subst hphase
    refine h.put (h.legs.enter hended rfl (fun _ => rfl) rfl hlocks hknown) rfl rfl ?_
    exact ⟨rfl,iff_of_true rfl rfl,nofun,nofun,nofun,.inr ⟨Nat.le_refl 1,hmax⟩⟩
  · dsimp only at hphase
    subst hphase
    refine h.put (h.legs.enter hended rfl (fun _ => rfl) rfl hlocks hknown) rfl rfl ?_
    exact ⟨rfl,iff_of_false nofun nofun,nofun,nofun,fun _ => .inl rfl,.inl rfl⟩

theorem move {e : RetryEvent} (h : first.Sound w) (hmove : RetryMove w e w') : first.Sound w' := by
  cases hmove with
  | started n strategy label a b amount maxAttempts plan r c hplan hnone hids hc hr hwaiting =>
    exact h.started hplan hnone hids hc hr hwaiting
  | sent n r c code legs hr hc hattempting hattempt => exact h.book hr hc hattempting hattempt
  | failed n r c code hr hc hattempting =>
    have hmatches := h.matches_of hr hc
    have hopen := hmatches.attempting.mp hattempting
    have huncommitted : c.phase.hasCommitted = false := by
      by_contra hcommitted
      have hclosed := hasEnded_of_hasCommitted (Bool.eq_true_of_not_eq_false hcommitted)
      rw [hopen] at hclosed
      cases hclosed
    exact h.put (h.legs.abort hc huncommitted) rfl rfl
      (hmatches.caught hattempting rfl (.inl rfl) fun _ => rfl)
  | lostReply n r c code hr hc hattempting hp hcode =>
    have hmatches := h.matches_of hr hc
    exact h.put (h.legs.commit hc hp rfl) rfl rfl
      (hmatches.caught hattempting rfl (.inr rfl) fun heq => absurd heq hcode)
  | woken n r hr hsleeping =>
    obtain ⟨c,hc,hmatches⟩ := h.matching hr
    have hplan := h.legs.plans n c hc
    have hknown := h.legs.recorded.known n c hc
    rw [hmatches.plan] at hplan hknown
    have hlegs := h.legs.enter (n := n) (c := { plan := r.plan })
      (forall_of_eq_some hc (hmatches.sleeping hsleeping).1) rfl (fun _ => rfl) rfl hplan hknown
    exact h.put hlegs rfl rfl (hmatches.woken hsleeping)

theorem step {e : RetryEvent} (h : first.Sound w) (hstep : retryStep w e = some w') :
    first.Sound w' := h.move (retryStep_move hstep)

theorem reachable (hfirst : first.Idle) (h : Reachable retryStep (· = first) w) :
    first.Sound w := by
  refine h.invariant ?_ fun _ _ _ hc _ hs => hc.step hs
  rintro _ rfl
  exact .start hfirst

end RetryWorld.Sound

/-- `commits` are the transfers that were made. -/
structure RetryWorld.Exact (first w : RetryWorld) : Prop where
  balance : ∀ k, (w.legs.accounts k).committed =
    (first.legs.accounts k).committed + netLegs w.legs.commits k
  conserved : ∑ k ∈ w.legs.ids, (w.legs.accounts k).committed =
    ∑ k ∈ first.legs.ids, (first.legs.accounts k).committed
  once : (w.legs.commits.map Prod.fst).Nodup
  asked : ∀ n plan, (n,plan) ∈ w.legs.commits → ∃ r, w.client n = some r ∧ r.plan = plan
  unfinished : ∀ n r, w.client n = some r → r.over = false → ∀ plan, (n,plan) ∉ w.legs.commits
  committed : ∀ n r outcome, w.client n = some r → r.phase = .returned outcome →
    outcome.status = .committed → (n,r.plan) ∈ w.legs.commits
  deadlockAborted : ∀ n r outcome, w.client n = some r → r.phase = .returned outcome →
    outcome.status = .deadlockAborted →
      outcome.attempts = r.maxAttempts ∧ ∀ plan, (n,plan) ∉ w.legs.commits
  -- the only error that may hide a transfer is the one for a lost reply
  hidden : ∀ n r plan, w.client n = some r → (n,plan) ∈ w.legs.commits →
    (∃ outcome, r.phase = .returned outcome ∧ outcome.status = .committed) ∨
      (w.legs.call n).map LegCall.phase = some .replyLost

namespace RetryWorld.Sound

private theorem notMem_of (h : first.Sound w) (hc : w.legs.call n = some c)
    (hopen : c.phase.hasCommitted = false) (plan : LegPlan) : (n,plan) ∉ w.legs.commits := by
  intro hmem
  obtain ⟨d,hd,_,hcommitted⟩ := (h.legs.recorded.committed n plan).mp hmem
  rw [hc] at hd
  cases hd
  rw [hopen] at hcommitted
  cases hcommitted

private theorem conserved (h : first.Sound w) : ∑ k ∈ w.legs.ids, (w.legs.accounts k).committed =
    ∑ k ∈ first.legs.ids, (first.legs.accounts k).committed := by
  have hknown : ∀ n plan, (n,plan) ∈ w.legs.commits →
      plan.fromAccountId ∈ w.legs.ids ∧ plan.toAccountId ∈ w.legs.ids := by
    intro n plan hmem
    obtain ⟨c,hc,rfl,_⟩ := (h.legs.recorded.committed n plan).mp hmem
    exact h.legs.recorded.known n c hc
  rw [Finset.sum_congr rfl fun k _ => h.legs.books.posted k,Finset.sum_add_distrib,
    sum_netLegs hknown,add_zero,h.legs.ids]

private theorem unfinished (h : first.Sound w) (hr : w.client n = some r) (hover : r.over = false)
    (plan : LegPlan) : (n,plan) ∉ w.legs.commits := by
  obtain ⟨c,hc,hmatches⟩ := h.matching hr
  apply h.notMem_of hc
  cases hphase : r.phase with
  | attempting =>
    have hopen := hmatches.attempting.mp hphase
    by_contra hcommitted
    have hclosed := hasEnded_of_hasCommitted (Bool.eq_true_of_not_eq_false hcommitted)
    rw [hopen] at hclosed
    cases hclosed
  | sleeping =>
    rw [(hmatches.sleeping hphase).1]
    rfl
  | returned outcome => simp [RetryClient.over,hphase] at hover
  | threw => simp [RetryClient.over,hphase] at hover

private theorem hidden (h : first.Sound w) (hr : w.client n = some r) {plan : LegPlan}
    (hmem : (n,plan) ∈ w.legs.commits) :
    (∃ outcome, r.phase = .returned outcome ∧ outcome.status = .committed) ∨
      (w.legs.call n).map LegCall.phase = some .replyLost := by
  obtain ⟨c,hc,hmatches⟩ := h.matching hr
  obtain ⟨d,hd,_,hcommitted⟩ := (h.legs.recorded.committed n plan).mp hmem
  rw [hc] at hd
  cases hd
  rw [hc]
  cases hp : c.phase with
  | replyLost => exact .inr (congrArg some hp)
  | committed =>
    cases hphase : r.phase with
    | returned outcome =>
      exact .inl ⟨outcome,rfl,(hmatches.returned outcome hphase).committed.mpr hp⟩
    | attempting =>
      have hopen := hmatches.attempting.mp hphase
      rw [hp] at hopen
      cases hopen
    | sleeping =>
      have haborted := (hmatches.sleeping hphase).1
      rw [hp] at haborted
      cases haborted
    | threw =>
      have hlost := hmatches.threw hphase
      rw [hp] at hlost
      rcases hlost with hlost | hlost <;> cases hlost
  | _ =>
    rw [hp] at hcommitted
    cases hcommitted

end RetryWorld.Sound

theorem runLegWithRetry_exact (hfirst : first.Idle) (h : Reachable retryStep (· = first) w) :
    first.Exact w := by
  have hw := RetryWorld.Sound.reachable hfirst h
  refine ⟨hw.legs.books.posted,hw.conserved,hw.legs.recorded.once,?_,?_,?_,?_,?_⟩
  · intro n plan hmem
    obtain ⟨c,hc,rfl,_⟩ := (hw.legs.recorded.committed n plan).mp hmem
    rcases hw.clients n with ⟨_,hnone⟩ | ⟨r,d,hr,hd,hmatches⟩
    · rw [hc] at hnone
      cases hnone
    · rw [hc] at hd
      cases hd
      exact ⟨r,hr,hmatches.plan.symm⟩
  · exact fun n r hr hover => hw.unfinished hr hover
  · intro n r outcome hr hreturned hstatus
    obtain ⟨c,hc,hmatches⟩ := hw.matching hr
    have hp := (hmatches.returned outcome hreturned).committed.mp hstatus
    refine (hw.legs.recorded.committed n r.plan).mpr ⟨c,hc,hmatches.plan,?_⟩
    rw [hp]
    rfl
  · intro n r outcome hr hreturned hstatus
    obtain ⟨c,hc,hmatches⟩ := hw.matching hr
    have hreports := hmatches.returned outcome hreturned
    obtain ⟨hp,hlast⟩ := hreports.deadlockAborted hstatus
    refine ⟨hreports.attempts.trans hlast,hw.notMem_of hc ?_⟩
    rw [hp]
    rfl
  · exact fun n r plan hr hmem => hw.hidden hr hmem

/-- Two transfers against each other: each has locked its own row and waits for that of the other.
One is ended, sleeps and makes another attempt. -/
def againstEachOther : List RetryEvent :=
  [.start 0 .naiveLockOrder .A 1 2 25 5,.start 1 .naiveLockOrder .B 2 1 40 5,.query 0,.query 1,
    .query 0,.query 1,.fail 1 (some "40P01"),.query 0,.wake 1,.query 0,.query 0,.query 0,
    .query 1,.query 1,.query 1,.query 1,.query 1]

def twoClients : RetryWorld where
  legs := threeAccounts

theorem againstEachOther_exact :
    ∃ w, run retryStep twoClients againstEachOther = some w ∧ twoClients.Exact w ∧
      (w.legs.accounts 1).committed = 115 ∧
      (w.client 1).map RetryClient.phase = some (.returned ⟨.B,.committed,none,2⟩) := by
  have hidle : twoClients.Idle := ⟨⟨fun _ => rfl,rfl,rfl⟩,rfl⟩
  have hrun : (run retryStep twoClients againstEachOther).any (fun w =>
      decide ((w.legs.accounts 1).committed = 115 ∧
        (w.client 1).map RetryClient.phase = some (.returned ⟨.B,.committed,none,2⟩))) = true := by
    decide +kernel
  obtain ⟨w,hw,hresult,hreachable⟩ := exists_run_of_any hrun
  exact ⟨w,hw,runLegWithRetry_exact hidle hreachable,of_decide_eq_true hresult⟩

end SystemsLab.Deadlocks
