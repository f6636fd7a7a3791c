import SystemsLab.Delivery.Receipts
import SystemsLab.Framework.Settling

/-!
# That senders come to an end

Every step takes a run nearer to its end. A run that waits for a claim waits for a transaction of
the receiver that is open, and that one can go on. So, unless something fails, a run returns.
-/

namespace SystemsLab.Delivery

open RowVersions

variable {first w w' : DeliveryWorld} {n : Nat} {r r' : SendRun} {e : DeliveryEvent}

/-- The run that takes the step. -/
def DeliveryEvent.run : DeliveryEvent → Nat
  | .send n _ _ _ => n
  | .receive n => n
  | .reject n => n
  | .report n _ => n
  | .wake n => n

/-- A run that has started takes a step, and nothing fails. -/
def DeliveryEvent.GoesOn : DeliveryEvent → Prop
  | .receive _ => True
  | .report _ ok => ok = true
  | .wake _ => True
  | _ => False

/-- The receiver or `onAttempt` fails run `n`. -/
def DeliveryEvent.Fails (n : Nat) : DeliveryEvent → Prop
  | .reject m => m = n
  | .report m ok => m = n ∧ ok = false
  | _ => False

/-- The script has an outcome, and the receiver can count the message and does not fail. -/
structure SendRun.Served (first : DeliveryWorld) (es : List DeliveryEvent) (n : Nat)
    (r : SendRun) : Prop where
  script : r.script.outcomes ≠ []
  known : first.known r.messageId = true
  room : (first.notifications r.messageId).committed + 1 ≤ maxInteger
  commits : ∀ e ∈ es, ¬ e.Fails n

/-- An attempt takes five steps at most, with the `sleep` before it. -/
def SendRun.left (r : SendRun) : Nat :=
  match r.phase with
  | .delivering _ .claiming => (r.maxAttempts - r.attemptNumber) * 5 + 4
  | .delivering _ .updating => (r.maxAttempts - r.attemptNumber) * 5 + 3
  | .delivering _ (.committing _) => (r.maxAttempts - r.attemptNumber) * 5 + 2
  | .reporting _ => (r.maxAttempts - r.attemptNumber) * 5 + 1
  | .sleeping => (r.maxAttempts - r.attemptNumber) * 5
  | _ => 0

/-- What a run keeps from step to step. -/
structure SendRun.Same (r r' : SendRun) : Prop where
  messageId : r'.messageId = r.messageId
  script : r'.script = r.script
  maxAttempts : r'.maxAttempts = r.maxAttempts

private theorem SendRun.iterate_same (r : SendRun) : r.Same r.iterate := by
  unfold SendRun.iterate
  split
  · split <;> exact ⟨rfl,rfl,rfl⟩
  · exact ⟨rfl,rfl,rfl⟩

private theorem SendRun.iterate_left (r : SendRun) :
    r.iterate.left ≤ (r.maxAttempts - r.attemptNumber) * 5 + 4 := by
  unfold SendRun.iterate
  split
  · split
    · exact Nat.zero_le _
    · exact Nat.add_le_add_left (by decide) _
    · exact Nat.le_refl _
  · exact Nat.zero_le _

private theorem SendRun.iterate_over (h : r.maxAttempts < r.attemptNumber) :
    r.iterate.left = 0 := by
  unfold SendRun.iterate
  rw [if_neg (Nat.not_le.mpr h)]
  rfl

private theorem SendRun.iterate_threw (h : r.iterate.phase = .threw) : r.script.outcomes = [] := by
  unfold SendRun.iterate at h
  split at h
  · split at h
    · rename_i message hmessage
      by_contra hne
      obtain ⟨o,ho⟩ := outcomeForAttempt_ok hne r.attemptNumber
      rw [ho] at hmessage
      cases hmessage
    · cases h
    · cases h
  · cases h

private theorem SendRun.wake_left (hp : r.phase = .sleeping) (h : r.Follows) :
    r.advance.iterate.left < r.left := by
  unfold SendRun.Follows at h
  rw [hp] at h
  have hiterate := r.advance.iterate_left
  have hadvance : r.advance.maxAttempts - r.advance.attemptNumber =
      r.maxAttempts - (r.attemptNumber + 1) := rfl
  have hlt := h.1
  rw [hadvance] at hiterate
  rw [SendRun.left.eq_def r,hp]
  dsimp only
  omega

private theorem SendRun.afterReport_left {attempt : DeliveryAttempt}
    (hp : r.phase = .reporting attempt) :
    (r.afterReport attempt).left < r.left := by
  rw [SendRun.left.eq_def r,hp]
  unfold SendRun.afterReport
  split
  · exact Nat.succ_pos _
  · split
    · exact Nat.lt_succ_self _
    · rename_i hlast
      rw [SendRun.iterate_over]
      · exact Nat.succ_pos _
      · show r.maxAttempts < r.attemptNumber + 1
        omega

private theorem SendRun.afterReport_same (r : SendRun) (attempt : DeliveryAttempt) :
    r.Same (r.afterReport attempt) := by
  unfold SendRun.afterReport
  split
  · exact ⟨rfl,rfl,rfl⟩
  · split
    · exact ⟨rfl,rfl,rfl⟩
    · have h := r.advance.iterate_same
      exact ⟨h.messageId,h.script,h.maxAttempts⟩

private theorem SendRun.afterReport_threw {attempt : DeliveryAttempt}
    (h : (r.afterReport attempt).phase = .threw) : r.script.outcomes = [] := by
  unfold SendRun.afterReport at h
  split at h
  · cases h
  · split at h
    · cases h
    · exact SendRun.iterate_threw (r := r.advance) h

/-- The lock on a count belongs to a transaction that commits next. -/
def DeliveryWorld.Committing (w : DeliveryWorld) : Prop :=
  ∀ k m, w.notifications.holder k = some m →
    ∃ s o, w.run m = some s ∧ s.phase = .delivering o (.committing true)

namespace DeliveryWorld.Committing

theorem start (h : first.Idle) : first.Committing := by
  intro k m hm
  rw [RowVersions.holder,h.rows k] at hm
  cases hm

theorem keep (h : w.Committing) (hrun : w'.run = Function.update w.run n (some r'))
    (hrows : w'.notifications = w.notifications)
    (hold : ∀ s o, w.run n = some s → s.phase ≠ .delivering o (.committing true)) :
    w'.Committing := by
  intro k m hm
  rw [hrows] at hm
  obtain ⟨s,o,hs,hp⟩ := h k m hm
  refine ⟨s,o,?_,hp⟩
  rw [hrun,Function.update_of_ne]
  · exact hs
  · rintro rfl
    exact hold s o hs hp

private theorem release (h : w.Committing) (hrun : w'.run = Function.update w.run n (some r'))
    (hrows : ∀ k, w'.notifications.holder k =
      if w.notifications.holder k = some n then none else w.notifications.holder k) :
    w'.Committing := by
  intro k m hm
  rw [hrows] at hm
  split at hm
  · cases hm
  · rename_i hother
    obtain ⟨s,o,hs,hp⟩ := h k m hm
    refine ⟨s,o,?_,hp⟩
    rw [hrun,Function.update_of_ne]
    · exact hs
    · rintro rfl
      exact hother hm

theorem move (h : w.Committing) (hm : DeliveryMove w w') : w'.Committing := by
  cases hm with
  | sent n messageId script maxAttempts hn =>
    refine h.keep rfl rfl fun s o hs => ?_
    rw [hn] at hs
    cases hs
  | wentOn n r r' hr hquiet hgoesOn hfollows =>
    refine h.keep rfl rfl fun s o hs hp => ?_
    rw [hr] at hs
    cases hs
    cases hquiet _ _ hp
  | conflicted n r o hr hp hmem =>
    refine h.keep rfl rfl fun s o' hs hp' => ?_
    rw [hr] at hs
    cases hs
    rw [hp] at hp'
    cases hp'
  | claimed n r o hr hp hfresh hlock =>
    refine h.keep rfl rfl fun s o' hs hp' => ?_
    rw [hr] at hs
    cases hs
    rw [hp] at hp'
    cases hp'
  | counted n r o count hr hp hversion =>
    intro k m hm
    by_cases hk : k = r.messageId
    · rw [RowVersions.holder_put,if_pos hk] at hm
      cases hm
      exact ⟨_,o,Function.update_self _ _ _,rfl⟩
    · rw [RowVersions.holder_put,if_neg hk] at hm
      obtain ⟨s,o',hs,hp'⟩ := h k m hm
      refine ⟨s,o',(Function.update_of_ne ?_ _ _).trans hs,hp'⟩
      rintro rfl
      rw [hr] at hs
      cases hs
      rw [hp] at hp'
      cases hp'
  | committed n r o applied hr hp => exact h.release rfl (RowVersions.holder_commit _ _)
  | rejected n r hr => exact h.release rfl (RowVersions.holder_rollback _ _)

end DeliveryWorld.Committing

/-- The receiver cannot count the message of a run. -/
def DeliveryWorld.Full (w : DeliveryWorld) (n : Nat) (r : SendRun) : Prop :=
  ∃ o count, r.phase = .delivering o .updating ∧
    (w.notifications r.messageId).version n = some count ∧ maxInteger < count + 1

/-- What a step makes of the run that takes it: there is less left, and it throws for a reason. -/
structure DeliveryWorld.Leads (w : DeliveryWorld) (e : DeliveryEvent) (r r' : SendRun) : Prop where
  same : r.Same r'
  less : r'.left < r.left
  threw : r'.phase = .threw → r.script.outcomes = [] ∨ w.known r.messageId = false ∨
    w.Full e.run r ∨ e.Fails e.run

/-- The first step of a run. -/
structure SendRun.Starts (r : SendRun) : Prop where
  left : r.left ≤ 5 * r.maxAttempts
  threw : r.phase = .threw → r.script.outcomes = []

theorem idempotentProcessMessage_run (h : w.idempotentProcessMessage n r = some w') :
    w'.known = w.known ∧ ∃ r', w'.run = Function.update w.run n (some r') ∧
      w.Leads (.receive n) r r' := by
  unfold DeliveryWorld.idempotentProcessMessage at h
  split at h
  · rename_i o hp
    have hleft : r.left = (r.maxAttempts - r.attemptNumber) * 5 + 4 := by
      rw [SendRun.left,hp]
    unfold DeliveryWorld.claimMessage at h
    split at h
    · cases h
      refine ⟨rfl,_,rfl,⟨rfl,rfl,rfl⟩,?_,fun hthrew => by cases hthrew⟩
      rw [hleft]
      exact Nat.add_lt_add_left (by decide) _
    · split at h
      · cases h
      · split at h
        · cases h
          refine ⟨rfl,_,rfl,⟨rfl,rfl,rfl⟩,?_,fun hthrew => by cases hthrew⟩
          rw [hleft]
          exact Nat.lt_succ_self _
        · rename_i hunknown
          cases h
          refine ⟨rfl,_,rfl,⟨rfl,rfl,rfl⟩,?_,fun _ => .inr (.inl ?_)⟩
          · rw [hleft]
            exact Nat.succ_pos _
          · exact Bool.eq_false_iff.mpr hunknown
  · rename_i o hp
    have hleft : r.left = (r.maxAttempts - r.attemptNumber) * 5 + 3 := by
      rw [SendRun.left,hp]
    unfold DeliveryWorld.countMessage at h
    split at h
    · cases h
    · rename_i count hversion
      split at h
      · cases h
        refine ⟨rfl,_,rfl,⟨rfl,rfl,rfl⟩,?_,fun hthrew => by cases hthrew⟩
        rw [hleft]
        exact Nat.lt_succ_self _
      · rename_i hfull
        cases h
        refine ⟨rfl,_,rfl,⟨rfl,rfl,rfl⟩,?_,fun _ => .inr (.inr (.inl ?_))⟩
        · rw [hleft]
          exact Nat.succ_pos _
        · exact ⟨o,count,hp,hversion,Int.not_le.mp hfull⟩
  · rename_i o applied hp
    cases h
    refine ⟨rfl,r.push o,rfl,⟨rfl,rfl,rfl⟩,?_,fun hthrew => by cases hthrew⟩
    rw [SendRun.left.eq_def r,hp]
    exact Nat.lt_succ_self _
  · cases h

theorem deliveryStep_run (hw : first.Sound w) (h : deliveryStep w e = some w') :
    w'.known = w.known ∧ ∃ r', w'.run = Function.update w.run e.run (some r') ∧
      (w.run e.run = none ∧ ¬ e.GoesOn ∧ r'.Starts ∨
        ∃ r, w.run e.run = some r ∧ w.Leads e r r') := by
  unfold deliveryStep at h
  cases e with
  | send n messageId script maxAttempts =>
    dsimp only at h
    split at h
    · cases h
    · rename_i hn
      cases h
      refine ⟨rfl,_,rfl,.inl ⟨hn,id,?_,fun hp => ?_⟩⟩
      · have hsame := SendRun.iterate_same { messageId, script, maxAttempts }
        have hleft := SendRun.iterate_left { messageId, script, maxAttempts }
        rw [hsame.maxAttempts]
        show _ ≤ 5 * maxAttempts
        have hleft : _ ≤ (maxAttempts - 1) * 5 + 4 := hleft
        by_cases hzero : maxAttempts < 1
        · rw [SendRun.iterate_over hzero]
          exact Nat.zero_le _
        · omega
      · rw [(SendRun.iterate_same _).script]
        exact SendRun.iterate_threw hp
  | receive n =>
    dsimp only at h
    split at h
    · rename_i r hr
      obtain ⟨hknown,r',hrun,hleads⟩ := idempotentProcessMessage_run h
      exact ⟨hknown,r',hrun,.inr ⟨r,hr,hleads⟩⟩
    · cases h
  | reject n =>
    dsimp only at h
    split at h
    · rename_i r hr
      split at h
      · rename_i o receiver hp
        cases h
        refine ⟨rfl,_,rfl,.inr ⟨r,hr,⟨rfl,rfl,rfl⟩,?_,fun _ => .inr (.inr (.inr rfl))⟩⟩
        rw [SendRun.left.eq_def r,hp]
        cases receiver <;> exact Nat.succ_pos _
      · cases h
    · cases h
  | report n ok =>
    dsimp only at h
    split at h
    · rename_i r hr
      split at h
      · rename_i attempt hp
        cases h
        cases ok with
        | true =>
          exact ⟨rfl,_,rfl,.inr ⟨r,hr,r.afterReport_same attempt,SendRun.afterReport_left hp,
            fun hthrew => .inl (SendRun.afterReport_threw hthrew)⟩⟩
        | false =>
          refine ⟨rfl,_,rfl,.inr ⟨r,hr,⟨rfl,rfl,rfl⟩,?_,
            fun _ => .inr (.inr (.inr ⟨rfl,rfl⟩))⟩⟩
          rw [SendRun.left.eq_def r,hp]
          exact Nat.succ_pos _
      · cases h
    · cases h
  | wake n =>
    dsimp only at h
    split at h
    · rename_i r hr
      split at h
      · rename_i hp
        cases h
        have hsame := r.advance.iterate_same
        refine ⟨rfl,_,rfl,.inr ⟨r,hr,⟨hsame.messageId,hsame.script,hsame.maxAttempts⟩,?_,?_⟩⟩
        · exact SendRun.wake_left hp (hw.recorded.follows n r hr)
        · exact fun hthrew => .inl (SendRun.iterate_threw (r := r.advance) hthrew)
      · cases h
    · cases h

private theorem DeliveryWorld.Sound.not_full (h : first.Sound w) (hcommitting : w.Committing)
    (hr : w.run n = some r) (hroom : (first.notifications r.messageId).committed + 1 ≤ maxInteger) :
    ¬ w.Full n r := by
  rintro ⟨o,count,hp,hversion,hfull⟩
  have hclaimed : holdings w.run SendRun.claimed n = some r.messageId := by
    rw [holdings_eq hr,SendRun.claimed,hp]
  have hfresh := h.ids.fresh n _ hclaimed
  have hcommitted : count = (w.notifications r.messageId).committed := by
    rcases RowVersions.of_version hversion with ⟨_,heq⟩ | hheld
    · exact heq
    · have hholder : w.notifications.holder r.messageId = some n := by
        rw [RowVersions.holder,hheld]
        rfl
      obtain ⟨s,o',hs,hp'⟩ := hcommitting _ n hholder
      rw [hr] at hs
      cases hs
      rw [hp] at hp'
      cases hp'
  have hposted := h.books.posted r.messageId
  unfold DeliveryWorld.posted at hposted
  rw [List.count_eq_zero.mpr hfresh,
    List.count_eq_zero.mpr fun hold => hfresh (h.recorded.kept _ hold)] at hposted
  omega

/-- After the events `es`. -/
structure DeliveryWorld.Progress (first : DeliveryWorld) (es : List DeliveryEvent)
    (w : DeliveryWorld) : Prop where
  sound : first.Sound w
  committing : w.Committing
  known : w.known = first.known
  idle : ∀ n, w.run n = none → es.countP (·.run == n) = 0
  spent : ∀ n r, w.run n = some r → es.countP (·.run == n) + r.left ≤ 5 * r.maxAttempts + 1
  threw : ∀ n r, w.run n = some r → r.phase = .threw → ¬ r.Served first es n

private theorem countP_snoc (es : List DeliveryEvent) (e : DeliveryEvent) (n : Nat) :
    (es ++ [e]).countP (·.run == n) = es.countP (·.run == n) + if e.run = n then 1 else 0 := by
  rw [List.countP_append,List.countP_singleton]
  simp only [beq_iff_eq]

private theorem SendRun.Served.of_snoc {es : List DeliveryEvent}
    (h : r.Served first (es ++ [e]) n) :
    r.Served first es n :=
  ⟨h.script,h.known,h.room,fun e he => h.commits e (List.mem_append_left _ he)⟩

namespace DeliveryWorld.Progress

theorem start (h : first.Idle) : first.Progress [] first := by
  refine ⟨.start h,.start h,rfl,fun _ _ => rfl,?_,?_⟩
  · intro n r hr
    rw [h.runs] at hr
    cases hr
  · intro n r hr
    rw [h.runs] at hr
    cases hr

theorem step {es : List DeliveryEvent} (h : first.Progress es w)
    (hs : deliveryStep w e = some w') : first.Progress (es ++ [e]) w' := by
  have hm := deliveryStep_move hs
  obtain ⟨hknown,r',hrun,hcases⟩ := deliveryStep_run h.sound hs
  refine ⟨h.sound.move hm,h.committing.move hm,hknown.trans h.known,?_,?_,?_⟩
  · intro m hnone
    rw [hrun] at hnone
    obtain ⟨hne,hnone⟩ := update_eq_none hnone
    rw [countP_snoc,if_neg (Ne.symm hne),h.idle m hnone]
  · intro m s hs
    rw [hrun] at hs
    rw [countP_snoc]
    rcases update_eq_some hs with ⟨rfl,rfl⟩ | ⟨hne,hold⟩
    · rw [if_pos rfl]
      rcases hcases with ⟨hnone,-,hstarts⟩ | ⟨r,hr,hleads⟩
      · rw [h.idle _ hnone]
        have hleft := hstarts.left
        omega
      · have hspent := h.spent _ r hr
        have hless := hleads.less
        rw [hleads.same.maxAttempts]
        omega
    · rw [if_neg (Ne.symm hne)]
      exact h.spent m s hold
  · intro m s hs hp hserved
    rw [hrun] at hs
    rcases update_eq_some hs with ⟨rfl,rfl⟩ | ⟨_,hold⟩
    · rcases hcases with ⟨_,_,hstarts⟩ | ⟨r,hr,hleads⟩
      · exact hserved.script (hstarts.threw hp)
      · have hscript := hserved.script
        have hknown := hserved.known
        have hroom := hserved.room
        rw [hleads.same.script] at hscript
        rw [hleads.same.messageId] at hknown hroom
        rcases hleads.threw hp with hempty | hunknown | hfull | hfails
        · exact hscript hempty
        · rw [h.known,hknown] at hunknown
          cases hunknown
        · exact h.sound.not_full h.committing hr hroom hfull
        · exact hserved.commits e (List.mem_append_right _ (List.mem_singleton_self _)) hfails
    · exact h.threw m s hold hp hserved.of_snoc

end DeliveryWorld.Progress

/-- No run can take another step. -/
def DeliveryWorld.Complete (w : DeliveryWorld) : Prop :=
  ∀ e, DeliveryEvent.GoesOn e → deliveryStep w e = none

namespace DeliveryWorld.Complete

private theorem not_committing (h : w.Complete) (hr : w.run n = some r) (o : NetworkOutcome)
    (applied : Bool) : r.phase ≠ .delivering o (.committing applied) := by
  intro hp
  have hnone := h (.receive n) trivial
  simp [deliveryStep,hr,DeliveryWorld.idempotentProcessMessage,hp] at hnone

private theorem not_updating (h : w.Complete) (hcommitting : w.Committing) (hr : w.run n = some r)
    (o : NetworkOutcome) : r.phase ≠ .delivering o .updating := by
  intro hp
  have hversion : ((w.notifications r.messageId).version n).isSome := by
    refine RowVersions.version_isSome.mpr fun m hm => ?_
    obtain ⟨s,o',hs,hp'⟩ := hcommitting _ m hm
    exact absurd hp' (h.not_committing hs o' true)
  obtain ⟨count,hcount⟩ := Option.isSome_iff_exists.mp hversion
  have hnone := h (.receive n) trivial
  simp only [deliveryStep,hr,DeliveryWorld.idempotentProcessMessage,hp,
    DeliveryWorld.countMessage,hcount] at hnone
  split at hnone <;> cases hnone

private theorem not_claiming (h : w.Complete) (hw : first.Sound w) (hcommitting : w.Committing)
    (hr : w.run n = some r) (o : NetworkOutcome) : r.phase ≠ .delivering o .claiming := by
  intro hp
  have hfree : w.messageLock r.messageId = none := by
    refine Option.eq_none_iff_forall_ne_some.mpr fun m hm => ?_
    have hheld := (hw.ids.held _ m).mp hm
    obtain ⟨s,hs,hclaimed⟩ := Option.bind_eq_some_iff.mp hheld
    unfold SendRun.claimed at hclaimed
    split at hclaimed
    · rename_i o' hp'
      exact h.not_updating hcommitting hs o' hp'
    · rename_i o' hp'
      exact h.not_committing hs o' true hp'
    · cases hclaimed
  have hnone := h (.receive n) trivial
  simp only [deliveryStep,hr,DeliveryWorld.idempotentProcessMessage,hp,
    DeliveryWorld.claimMessage,hfree,Option.isSome_none] at hnone
  split at hnone
  · cases hnone
  · simp only [Bool.false_eq_true,if_false] at hnone
    split at hnone <;> cases hnone

private theorem ended (h : w.Complete) (hw : first.Sound w) (hcommitting : w.Committing)
    (hr : w.run n = some r) : (∃ result, r.phase = .returned result) ∨ r.phase = .threw := by
  cases hp : r.phase with
  | delivering o receiver =>
    cases receiver with
    | claiming => exact absurd hp (h.not_claiming hw hcommitting hr o)
    | updating => exact absurd hp (h.not_updating hcommitting hr o)
    | committing applied => exact absurd hp (h.not_committing hr o applied)
  | reporting attempt =>
    have hnone := h (.report n true) rfl
    simp [deliveryStep,hr,hp] at hnone
  | sleeping =>
    have hnone := h (.wake n) trivial
    simp [deliveryStep,hr,hp] at hnone
  | returned result => exact .inl ⟨result,rfl⟩
  | threw => exact .inr rfl

end DeliveryWorld.Complete

theorem DeliveryWorld.Progress.returned {es : List DeliveryEvent} (h : first.Progress es w)
    (hcomplete : w.Complete) (hr : w.run n = some r) (hserved : r.Served first es n) :
    ∃ result, r.phase = .returned result := by
  rcases hcomplete.ended h.sound h.committing hr with hreturned | hthrew
  · exact hreturned
  · exact absurd hserved (h.threw n r hr hthrew)

/-- What a run number has left. -/
def DeliveryWorld.left (w : DeliveryWorld) (n : Nat) : Nat := ((w.run n).map SendRun.left).getD 0

/-- All runs have numbers below `N`. -/
structure DeliveryWorld.Numbered (first : DeliveryWorld) (N : Nat) (w : DeliveryWorld) : Prop where
  sound : first.Sound w
  bound : ∀ n, N ≤ n → w.run n = none

private theorem exists_numbered (hfirst : first.Idle)
    (h : Reachable deliveryStep (· = first) w) : ∃ N, first.Numbered N w := by
  induction h with
  | start hw =>
    subst hw
    exact ⟨0,.start hfirst,fun n _ => by rw [hfirst.runs]⟩
  | @next s t e _ _ hs ih =>
    obtain ⟨N,hN⟩ := ih
    obtain ⟨-,r',hrun,-⟩ := deliveryStep_run hN.sound hs
    refine ⟨max N (e.run + 1),hN.sound.move (deliveryStep_move hs),fun n hn => ?_⟩
    rw [hrun,Function.update_of_ne (by omega)]
    exact hN.bound n (by omega)

private theorem DeliveryWorld.Numbered.goOn {N : Nat} (h : first.Numbered N w) (hgo : e.GoesOn)
    (hs : deliveryStep w e = some w') : first.Numbered N w' ∧
      ∑ n ∈ Finset.range N, w'.left n < ∑ n ∈ Finset.range N, w.left n := by
  obtain ⟨-,r',hrun,hcases⟩ := deliveryStep_run h.sound hs
  rcases hcases with ⟨_,hnot,_⟩ | ⟨r,hr,hleads⟩
  · exact absurd hgo hnot
  have hlt : e.run < N := by
    by_contra hout
    rw [h.bound _ (Nat.not_lt.mp hout)] at hr
    cases hr
  refine ⟨⟨h.sound.move (deliveryStep_move hs),fun n hn => ?_⟩,sum_left_lt hlt ?_ ?_⟩
  · rw [hrun,Function.update_of_ne (by omega)]
    exact h.bound n hn
  · intro n hn
    rw [DeliveryWorld.left,DeliveryWorld.left,hrun,Function.update_of_ne hn]
  · rw [DeliveryWorld.left,DeliveryWorld.left,hrun,Function.update_self,hr]
    exact hleads.less

/-- Without a failure, the runs that are on their way lead to a state in which all have ended. -/
theorem exists_complete (hfirst : first.Idle)
    (h : Reachable deliveryStep (· = first) w) : ∃ es w', (∀ e ∈ es, DeliveryEvent.GoesOn e) ∧
      run deliveryStep w es = some w' ∧ w'.Complete := by
  obtain ⟨N,hN⟩ := exists_numbered hfirst h
  exact exists_settled (fun v : DeliveryWorld => ∑ n ∈ Finset.range N, v.left n)
    (fun _ _ _ hv hgo hs => hv.goOn hgo hs) hN

theorem same_of_run {es : List DeliveryEvent} (hw : first.Sound w) (hr : w.run n = some r)
    (hrun : run deliveryStep w es = some w') : ∃ r', w'.run n = some r' ∧ r.Same r' := by
  have hkeep : ∀ v e v', (first.Sound v ∧ ∃ s, v.run n = some s ∧ r.Same s) →
      deliveryStep v e = some v' → first.Sound v' ∧ ∃ s', v'.run n = some s' ∧ r.Same s' := by
    rintro v e v' ⟨hv,s,hs,hsame⟩ hstep
    refine ⟨hv.move (deliveryStep_move hstep),?_⟩
    obtain ⟨-,s',hupdate,hcases⟩ := deliveryStep_run hv hstep
    by_cases hn : n = e.run
    · subst hn
      rw [hupdate,Function.update_self]
      rcases hcases with ⟨hnone,_⟩ | ⟨q,hq,hleads⟩
      · rw [hs] at hnone
        cases hnone
      · obtain rfl : s = q := Option.some.inj (hs.symm.trans hq)
        exact ⟨s',rfl,hleads.same.messageId.trans hsame.messageId,
          hleads.same.script.trans hsame.script,
          hleads.same.maxAttempts.trans hsame.maxAttempts⟩
    · rw [hupdate,Function.update_of_ne hn]
      exact ⟨s,hs,hsame⟩
  exact (run_invariant hkeep ⟨hw,r,hr,rfl,rfl,rfl⟩ hrun).2

theorem DeliveryEvent.GoesOn.not_fails (h : e.GoesOn) (n : Nat) : ¬ e.Fails n := by
  intro hfails
  cases e with
  | send => exact h
  | receive => exact hfails
  | reject => exact h
  | report m ok =>
    have hok : ok = true := h
    rw [hfails.2] at hok
    cases hok
  | wake => exact hfails

end SystemsLab.Delivery
